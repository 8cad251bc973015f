import RecordFilter.Number.Integer

namespace RecordFilter

namespace Calendar

-- The Gregorian rule, applied to all years before and after its introduction.
def isLeap (year : Int) : Bool := year % 4 == 0 && (year % 100 != 0 || year % 400 == 0)

def daysInMonth (year : Int) : Nat → Nat
  | 2 => if isLeap year then 29 else 28
  | 4 | 6 | 9 | 11 => 30
  | _ => 31

def daysInYear (year : Int) : Nat := if isLeap year then 366 else 365

def earliestYear : Int := -262143

def latestYear : Int := 262142

-- Whether year, month and day name a day of the calendar. There is a year zero.
def isDay (year : Int) (month day : Nat) : Bool :=
  earliestYear ≤ year && year ≤ latestYear && 1 ≤ month && month ≤ 12 && 1 ≤ day &&
    day ≤ daysInMonth year month

-- Days of a year before the first of a month.
def daysBefore (year : Int) : Nat → Nat
  | 0 | 1 => 0
  | month + 2 => daysBefore year (month + 1) + daysInMonth year (month + 1)

-- Days from the first day of year one to the first day of a year.
def daysBeforeYear (year : Int) : Int :=
  let past := year - 1
  365 * past + past / 4 - past / 100 + past / 400

-- Days of the week are counted from Monday, which is zero. Year one began with it.
def firstWeekday (year : Int) : Nat := (daysBeforeYear year % 7).toNat

-- Days since the last day of the week that a week begins with.
def daysSince (first weekday : Nat) : Nat := (weekday + 7 - first) % 7

def monday : Nat := 0

def sunday : Nat := 6

end Calendar

structure Date where
  year : Int
  month : Nat
  day : Nat
  isDay : Calendar.isDay year month day = true
  deriving DecidableEq

namespace Date

open Calendar

def ofParts? (year : Int) (month day : Nat) : Option Date :=
  if h : Calendar.isDay year month day = true then some ⟨year, month, day, h⟩ else none

-- The place of a day in its year, counted from one.
def ordinal (date : Date) : Nat := daysBefore date.year date.month + date.day

-- The day at a place of a year. The month is the first that does not end before it.
def ofOrdinal? (year : Int) (ordinal : Nat) : Option Date :=
  if daysInYear year < ordinal then none
  else
    let months := List.range' 1 12
    (months.find? (fun month => ordinal ≤ daysBefore year month + daysInMonth year month)).bind
      fun month => ofParts? year month (ordinal - daysBefore year month)

-- A day counted from a year's first one, which may lie in a year beside it.
def ofPlace? (year place : Int) : Option Date :=
  if place ≤ 0 then ofOrdinal? (year - 1) (place + daysInYear (year - 1)).toNat
  else if daysInYear year < place then ofOrdinal? (year + 1) (place - daysInYear year).toNat
  else ofOrdinal? year place.toNat

def weekday (date : Date) : Nat := (firstWeekday date.year + (date.ordinal - 1)) % 7

-- The week of the year, when week one begins with the first Monday or the first Sunday
-- and all days before are in week zero.
def weekFrom (first : Nat) (date : Date) : Nat :=
  (date.ordinal + 6 - daysSince first date.weekday) / 7

-- The day of such a week, if the week has it in that year.
def ofWeek? (first : Nat) (year : Int) (week weekday : Nat) : Option Date :=
  let start := 1 + daysSince (firstWeekday year) first
  ofOrdinal? year (start + 7 * week + daysSince first weekday - 7)

-- The year and the week of ISO 8601, which are those of the Thursday nearby.
def isoWeek (date : Date) : Int × Nat :=
  let thursday := date.ordinal + 3 - (date.weekday : Int)
  if thursday ≤ 0 then
    (date.year - 1, ((thursday + daysInYear (date.year - 1) + 6) / 7).toNat)
  else if daysInYear date.year < thursday then (date.year + 1, 1)
  else (date.year, ((thursday + 6) / 7).toNat)

-- Week one has the fourth of January in it.
def ofIsoWeek? (year : Int) (week weekday : Nat) : Option Date :=
  let start := 4 - (daysSince monday (firstWeekday year + 3) : Int)
  (ofPlace? year (start + 7 * (week - 1) + weekday)).filter (·.isoWeek = (year, week))

def next? (date : Date) : Option Date :=
  match ofParts? date.year date.month (date.day + 1) with
  | some next => some next
  | none =>
    match ofParts? date.year (date.month + 1) 1 with
    | some next => some next
    | none => ofParts? (date.year + 1) 1 1

def previous? (date : Date) : Option Date :=
  if 1 < date.day then ofParts? date.year date.month (date.day - 1)
  else if 1 < date.month then
    ofParts? date.year (date.month - 1) (daysInMonth date.year (date.month - 1))
  else ofParts? (date.year - 1) 12 31

instance : Ord Date where
  compare a b :=
    (compare a.year b.year).then ((compare a.month b.month).then (compare a.day b.day))

-- Years of the common range have four digits. All others have a sign as well.
def yearText (year : Int) : Text :=
  if 0 ≤ year ∧ year ≤ 9999 then Text.padded 4 year.toNat
  else (if year < 0 then '-' else '+') :: Text.padded 4 year.natAbs

def text (date : Date) : Text :=
  yearText date.year ++ '-' :: Text.padded 2 date.month ++ '-' :: Text.padded 2 date.day

end Date

-- A moment of a day of the calendar, without a place on earth. Nanoseconds beyond one
-- second belong to a leap second, which is part of the second before it.
structure DateTime where
  date : Date
  second : Nat
  nanosecond : Nat
  second_lt : second < 86400
  nanosecond_lt : nanosecond < 2000000000
  deriving DecidableEq

namespace DateTime

open Calendar

def ofParts? (date : Date) (second nanosecond : Nat) : Option DateTime :=
  if h : second < 86400 ∧ nanosecond < 2000000000 then
    some ⟨date, second, nanosecond, h.1, h.2⟩
  else none

def midnight (date : Date) : DateTime := ⟨date, 0, 0, by decide, by decide⟩

instance : Ord DateTime where
  compare a b :=
    (compare a.date b.date).then
      ((compare a.second b.second).then (compare a.nanosecond b.nanosecond))

-- A leap second is written as second 60. Fractions are not written.
def text (moment : DateTime) : Text :=
  let leap := moment.nanosecond / 1000000000
  moment.date.text ++ 'T' :: Text.padded 2 (moment.second / 3600) ++
    ':' :: Text.padded 2 (moment.second / 60 % 60) ++
    ':' :: Text.padded 2 (moment.second % 60 + leap)

-- The moment so many seconds earlier, or later when the number is negative. Only
-- shifts of less than a day are needed, so at most one midnight is crossed.
def earlier? (moment : DateTime) (seconds : Int) : Option DateTime :=
  let second := (moment.second : Int) - seconds
  if second < 0 then
    moment.date.previous?.bind fun date =>
      ofParts? date (second + 86400).toNat moment.nanosecond
  else if 86400 ≤ second then
    moment.date.next?.bind fun date => ofParts? date (second - 86400).toNat moment.nanosecond
  else ofParts? moment.date second.toNat moment.nanosecond

-- Seconds of universal time since the first moment of 1970.
def timestamp (moment : DateTime) : Int :=
  let days := daysBeforeYear moment.date.year - daysBeforeYear 1970 + (moment.date.ordinal - 1 : Nat)
  days * 86400 + moment.second

-- The average length of a year tells the year up to one.
def ofTimestamp? (timestamp : Int) : Option DateTime := do
  let days := timestamp / 86400 + daysBeforeYear 1970
  let guess := days * 400 / 146097 + 1
  let year ← [guess - 1, guess, guess + 1].find? fun year => days < daysBeforeYear (year + 1)
  let date ← Date.ofOrdinal? year (days - daysBeforeYear year + 1).toNat
  ofParts? date (timestamp % 86400).toNat 0

end DateTime

end RecordFilter
