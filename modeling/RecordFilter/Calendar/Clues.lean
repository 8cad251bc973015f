import RecordFilter.Calendar.Date

namespace RecordFilter.Calendar

-- What a written date or time can say. The hour is kept as a half of the day and an
-- hour within it, since either may be written alone.
inductive Clue where
  | year
  | century
  | yearOfCentury
  | isoYear
  | isoYearOfCentury
  | quarter
  | month
  | day
  | ordinal
  | weekFromSunday
  | weekFromMonday
  | isoWeek
  | weekday
  | halfDay
  | hour
  | minute
  | second
  | nanosecond
  | timestamp
  | offset
  deriving DecidableEq

namespace Clue

-- Second 60 is a leap second.
def bounds? : Clue → Option (Int × Int)
  | quarter => some (1, 4)
  | month => some (1, 12)
  | day => some (1, 31)
  | ordinal => some (1, 366)
  | weekFromSunday | weekFromMonday => some (0, 53)
  | isoWeek => some (1, 53)
  | weekday => some (0, 6)
  | halfDay => some (0, 1)
  | hour => some (0, 11)
  | minute => some (0, 59)
  | second => some (0, 60)
  | _ => none

def allows (clue : Clue) (value : Int) : Bool :=
  match clue.bounds? with
  | none => true
  | some (lowest, highest) => lowest ≤ value && value ≤ highest

-- What a day says itself, where a year before year zero has no century.
def ofDate? (date : Date) : Clue → Option Int
  | year => some date.year
  | century => if 0 ≤ date.year then some (date.year / 100) else none
  | yearOfCentury => if 0 ≤ date.year then some (date.year % 100) else none
  | isoYear => some date.isoWeek.1
  | isoYearOfCentury => if 0 ≤ date.isoWeek.1 then some (date.isoWeek.1 % 100) else none
  | quarter => some ((date.month + 2) / 3 : Nat)
  | month => some date.month
  | day => some date.day
  | ordinal => some date.ordinal
  | weekFromSunday => some (date.weekFrom sunday)
  | weekFromMonday => some (date.weekFrom monday)
  | isoWeek => some date.isoWeek.2
  | weekday => some date.weekday
  | _ => none

def ofDates : List Clue :=
  [year, century, yearOfCentury, isoYear, isoYearOfCentury, quarter, month, day, ordinal,
    weekFromSunday, weekFromMonday, isoWeek, weekday]

end Clue

inductive Lack where
  | tooFew
  | noneFits

abbrev Clues := Clue → Option Int

namespace Clues

def empty : Clues := fun _ => none

-- A clue that is given twice must say the same both times.
def with? (clues : Clues) (clue : Clue) (value : Int) : Option Clues :=
  if clue.allows value then
    match clues clue with
    | none => some fun other => if other = clue then some value else clues other
    | some known => if known = value then some clues else none
  else none

-- An hour of twenty-four settles the half of the day too.
def withHour? (clues : Clues) (value : Int) : Option Clues := do
  let clues ← clues.with? .halfDay (value / 12)
  clues.with? .hour (value % 12)

-- An hour of twelve, in which twelve comes first and counts as zero.
def withHourOfTwelve? (clues : Clues) (value : Int) : Option Clues :=
  if 1 ≤ value ∧ value ≤ 12 then clues.with? .hour (value % 12) else none

def withDayFromSunday? (clues : Clues) (value : Int) : Option Clues :=
  if value = 0 then clues.with? .weekday sunday
  else if value ≤ 6 then clues.with? .weekday (value - 1)
  else none

-- A year of the century alone lies between 1970 and 2069. A century alone is too few.
def yearOf (full century short : Option Int) : Except Lack (Option Int) :=
  match full, century, short with
  | some year, _, _ => .ok (some year)
  | none, some century, some short => .ok (some (century * 100 + short))
  | none, none, some short => .ok (some (if short < 70 then 2000 + short else 1900 + short))
  | none, some _, none => .error .tooFew
  | none, none, none => .ok none

def told? (clues : Clues) (year isoYear : Option Int) : Option (Option Date) :=
  (do let year ← year
      let month ← clues .month
      let day ← clues .day
      some (Date.ofParts? year month.toNat day.toNat)) <|>
  (do let year ← year
      let ordinal ← clues .ordinal
      some (Date.ofOrdinal? year ordinal.toNat)) <|>
  (do let year ← year
      let week ← clues .weekFromSunday
      let weekday ← clues .weekday
      some (Date.ofWeek? sunday year week.toNat weekday.toNat)) <|>
  (do let year ← year
      let week ← clues .weekFromMonday
      let weekday ← clues .weekday
      some (Date.ofWeek? monday year week.toNat weekday.toNat)) <|>
  (do let isoYear ← isoYear
      let week ← clues .isoWeek
      let weekday ← clues .weekday
      some (Date.ofIsoWeek? isoYear week.toNat weekday.toNat))

def fits (clues : Clues) (date : Date) : Bool :=
  Clue.ofDates.all fun clue => clues clue = none ∨ clues clue = clue.ofDate? date

def date (clues : Clues) : Except Lack Date := do
  let year ← yearOf (clues .year) (clues .century) (clues .yearOfCentury)
  let isoYear ← yearOf (clues .isoYear) none (clues .isoYearOfCentury)
  match clues.told? year isoYear with
  | none => .error .tooFew
  | some told => ((told.filter clues.fits).map .ok).getD (.error .noneFits)

-- A time needs hour, half of the day and minute. The second may be left out, but only
-- together with its fraction.
def time? (clues : Clues) : Option (Nat × Nat) := do
  let halfDay ← clues .halfDay
  let hour ← clues .hour
  let minute ← clues .minute
  let start := ((halfDay * 12 + hour) * 3600 + minute * 60).toNat
  match clues .second, clues .nanosecond with
  | none, none => some (start, 0)
  | none, some _ => none
  | some second, nanosecond =>
    let fraction := (nanosecond.getD 0).toNat
    if second = 60 then some (start + 59, fraction + 1000000000)
    else some (start + second.toNat, fraction)

def date? (clues : Clues) : Option Date := clues.date.toOption

def moment? (clues : Clues) : Option DateTime := do
  let date ← clues.date?
  let (second, nanosecond) ← clues.time?
  DateTime.ofParts? date second nanosecond

-- The second before the one that a timestamp names may be a leap second.
def isAt (moment : DateTime) (timestamp : Int) : Bool :=
  moment.timestamp = timestamp ∨
    (1000000000 ≤ moment.nanosecond ∧ moment.timestamp + 1 = timestamp)

-- Takes from a timestamp what the clues do not say. It counts no leap seconds, so a
-- leap second stands at the one before it or at the one after.
def completed? (clues : Clues) (timestamp : Int) : Option Clues := do
  let moment ← DateTime.ofTimestamp? timestamp
  let (clues, moment) ←
    if clues .second = some 60 then
      if moment.second % 60 = 59 then some (clues, moment)
      else if moment.second % 60 = 0 then (moment.earlier? 1).map fun moment => (clues, moment)
      else none
    else (clues.with? .second (moment.second % 60 : Nat)).map fun clues => (clues, moment)
  let clues ← clues.with? .year moment.date.year
  let clues ← clues.with? .ordinal moment.date.ordinal
  let clues ← clues.withHour? (moment.second / 3600 : Nat)
  clues.with? .minute (moment.second / 60 % 60 : Nat)

def dateTime? (clues : Clues) : Option DateTime :=
  match clues.date, clues.time?, clues .timestamp with
  | .ok _, some _, none => clues.moment?
  | .ok _, some _, some timestamp => clues.moment?.filter (isAt · timestamp)
  | .error .noneFits, _, _ => none
  | _, _, none => none
  | _, _, some timestamp => (clues.completed? timestamp).bind moment?

end Clues

end RecordFilter.Calendar
