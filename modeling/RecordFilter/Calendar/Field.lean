import RecordFilter.Calendar.Clues
import RecordFilter.Text.Blank

namespace RecordFilter.Calendar

def monthNames : List (Text × Text) :=
  [("jan".toList, "uary".toList), ("feb".toList, "ruary".toList), ("mar".toList, "ch".toList),
    ("apr".toList, "il".toList), ("may".toList, []), ("jun".toList, "e".toList),
    ("jul".toList, "y".toList), ("aug".toList, "ust".toList), ("sep".toList, "tember".toList),
    ("oct".toList, "ober".toList), ("nov".toList, "ember".toList), ("dec".toList, "ember".toList)]

def weekdayNames : List (Text × Text) :=
  [("mon".toList, "day".toList), ("tue".toList, "sday".toList), ("wed".toList, "nesday".toList),
    ("thu".toList, "rsday".toList), ("fri".toList, "day".toList), ("sat".toList, "urday".toList),
    ("sun".toList, "day".toList)]

def dropWord? (word text : Text) : Option Text :=
  if Text.lower (text.take word.length) = word then some (text.drop word.length) else none

-- The index of the name that a text begins with, and what follows it. Names are their
-- first three letters. The rest of a full name is taken along when it is wanted and there.
def name? (full : Bool) : List (Text × Text) → Int → Text → Option (Int × Text)
  | [], _, _ => none
  | (short, more) :: names, index, text =>
    match dropWord? short text with
    | some rest => some (index, if full then (dropWord? more rest).getD rest else rest)
    | none => name? full names (index + 1) text

def digits? (width : Nat) (text : Text) : Option (Int × Text) :=
  let digits := (text.take width).takeWhile Text.isDigit
  if digits.isEmpty then none else some (Text.digitsValue digits, text.drop digits.length)

def exactDigits? (width : Nat) (text : Text) : Option (Int × Text) :=
  let digits := text.take width
  if digits.length = width ∧ digits.all Text.isDigit then
    some (Text.digitsValue digits, text.drop width)
  else none

def allDigits? (text : Text) : Option (Int × Text) := digits? text.length text

-- A year has up to four digits, or any number of them after a sign.
def year? : Text → Option (Int × Text)
  | '-' :: rest => (allDigits? rest).map fun (value, rest) => (-value, rest)
  | '+' :: rest => allDigits? rest
  | text => digits? 4 text

-- A decimal fraction in nanoseconds. Digits after the ninth are skipped.
def fraction? (text : Text) : Option (Int × Text) :=
  let digits := text.takeWhile Text.isDigit
  if digits.isEmpty then none
  else
    let nanoseconds := Text.digitsValue ((digits ++ List.replicate 9 '0').take 9)
    some (nanoseconds, text.drop digits.length)

def shortFraction? (width : Nat) (text : Text) : Option (Int × Text) :=
  (exactDigits? width text).map fun (value, rest) => (value * Nat.pow 10 (9 - width), rest)

def halfDay? (text : Text) : Option (Int × Text) :=
  match dropWord? "am".toList text with
  | some rest => some (0, rest)
  | none => (dropWord? "pm".toList text).map fun rest => (1, rest)

-- Minutes may only be missing at the end.
def offsetMinutes? (missing : Bool) (text : Text) : Option (Int × Text) :=
  if missing ∧ text.isEmpty then some (0, text)
  else (exactDigits? 2 text).filter fun (minutes, _) => minutes ≤ 59

-- Seconds that local time is ahead of universal time. The minus may be the mathematical
-- sign. Between hours and minutes stands what the separator drops.
def offset? (separator : Text → Option Text) (missing : Bool) : Text → Option (Int × Text)
  | [] => none
  | sign :: text => do
    let direction ←
      if sign = '+' then some (1 : Int)
      else if sign = '-' ∨ sign = '−' then some (-1)
      else none
    let (hours, rest) ← exactDigits? 2 text
    let rest ← separator rest
    let (minutes, rest) ← offsetMinutes? missing rest
    some (direction * ((hours * 60 + minutes) * 60), rest)

def zuluOffset? (separator : Text → Option Text) (missing : Bool) (text : Text) :
    Option (Int × Text) :=
  match text with
  | 'Z' :: rest | 'z' :: rest => some (0, rest)
  | text => offset? separator missing text

def dropLoosely? (text : Text) : Option Text :=
  some (text.dropWhile fun c => c = ':' ∨ Text.isBlank c)

def zone? (text : Text) : Option (Int × Text) :=
  match dropWord? "utc".toList text with
  | some rest => some (0, rest)
  | none => zuluOffset? dropLoosely? false text

-- The fields that a pattern can ask for. Numbers are at most so many digits wide, short
-- fractions exactly.
inductive Field where
  | year (clue : Clue)
  | number (width : Nat) (clue : Clue)
  | hour
  | hourOfTwelve
  | dayFromSunday
  | dayFromMonday
  | timestamp
  | monthName (full : Bool)
  | weekdayName (full : Bool)
  | halfDay
  | fraction
  | pointFraction (width : Nat)
  | shortFraction (width : Nat)
  | zoneName
  | offset
  | zuluOffset
  | zone
  deriving DecidableEq

namespace Field

-- Only numbers can be padded in another way than usual, which reading does not notice.
def isNumber : Field → Bool
  | year _ | number _ _ | hour | hourOfTwelve | dayFromSunday | dayFromMonday | timestamp => true
  | _ => false

def noted? (note : Int → Option Clues) (found : Option (Int × Text)) : Option (Clues × Text) := do
  let (value, rest) ← found
  let clues ← note value
  some (clues, rest)

-- White space may come before a number and before an offset. A fraction with its point
-- may be missing altogether.
def read? (field : Field) (clues : Clues) (text : Text) : Option (Clues × Text) :=
  let number := Text.dropBlank text
  match field with
  | year clue => noted? (clues.with? clue) (year? number)
  | .number width clue => noted? (clues.with? clue) (digits? width number)
  | hour => noted? clues.withHour? (digits? 2 number)
  | hourOfTwelve => noted? clues.withHourOfTwelve? (digits? 2 number)
  | dayFromSunday => noted? clues.withDayFromSunday? (digits? 1 number)
  | dayFromMonday => noted? (fun day => clues.with? .weekday (day - 1)) (digits? 1 number)
  | timestamp => noted? (clues.with? .timestamp) (allDigits? number)
  | monthName full => noted? (clues.with? .month) (name? full monthNames 1 text)
  | weekdayName full => noted? (clues.with? .weekday) (name? full weekdayNames 0 text)
  | halfDay => noted? (clues.with? .halfDay) (halfDay? text)
  | fraction =>
    match text with
    | '.' :: rest => noted? (clues.with? .nanosecond) (fraction? rest)
    | _ => some (clues, text)
  | pointFraction width =>
    match text with
    | '.' :: rest => noted? (clues.with? .nanosecond) (shortFraction? width rest)
    | _ => some (clues, text)
  | shortFraction width => noted? (clues.with? .nanosecond) (shortFraction? width text)
  | zoneName => some (clues, text.dropWhile fun c => !Text.isBlank c)
  | offset => noted? (clues.with? .offset) (offset? dropLoosely? false number)
  | zuluOffset => noted? (clues.with? .offset) (zuluOffset? dropLoosely? true number)
  | zone => noted? (clues.with? .offset) (zone? number)

end Field

end RecordFilter.Calendar
