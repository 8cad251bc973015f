import RecordFilter.Calendar.Field

namespace RecordFilter.Calendar

inductive Item where
  | literal (c : Char)
  | blank
  | timeMark
  | field (field : Field)
  deriving DecidableEq

-- Between day and time of a timestamp stand a letter T of either case or one space.
def dropTimeMark? : Text → Option Text
  | c :: rest => if c = 'T' ∨ c = 't' ∨ c = ' ' then some rest else none
  | [] => none

def Item.read? (item : Item) (clues : Clues) (text : Text) : Option (Clues × Text) :=
  match item with
  | .literal c => (Text.dropLead? [c] text).map fun rest => (clues, rest)
  | .blank => some (clues, Text.dropBlank text)
  | .timeMark => (dropTimeMark? text).map fun rest => (clues, rest)
  | .field wanted => wanted.read? clues text

-- A pattern says how a date or a moment is written, item by item.
abbrev Pattern := List Item

namespace Pattern

def fullYear : Pattern := [.field (.year .year)]

def year : Pattern := [.field (.number 2 .yearOfCentury)]

def month : Pattern := [.field (.number 2 .month)]

def day : Pattern := [.field (.number 2 .day)]

def hour : Pattern := [.field .hour]

def hourOfTwelve : Pattern := [.field .hourOfTwelve]

def minute : Pattern := [.field (.number 2 .minute)]

def second : Pattern := [.field (.number 2 .second)]

def halfDay : Pattern := [.field .halfDay]

def monthName : Pattern := [.field (.monthName false)]

def weekdayName : Pattern := [.field (.weekdayName false)]

def offset : Pattern := [.field .offset]

-- Patterns with something between each two of them.
def spaced (between : Pattern) (parts : List Pattern) : Pattern :=
  (parts.intersperse between).flatten

def timeOfDay : Pattern := spaced [.literal ':'] [hour, minute, second]

def shortDate : Pattern := spaced [.literal '/'] [month, day, year]

-- A timestamp, with white space allowed where the fields meet.
def stamp : Pattern :=
  spaced [.blank, .literal '-'] [fullYear, month, day] ++ .timeMark ::
    spaced [.blank, .literal ':'] [hour, minute, second] ++ [.field .fraction, .blank, .field .zone]

-- What the letters behind a percent sign stand for. Some are short for several items.
def specifiers : List (Text × Pattern) :=
  [("A".toList, [.field (.weekdayName true)]),
    ("B".toList, [.field (.monthName true)]),
    ("C".toList, [.field (.number 2 .century)]),
    ("D".toList, shortDate),
    ("F".toList, spaced [.literal '-'] [fullYear, month, day]),
    ("G".toList, [.field (.year .isoYear)]),
    ("H".toList, hour),
    ("I".toList, hourOfTwelve),
    ("M".toList, minute),
    ("P".toList, halfDay),
    ("R".toList, spaced [.literal ':'] [hour, minute]),
    ("S".toList, second),
    ("T".toList, timeOfDay),
    ("U".toList, [.field (.number 2 .weekFromSunday)]),
    ("V".toList, [.field (.number 2 .isoWeek)]),
    ("W".toList, [.field (.number 2 .weekFromMonday)]),
    ("X".toList, timeOfDay),
    ("Y".toList, fullYear),
    ("Z".toList, [.field .zoneName]),
    ("a".toList, weekdayName),
    ("b".toList, monthName),
    ("c".toList, spaced [.blank] [weekdayName, monthName, day, timeOfDay, fullYear]),
    ("d".toList, day),
    ("e".toList, day),
    ("f".toList, [.field (.number 9 .nanosecond)]),
    ("g".toList, [.field (.number 2 .isoYearOfCentury)]),
    ("h".toList, monthName),
    ("j".toList, [.field (.number 3 .ordinal)]),
    ("k".toList, hour),
    ("l".toList, hourOfTwelve),
    ("m".toList, month),
    ("n".toList, [.blank]),
    ("p".toList, halfDay),
    ("q".toList, [.field (.number 1 .quarter)]),
    ("r".toList, spaced [.literal ':'] [hourOfTwelve, minute, second] ++ .blank :: halfDay),
    ("s".toList, [.field .timestamp]),
    ("t".toList, [.blank]),
    ("u".toList, [.field .dayFromMonday]),
    ("v".toList, spaced [.literal '-'] [day, monthName, fullYear]),
    ("w".toList, [.field .dayFromSunday]),
    ("x".toList, shortDate),
    ("y".toList, year),
    ("z".toList, offset),
    (":z".toList, offset),
    ("::z".toList, offset),
    (":::z".toList, offset),
    ("#z".toList, [.field .zuluOffset]),
    (".f".toList, [.field .fraction]),
    (".3f".toList, [.field (.pointFraction 3)]),
    (".6f".toList, [.field (.pointFraction 6)]),
    (".9f".toList, [.field (.pointFraction 9)]),
    ("3f".toList, [.field (.shortFraction 3)]),
    ("6f".toList, [.field (.shortFraction 6)]),
    ("9f".toList, [.field (.shortFraction 9)]),
    ("+".toList, stamp),
    ("%".toList, [.literal '%'])]

-- The pattern of the specifier that a text begins with, and the specifier's length. No
-- specifier begins with another.
def specifier? (text : Text) : Option (Pattern × Nat) :=
  (specifiers.find? fun (letters, _) => letters.isPrefixOf text).map fun (letters, pattern) =>
    (pattern, letters.length)

def isNumber : Pattern → Bool
  | [.field field] => field.isNumber
  | _ => false

-- A number may have its padding named in front of it.
def padded? : Text → Option (Pattern × Nat)
  | [] => none
  | c :: text =>
    if c = '-' ∨ c = '_' ∨ c = '0' then
      ((specifier? text).filter (isNumber ·.1)).map fun (pattern, length) => (pattern, length + 1)
    else specifier? (c :: text)

-- Patterns are written as text with specifiers, whose characters are skipped once they
-- are read. An unknown one, or a percent sign at the end, makes a pattern that nothing
-- matches.
def ofText? : Nat → Text → Option Pattern
  | _, [] => some []
  | skip + 1, _ :: text => ofText? skip text
  | 0, c :: text =>
    if c = '%' then do
      let (items, length) ← padded? text
      let pattern ← ofText? length text
      some (items ++ pattern)
    else (ofText? 0 text).map ((if Text.isBlank c then Item.blank else Item.literal c) :: ·)

-- Applies the items in turn. The text has to end with the pattern.
def read? : Pattern → Clues → Text → Option Clues
  | [], clues, text => if text.isEmpty then some clues else none
  | item :: pattern, clues, text => do
    let (clues, rest) ← item.read? clues text
    read? pattern clues rest

end Pattern

-- The clues in a text that follows a written pattern.
def clues? (pattern text : Text) : Option Clues :=
  (Pattern.ofText? 0 pattern).bind fun pattern => pattern.read? Clues.empty text

def date? (pattern text : Text) : Option Date := (clues? pattern text).bind Clues.date?

def dateTime? (pattern text : Text) : Option DateTime := (clues? pattern text).bind Clues.dateTime?

end RecordFilter.Calendar
