import RecordFilter.Calendar.Timestamp
import RecordFilter.Fault
import RecordFilter.Text.Uppercase
import RecordFilter.Value.Type

namespace RecordFilter

-- The patterns that dates and moments are written in.
structure Formats where
  date : Text := "%Y-%m-%d".toList
  dateTime : Text := "%Y-%m-%dT%H:%M:%S".toList
  deriving DecidableEq

namespace Formats

def date? (formats : Formats) (text : Text) : Option Date := Calendar.date? formats.date text

-- A moment is written in the pattern for moments, or as a timestamp with its distance
-- from universal time, or as a bare date, which means midnight.
def dateTime? (formats : Formats) (text : Text) : Option DateTime :=
  match Calendar.dateTime? formats.dateTime text with
  | some moment => some moment
  | none =>
    match Calendar.timestamp? text with
    | some moment => some moment
    | none => (formats.date? text).map DateTime.midnight

end Formats

namespace Scalar

def bool? (text : Text) : Option Bool :=
  if text = "true".toList then some true
  else if text = "false".toList then some false
  else none

def char? : Text → Option Char
  | [c] => some c
  | _ => none

-- Literals are finite, even where a text for an infinite number exists.
def finite? (precision : Precision) (text : Text) : Option Binary64 :=
  (Binary64.read? precision text).filter Binary64.isFinite

-- Reads a literal of a type, without trimming or truncating anything.
def read? {κ : Type} (formats : Formats) (type : Scalar) (text : Text) : Option (Value κ) :=
  match type with
  | string => some (.string text)
  | bool => (bool? text).map .bool
  | char => (char? text).map .char
  | signed width => (Text.signedOf? width text).map .integer
  | unsigned width => (Text.unsignedOf? width text).map .unsigned
  | single => (finite? .single text).map .float
  | double => (finite? .double text).map .float
  | date => (formats.date? text).map .date
  | dateTime => (formats.dateTime? text).map .dateTime

end Scalar

namespace ValueType

variable {κ : Type}

def read? (formats : Formats) (type : ValueType κ) (text : Text) : Option (Value κ) :=
  match type with
  | scalar type => type.read? formats text
  | enumeration type => (type.member? (Text.upper text)).map .member
  | custom type =>
    (type.constructors.findSome? fun constructor => constructor.build? text).map .custom

def read (formats : Formats) (type : ValueType κ) (text : Text) : Except Fault (Value κ) :=
  match type.read? formats text with
  | some value => .ok value
  | none => .error (.unreadable text type.name)

-- The type that settings call by a name.
def ofName (name : Text) : Except Fault (ValueType κ) :=
  match Scalar.ofName? name with
  | some type => .ok (scalar type)
  | none => .error (.unreadable name "value type".toList)

end ValueType

-- The number that the size of a collection is compared with.
def readSize {κ : Type} (text : Text) : Except Fault (Value κ) :=
  match Text.unsignedOf? .w64 text with
  | some size => .ok (.unsigned size)
  | none => .error (.unreadable text "collection size".toList)

end RecordFilter
