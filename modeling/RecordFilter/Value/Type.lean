import RecordFilter.Value

namespace RecordFilter

-- The types that need no declaration.
inductive Scalar where
  | string
  | bool
  | char
  | signed (width : Width)
  | unsigned (width : Width)
  | single
  | double
  | date
  | dateTime
  deriving DecidableEq

namespace Scalar

def name : Scalar → Text
  | string => "string".toList
  | bool => "bool".toList
  | char => "char".toList
  | signed width => 'i' :: Text.ofNat width.bits
  | unsigned width => 'u' :: Text.ofNat width.bits
  | single => "f32".toList
  | double => "f64".toList
  | date => "date".toList
  | dateTime => "datetime".toList

def isNumeric : Scalar → Bool
  | signed _ | unsigned _ | single | double => true
  | _ => false

-- The names by which settings call the types, in lower case.
def aliases : List (Text × Scalar) :=
  [("string".toList, string), ("str".toList, string), ("bool".toList, bool),
    ("boolean".toList, bool), ("char".toList, char), ("character".toList, char),
    ("i8".toList, signed .w8), ("byte".toList, signed .w8), ("i16".toList, signed .w16),
    ("short".toList, signed .w16), ("i32".toList, signed .w32), ("int".toList, signed .w32),
    ("integer".toList, signed .w32), ("i64".toList, signed .w64), ("long".toList, signed .w64),
    ("u8".toList, unsigned .w8), ("u16".toList, unsigned .w16), ("u32".toList, unsigned .w32),
    ("u64".toList, unsigned .w64), ("f32".toList, single), ("float".toList, single),
    ("f64".toList, double), ("double".toList, double), ("date".toList, date),
    ("datetime".toList, dateTime), ("timestamp".toList, dateTime)]

def ofName? (name : Text) : Option Scalar := aliases.lookup (Text.lower name)

end Scalar

-- A closed set of names. Literals are put into upper case before they are looked up.
structure Enumeration where
  name : Text
  members : List Text
  deriving DecidableEq

namespace Enumeration

def memberAt? (enumeration : Enumeration) (ordinal : Nat) : Option Member :=
  enumeration.members[ordinal]?.map fun name => ⟨enumeration.name, name, ordinal⟩

-- The member of exactly this name. Of members with one name it is the first.
def member? (enumeration : Enumeration) (name : Text) : Option Member :=
  (enumeration.members.idxOf? name).bind enumeration.memberAt?

end Enumeration

-- Custom values are built from text in one of two manners, which only callers tell apart.
inductive ConstructorKind where
  | reader
  | factory
  deriving DecidableEq

structure Constructor (κ : Type) where
  kind : ConstructorKind
  build? : Text → Option κ

-- A type that callers bring along. Its name is its identity, and its constructors are
-- tried in order.
structure CustomType (κ : Type) where
  name : Text
  constructors : List (Constructor κ)

-- The declared type of a property.
inductive ValueType (κ : Type) where
  | scalar (type : Scalar)
  | enumeration (type : Enumeration)
  | custom (type : CustomType κ)

namespace ValueType

variable {κ : Type}

def name : ValueType κ → Text
  | scalar type => type.name
  | enumeration type => type.name
  | custom type => type.name

def isNumeric : ValueType κ → Bool
  | scalar type => type.isNumeric
  | _ => false

def isString : ValueType κ → Bool
  | scalar .string => true
  | _ => false

-- Enumerations are the same by name and members, custom types by name alone.
def same : ValueType κ → ValueType κ → Bool
  | scalar a, scalar b => a = b
  | enumeration a, enumeration b => a = b
  | custom a, custom b => a.name = b.name
  | _, _ => false

end ValueType

end RecordFilter
