import RecordFilter.Calendar.Date
import RecordFilter.Number.Decimal

namespace RecordFilter

-- Values of types that callers bring along. Such a value knows the name of its type
-- and its text, and it may be equal to, or ordered with, others of its type.
class CustomValue (κ : Type) where
  typeName : κ → Text
  text : κ → Text
  equals : κ → κ → Bool
  order? : κ → κ → Option Ordering

structure Member where
  typeName : Text
  name : Text
  ordinal : Nat
  deriving DecidableEq

inductive Value (κ : Type) where
  | string (text : Text)
  | bool (value : Bool)
  | char (value : Char)
  | integer (value : Int)
  | unsigned (value : Nat)
  | float (value : Binary64)
  | date (value : Date)
  | dateTime (value : DateTime)
  | member (value : Member)
  | custom (value : κ)

namespace Value

variable {κ : Type} [CustomValue κ]

def typeName : Value κ → Text
  | string _ => "string".toList
  | bool _ => "bool".toList
  | char _ => "char".toList
  | integer _ => "integer".toList
  | unsigned _ => "unsigned".toList
  | float _ => "float".toList
  | date _ => "date".toList
  | dateTime _ => "datetime".toList
  | member value => value.typeName
  | custom value => CustomValue.typeName value

def text : Value κ → Text
  | string text => text
  | bool value => if value then "true".toList else "false".toList
  | char value => [value]
  | integer value => Text.ofInt value
  | unsigned value => Text.ofNat value
  | float value => value.text
  | date value => value.text
  | dateTime value => value.text
  | member value => value.name
  | custom value => CustomValue.text value

def isOrdered : Value κ → Bool
  | bool _ => false
  | _ => true

-- Whether two values can be compared at all. Numbers of every kind can, members of one
-- enumeration, custom values of one type, and otherwise values of one variant.
def comparable : Value κ → Value κ → Bool
  | integer _, integer _ | integer _, unsigned _ | integer _, float _ => true
  | unsigned _, integer _ | unsigned _, unsigned _ | unsigned _, float _ => true
  | float _, integer _ | float _, unsigned _ | float _, float _ => true
  | member a, member b => a.typeName = b.typeName
  | custom a, custom b => CustomValue.typeName a = CustomValue.typeName b
  | string _, string _ | bool _, bool _ | char _, char _ => true
  | date _, date _ | dateTime _, dateTime _ => true
  | _, _ => false

-- The order of a signed integer and an unsigned one. Every negative one is the lesser.
def compareSigned (signed : Int) (unsigned : Nat) : Ordering :=
  if signed < 0 then .lt else compare signed.toNat unsigned

-- The order of two values, where there is one. Integers compare exactly. Beside a
-- floating-point number an integer is rounded to one first.
def order? : Value κ → Value κ → Option Ordering
  | integer a, integer b => some (compare a b)
  | unsigned a, unsigned b => some (compare a b)
  | integer a, unsigned b => some (compareSigned a b)
  | unsigned a, integer b => some (compareSigned b a).swap
  | float a, float b => a.order? b
  | float a, integer b => a.order? (Binary64.ofInt b)
  | float a, unsigned b => a.order? (Binary64.ofInt b)
  | integer a, float b => (Binary64.ofInt a).order? b
  | unsigned a, float b => (Binary64.ofInt a).order? b
  | string a, string b => some (compare a b)
  | char a, char b => some (compare a b)
  | date a, date b => some (compare a b)
  | dateTime a, dateTime b => some (compare a b)
  | member a, member b =>
    if a.typeName = b.typeName then some (compare a.ordinal b.ordinal) else none
  | custom a, custom b =>
    if CustomValue.typeName a = CustomValue.typeName b then CustomValue.order? a b else none
  | _, _ => none

def equals : Value κ → Value κ → Bool
  | bool a, bool b => a == b
  | custom a, custom b =>
    CustomValue.typeName a = CustomValue.typeName b && CustomValue.equals a b
  | a, b => a.order? b == some .eq

end Value

end RecordFilter
