import RecordFilter.Shape
import RecordFilter.Value.Literal
import RecordFilter.Wildcard

namespace RecordFilter

-- One comparison of a property with a literal. The property is the resolved dotted
-- path, and the name is the dotted path as written, before any alias. The formats are
-- kept for live texts that take the declared type only when they are compared.
structure Comparison (κ : Type) where
  property : Text
  name : Text
  comparator : Comparator
  value : Value κ
  typeInfo : TypeInfo κ
  literal : Text
  sizeCheck : Bool
  wildcard : Option Wildcard
  formats : Formats

-- What a filter asks of a record.
inductive Condition (κ : Type) where
  | leaf (comparison : Comparison κ)
  | group (connective : Connective) (children : List (Condition κ))

namespace Comparison

variable {κ : Type} [CustomValue κ]

-- Equality of comparisons takes the equality of values, so one with a literal that is
-- not a number differs from itself.
def same (a b : Comparison κ) : Bool :=
  a.property = b.property && a.name = b.name && a.comparator = b.comparator &&
    a.value.equals b.value && a.typeInfo.same b.typeInfo && a.literal = b.literal &&
    a.sizeCheck = b.sizeCheck && a.wildcard = b.wildcard && a.formats = b.formats

end Comparison

namespace Condition

variable {κ : Type}

-- A group of conditions. A single one stands for itself, and none make no group.
def compose (connective : Connective) : List (Condition κ) → Option (Condition κ)
  | [] => none
  | [child] => some child
  | children => some (group connective children)

mutual

def leafCount : Condition κ → Nat
  | leaf _ => 1
  | group _ children => leafCountAll children

def leafCountAll : List (Condition κ) → Nat
  | [] => 0
  | child :: rest => child.leafCount + leafCountAll rest

end

mutual

def same [CustomValue κ] : Condition κ → Condition κ → Bool
  | leaf a, leaf b => a.same b
  | group a children, group b others => a = b && sameAll children others
  | _, _ => false

def sameAll [CustomValue κ] : List (Condition κ) → List (Condition κ) → Bool
  | [], [] => true
  | child :: children, other :: others => child.same other && sameAll children others
  | _, _ => false

end

end Condition

end RecordFilter
