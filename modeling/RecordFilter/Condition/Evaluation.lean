import RecordFilter.Condition
import RecordFilter.Record

namespace RecordFilter

variable {κ : Type} [CustomValue κ]

namespace Comparison

-- A live text takes the declared type, unless that is text as well.
def typed (comparison : Comparison κ) (live : Value κ) : Except Fault (Value κ) :=
  match live, comparison.typeInfo.valueType? with
  | .string text, some type =>
    if type.isString then .ok live
    else match type.read? comparison.formats text with
      | some value => .ok value
      | none => .error (.mismatch comparison.property (.unreadable text type.name))
  | _, _ => .ok live

-- Compares a value of the right type, without regard to patterns. Faults name the
-- comparator of the comparison, also where equality is asked in place of inequality.
def compareTyped (comparison : Comparison κ) (comparator : Comparator) (live : Value κ) :
    Except Fault Bool :=
  let target := comparison.value
  if ¬ live.comparable target then
    .error (.mismatch comparison.property (.incomparable live.typeName target.typeName))
  else if ¬ comparator.isOrdering then .ok (live.equals target)
  else
    let unordered := Fault.unordered comparison.comparator live.typeName
    if ¬ live.isOrdered then .error unordered
    else match live.order? target with
      | some ordering => .ok (comparator.accepts ordering)
      | none => .error unordered

def matchesElement (comparison : Comparison κ) (comparator : Comparator) (live : Value κ) :
    Except Fault Bool := do
  let live ← comparison.typed live
  match comparison.wildcard, live with
  | some wildcard, .string text => .ok (wildcard.isMatch text)
  | _, _ => comparison.compareTyped comparator live

def elements (comparison : Comparison κ) : Field κ → Except Fault (List (Value κ))
  | .null => .ok []
  | .value value => .ok [value]
  | .values values => .ok values
  | .record _ | .records _ => .error (.mismatch comparison.property .recordAsValue)

-- Holds if any element satisfies the comparison. Inequality is the exception: it holds
-- if no element is equal. Both stop at the first element that decides.
def holdsForAny (comparison : Comparison κ) (elements : List (Value κ)) : Except Fault Bool :=
  if comparison.comparator = .notEquals then do
    let found ← elements.anyM (comparison.matchesElement .equals)
    .ok (!found)
  else elements.anyM (comparison.matchesElement comparison.comparator)

def valuesHold (comparison : Comparison κ) (fields : List (Field κ)) : Except Fault Bool := do
  let elements ← fields.mapM comparison.elements
  if fields.isEmpty then .ok false else comparison.holdsForAny elements.flatten

def sizeOrdering (comparison : Comparison κ) (field : Field κ) : Except Fault Ordering := do
  let size ← match field with
    | .values values => .ok values.length
    | .records records => .ok records.length
    | _ => .error (.mismatch comparison.property .sizeOfSingleValue)
  match (Value.unsigned size : Value κ).order? comparison.value with
  | some ordering => .ok ordering
  | none => .error (.unordered comparison.comparator "collection size".toList)

-- Sizes are like elements: any of them may satisfy the comparison, but an inequality
-- needs all of them to differ.
def sizesHold (comparison : Comparison κ) (fields : List (Field κ)) : Except Fault Bool := do
  let orderings ← fields.mapM comparison.sizeOrdering
  if orderings.isEmpty then .ok false
  else if comparison.comparator = .notEquals then .ok (!orderings.contains .eq)
  else .ok (orderings.any comparison.comparator.accepts)

-- A comparison that reaches no field at all is false, whatever its comparator.
def holds (comparison : Comparison κ) (record : Record κ) : Except Fault Bool := do
  let fields ← record.resolve comparison.property
  if comparison.sizeCheck then comparison.sizesHold fields else comparison.valuesHold fields

end Comparison

namespace Condition

mutual

-- Whether a record meets a condition. Children are asked from left to right until one
-- decides, so a fault behind that one goes unnoticed.
def isMet (record : Record κ) : Condition κ → Except Fault Bool
  | leaf comparison => comparison.holds record
  | group .and children => areAllMet record children
  | group .or children => isAnyMet record children

def areAllMet (record : Record κ) : List (Condition κ) → Except Fault Bool
  | [] => .ok true
  | child :: rest => do
    if ← isMet record child then areAllMet record rest else .ok false

def isAnyMet (record : Record κ) : List (Condition κ) → Except Fault Bool
  | [] => .ok false
  | child :: rest => do
    if ← isMet record child then .ok true else isAnyMet record rest

end

def findAll {α : Type} (condition : Condition κ) (toRecord : α → Record κ) (records : List α) :
    Except Fault (List α) :=
  records.filterM fun record => condition.isMet (toRecord record)

end Condition

end RecordFilter
