import RecordFilter.Condition
import RecordFilter.Expression
import RecordFilter.Settings
import RecordFilter.Term

namespace RecordFilter

-- Which expressions can be built for patterns is up to the engine that matches them.
structure Language (κ : Type) where
  builds : Regex → Bool
  shape : Shape κ
  singleEquals : Bool
  aliases : Table Text
  formats : Formats
  wildcardCaseSensitive : Bool

namespace Language

variable {κ : Type}

def ofSettings (builds : Regex → Bool) (shape : Shape κ) (settings : Settings κ) : Language κ where
  builds := builds
  shape := shape
  singleEquals := settings.singleEquals
  aliases := settings.aliases
  formats := settings.formats
  wildcardCaseSensitive := settings.wildcardCaseSensitive

def forSchemas (builds : Regex → Bool) (family : SchemaFamily κ) (settings : Settings κ) :
    Language κ :=
  ofSettings builds (.schemas family) settings

def forBags (builds : Regex → Bool) (settings : Settings κ) : Language κ :=
  ofSettings builds (.hints settings.typeHints) settings

def nestingLimit : Nat := 64

-- An alias is replaced once, and its target is not looked up again.
def unalias (language : Language κ) (written : Path) : Except Fault Path :=
  match language.aliases.find? written.dotted with
  | none => .ok written
  | some target =>
    match Path.ofDotted target written.sizeCheck with
    | .ok path => .ok path
    | .error _ => .error (.invalidAlias written.dotted target)

-- Only equality with a string can be a pattern.
def wildcardFor (language : Language κ) (type : ValueType κ) (comparator : Comparator)
    (literal : Text) : Except Fault (Option Wildcard) :=
  if type.isString ∧ ¬ comparator.isOrdering ∧ Wildcard.isPattern literal then do
    let wildcard ← Wildcard.ofLiteral language.builds literal language.wildcardCaseSensitive
    .ok (some wildcard)
  else .ok none

-- A size check on something that is no collection asks for nothing.
def target (language : Language κ) (path : Path) (info : TypeInfo κ) (comparator : Comparator)
    (literal : Text) : Except Fault (Option (Value κ × Option Wildcard)) :=
  if path.sizeCheck then
    if info.collection then do
      let size ← readSize literal
      .ok (some (size, none))
    else .ok none
  else match info.valueType? with
    | none => .error (.notAValue path.dotted)
    | some type => do
      let value ← type.read language.formats literal
      let wildcard ← language.wildcardFor type comparator literal
      .ok (some (value, wildcard))

def compare? (language : Language κ) (written : Path) (comparator : Comparator)
    (literal : Text) : Except Fault (Option (Comparison κ)) := do
  let path ← language.unalias written
  let info ← language.shape.resolve path
  let target ← language.target path info comparator literal
  .ok (target.map fun (value, wildcard) =>
    { property := path.dotted
      name := written.dotted
      comparator := comparator
      value := value
      typeInfo := info
      literal := literal
      sizeCheck := path.sizeCheck
      wildcard := wildcard
      formats := language.formats })

def comparison? (language : Language κ) (text : Text) : Except Fault (Option (Comparison κ)) :=
  match Term.ofText? language.singleEquals text with
  | none => .error (.notAComparison text)
  | some term =>
    if term.value.isEmpty then .error (.notAComparison text)
    else do
      let written ← Path.ofText term.name
      language.compare? written term.comparator term.value

-- A part that is all in brackets is read from the position behind the opening one.
def part? (language : Language κ)
    (nested : Text → Nat → Except Fault (Option (Condition κ))) (part : Part) :
    Except Fault (Option (Condition κ)) :=
  match Expression.unwrapped? part.text with
  | some inner => nested inner (part.start + 1)
  | none =>
    if part.text.head? = some '(' then .error (.notAComparison part.text)
    else do
      let comparison ← language.comparison? part.text
      .ok (comparison.map .leaf)

-- Conditions are gathered up to a part that no conjunction follows, which closes their
-- group. Parts that ask for nothing are left out.
def groups? (read : Part → Except Fault (Option (Condition κ))) :
    List (Condition κ) → List Part → Except Fault (List (Condition κ))
  | _, [] => .ok []
  | gathered, part :: rest => do
    let condition ← read part
    let gathered := gathered ++ condition.toList
    if part.connective = some .and then groups? read gathered rest
    else do
      let groups ← groups? read [] rest
      .ok ((Condition.compose .and gathered).toList ++ groups)

-- Reads an expression with so many levels of brackets left. Conjunctions bind tighter
-- than disjunctions.
def expression? (language : Language κ) :
    Nat → Text → Nat → Except Fault (Option (Condition κ))
  | 0, _, _ => .error (.nestingTooDeep nestingLimit)
  | levels + 1, text, start => do
    let parts ← Expression.split text start
    let groups ← groups? (language.part? (language.expression? levels)) [] parts
    .ok (Condition.compose .or groups)

def parse (language : Language κ) (text : Text) : Except Fault (Condition κ) := do
  match ← language.expression? (nestingLimit + 1) text 0 with
  | some condition => .ok condition
  | none => .error (.noConditions text)

def parse? (language : Language κ) (text : Text) : Option (Condition κ) :=
  (language.parse text).toOption

end Language

end RecordFilter
