import RecordFilter.Fault
import RecordFilter.Table
import RecordFilter.Value

namespace RecordFilter

mutual

-- A live record answers names of properties with fields. Names that it does not know
-- have no answer. A flat record takes a whole dotted path as one name.
inductive Record (κ : Type) where
  | mk (isFlat : Bool) (field? : Text → Option (Field κ))

inductive Field (κ : Type) where
  | null
  | value (value : Value κ)
  | values (values : List (Value κ))
  | record (record : Record κ)
  | records (records : List (Record κ))

end

namespace Field

variable {κ : Type}

def isNull : Field κ → Bool
  | null => true
  | _ => false

end Field

namespace Record

variable {κ : Type}

def isFlat : Record κ → Bool
  | mk isFlat _ => isFlat

def field? : Record κ → Text → Option (Field κ)
  | mk _ field? => field?

def field (path : Text) (record : Record κ) (name : Text) : Except Fault (Field κ) :=
  match record.field? name with
  | some field => .ok field
  | none => .error (.unresolvable path)

-- The records below a field on the way to the end of a path. Nothing is below an
-- absent field.
def descend (path segment : Text) (record : Record κ) : Except Fault (List (Record κ)) := do
  match ← record.field path segment with
  | .null => .ok []
  | .record nested => .ok [nested]
  | .records nested => .ok nested
  | .value _ | .values _ => .error (.mismatch path (.notNested segment))

def walk (path : Text) : List Text → List (Record κ) → Except Fault (List (Field κ))
  | [], _ => .ok []
  | [last], frontier => do
    let fields ← frontier.mapM fun record => record.field path last
    .ok (fields.filter fun field => !field.isNull)
  | segment :: rest, frontier => do
    let next ← frontier.mapM (descend path segment)
    walk path rest next.flatten

-- The fields at the end of a dotted path. Collections of records fan out, and absent
-- fields are left out.
def resolve (record : Record κ) (path : Text) : Except Fault (List (Field κ)) :=
  if record.isFlat then do
    let field ← record.field path path
    .ok (if field.isNull then [] else [field])
  else walk path (Text.split '.' path) [record]

end Record

-- A record of named texts. Its names may contain points.
abbrev Bag := Table Text

def Bag.toRecord {κ : Type} (bag : Bag) : Record κ :=
  .mk true fun name =>
    match bag.find? name with
    | some text => some (.value (.string text))
    | none => some .null

end RecordFilter
