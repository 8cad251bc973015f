import RecordFilter.Condition.Evaluation
import RecordFilter.Language

namespace RecordFilter

-- A condition with the number of the parse that made it. Two answers with one number
-- are the same object.
structure Held (κ : Type) where
  condition : Condition κ
  serial : Nat

-- Remembers the conditions that filters were read as. Once it is full it starts over
-- empty, and it has room for one filter at least.
structure Cache (κ : Type) where
  language : Language κ
  capacity : Nat
  capacity_pos : 0 < capacity
  entries : Table (Held κ) := .empty
  parses : Nat := 0

namespace Cache

variable {κ : Type}

def defaultCapacity : Nat := 1024

def withCapacity (language : Language κ) (capacity : Nat) : Cache κ :=
  { language, capacity := max capacity 1, capacity_pos := by omega }

def ofLanguage (language : Language κ) : Cache κ := withCapacity language defaultCapacity

def size (cache : Cache κ) : Nat := cache.entries.size

def isEmpty (cache : Cache κ) : Bool := cache.entries.isEmpty

def clear (cache : Cache κ) : Cache κ := { cache with entries := .empty }

-- The cache after one more parse. A full one is emptied before it takes a new entry.
def hold (cache : Cache κ) (text : Text) (condition : Condition κ) : Cache κ :=
  let kept :=
    if cache.capacity ≤ cache.size ∧ cache.entries.find? text = none then .empty else cache.entries
  { cache with
    entries := kept.insert text ⟨condition, cache.parses⟩
    parses := cache.parses + 1 }

-- The condition of a filter, parsed only if it is not held. Faults are not remembered.
def get (cache : Cache κ) (text : Text) : Except Fault (Held κ) × Cache κ :=
  match cache.entries.find? text with
  | some held => (.ok held, cache)
  | none =>
    match cache.language.parse text with
    | .ok condition => (.ok ⟨condition, cache.parses⟩, cache.hold text condition)
    | .error fault => (.error fault, cache)

-- Whether a record meets a filter. Every record meets the empty text.
def check [CustomValue κ] (cache : Cache κ) (text : Text) (record : Record κ) :
    Except Fault Bool × Cache κ :=
  if text.isEmpty then (.ok true, cache)
  else
    let (held, cache) := cache.get text
    (held.bind fun held => held.condition.isMet record, cache)

end Cache

end RecordFilter
