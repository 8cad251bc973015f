import RecordFilter.Condition.Evaluation
import RecordFilter.Proofs.Answers

namespace RecordFilter

-- What `name==literal` asks for where properties are texts.
def Comparison.isText (name literal : Text) : Comparison Empty where
  property := name
  name := name
  comparator := .equals
  value := .string literal
  typeInfo := .scalar (.scalar .string)
  literal := literal
  sizeCheck := false
  wildcard := none
  formats := {}

namespace Condition

variable {κ : Type}

@[elab_as_elim, induction_eliminator]
theorem induction {motive : Condition κ → Prop}
    (leaf : ∀ comparison, motive (.leaf comparison))
    (group : ∀ connective children, (∀ child ∈ children, motive child) →
      motive (.group connective children)) :
    ∀ condition, motive condition
  | .leaf comparison => leaf comparison
  | .group connective children =>
    group connective children fun child _ => induction leaf group child

mutual

-- The comparisons of a condition from left to right.
def leaves : Condition κ → List (Comparison κ)
  | leaf comparison => [comparison]
  | group _ children => leavesAll children

def leavesAll : List (Condition κ) → List (Comparison κ)
  | [] => []
  | child :: rest => child.leaves ++ leavesAll rest

end

theorem leavesAll_eq_flatMap (children : List (Condition κ)) :
    leavesAll children = children.flatMap leaves := by
  induction children with
  | nil => rfl
  | cons child rest ih => simp [leavesAll, ih]

@[simp] theorem mem_leaves_leaf {comparison other : Comparison κ} :
    other ∈ (leaf comparison).leaves ↔ other = comparison := by
  simp [leaves]

@[simp] theorem mem_leaves_group {connective : Connective} {children : List (Condition κ)}
    {comparison : Comparison κ} :
    comparison ∈ (group connective children).leaves ↔
      ∃ child ∈ children, comparison ∈ child.leaves := by
  simp [leaves, leavesAll_eq_flatMap]

theorem forall_leaves_group {connective : Connective} {children : List (Condition κ)}
    {good : Comparison κ → Prop} :
    (∀ comparison ∈ (group connective children).leaves, good comparison) ↔
      ∀ child ∈ children, ∀ comparison ∈ child.leaves, good comparison := by
  constructor
  · exact fun h child hc comparison hl => h comparison (mem_leaves_group.mpr ⟨child, hc, hl⟩)
  · intro h comparison hl
    obtain ⟨child, hc, hl⟩ := mem_leaves_group.mp hl
    exact h child hc comparison hl

-- Composing children adds no comparison and loses none.
theorem leaves_of_compose {connective : Connective} {children : List (Condition κ)}
    {condition : Condition κ} (hc : compose connective children = some condition) :
    condition.leaves = children.flatMap leaves := by
  match children, hc with
  | [child], hc =>
    cases hc
    rw [List.flatMap_singleton]
  | first :: second :: rest, hc =>
    cases hc
    rw [leaves, leavesAll_eq_flatMap]

theorem mem_leaves_of_compose {connective : Connective} {children : List (Condition κ)}
    {condition : Condition κ} (hc : compose connective children = some condition)
    {comparison : Comparison κ} :
    comparison ∈ condition.leaves ↔ ∃ child ∈ children, comparison ∈ child.leaves := by
  rw [leaves_of_compose hc, List.mem_flatMap]

-- A group, for which a single child stands by itself.
def gathered (connective : Connective) : List (Condition κ) → Condition κ
  | [child] => child
  | children => group connective children

theorem gathered_cases (connective : Connective) (children : List (Condition κ)) :
    (∃ child, children = [child] ∧ gathered connective children = child) ∨
      (children.length ≠ 1 ∧ gathered connective children = group connective children) := by
  match children with
  | [] => exact .inr ⟨nofun, rfl⟩
  | [child] => exact .inl ⟨child, rfl, rfl⟩
  | first :: second :: rest => exact .inr ⟨by simp, rfl⟩

theorem compose_eq_gathered (connective : Connective) {children : List (Condition κ)}
    (hne : children ≠ []) : compose connective children = some (gathered connective children) := by
  match children, hne with
  | [child], _ => rfl
  | first :: second :: rest, _ => rfl

theorem leaves_gathered (connective : Connective) (children : List (Condition κ)) :
    (gathered connective children).leaves = children.flatMap leaves := by
  rcases gathered_cases connective children with ⟨child, rfl, he⟩ | ⟨_, he⟩
  · rw [he, List.flatMap_singleton]
  · rw [he, leaves, leavesAll_eq_flatMap]

section Evaluation

variable [CustomValue κ]

theorem isMet_group (connective : Connective) (children : List (Condition κ))
    (record : Record κ) :
    (group connective children).isMet record =
      connective.settle (children.map fun child => child.isMet record) := by
  cases connective with
  | and =>
    rw [isMet]
    induction children with
    | nil => rfl
    | cons child rest ih =>
      rw [areAllMet, ih, List.map_cons, Connective.settle]
      cases child.isMet record with
      | error fault => rfl
      | ok met => cases met <;> rfl
  | or =>
    rw [isMet]
    induction children with
    | nil => rfl
    | cons child rest ih =>
      rw [isAnyMet, ih, List.map_cons, Connective.settle]
      cases child.isMet record with
      | error fault => rfl
      | ok met => cases met <;> rfl

-- Conditions look at a record through their comparisons only.
theorem isMet_congr {record other : Record κ} {condition : Condition κ}
    (h : ∀ comparison ∈ condition.leaves, comparison.holds record = comparison.holds other) :
    condition.isMet record = condition.isMet other := by
  induction condition with
  | leaf comparison => simpa [isMet] using h
  | group connective children ih =>
    have hchild : ∀ child ∈ children, child.isMet record = child.isMet other :=
      fun child hm => ih child hm (forall_leaves_group.mp h child hm)
    rw [isMet_group, isMet_group, List.map_congr_left hchild]

-- A condition fails only as one of its comparisons does.
theorem faultsIn_isMet {allowed : Fault → Prop} {record : Record κ} {condition : Condition κ}
    (h : ∀ comparison ∈ condition.leaves, Outcome.FaultsIn allowed (comparison.holds record)) :
    Outcome.FaultsIn allowed (condition.isMet record) := by
  induction condition with
  | leaf comparison => simpa [isMet] using h
  | group connective children ih =>
    have hchild : ∀ child ∈ children, Outcome.FaultsIn allowed (child.isMet record) :=
      fun child hm => ih child hm (forall_leaves_group.mp h child hm)
    rw [isMet_group]
    exact Connective.faultsIn_settle (List.forall_mem_map.mpr hchild)

end Evaluation

end Condition

end RecordFilter
