import Mathlib.Data.List.Basic
import RecordFilter.Proofs.Tree

namespace RecordFilter.Condition

variable {κ : Type}

-- What a condition is replaced by among the children of a group: by its own children, if
-- the connective is the same.
def spliced (connective : Connective) : Condition κ → List (Condition κ)
  | leaf comparison => [leaf comparison]
  | group inner children => if inner = connective then children else [group inner children]

mutual

-- The condition without groups inside groups of the same connective, and without groups of a
-- single child. Children are flattened first, as what is left of them may be spliced in turn.
def flat : Condition κ → Condition κ
  | leaf comparison => leaf comparison
  | group connective children =>
    gathered connective ((flatAll children).flatMap (spliced connective))

def flatAll : List (Condition κ) → List (Condition κ)
  | [] => []
  | child :: rest => child.flat :: flatAll rest

end

-- The connective of a group.
def connective? : Condition κ → Option Connective
  | leaf _ => none
  | group connective _ => some connective

-- Nothing is left to splice or to collapse.
inductive IsFlat : Condition κ → Prop where
  | leaf (comparison : Comparison κ) : IsFlat (.leaf comparison)
  | group (connective : Connective) {children : List (Condition κ)}
    (hlength : children.length ≠ 1)
    (hconnective : ∀ child ∈ children, child.connective? ≠ some connective)
    (hall : ∀ child ∈ children, IsFlat child) : IsFlat (.group connective children)

theorem flat_group (connective : Connective) (children : List (Condition κ)) :
    (group connective children).flat =
      gathered connective (children.flatMap fun child => child.flat.spliced connective) := by
  have hall : flatAll children = children.map flat := by
    induction children with
    | nil => rfl
    | cons child rest ih => rw [flatAll, ih, List.map_cons]
  rw [flat, hall, List.flatMap_map]

theorem spliced_cases (connective : Connective) (condition : Condition κ) :
    condition = group connective (condition.spliced connective) ∨
      (condition.connective? ≠ some connective ∧ condition.spliced connective = [condition]) := by
  cases condition with
  | leaf comparison => exact .inr ⟨nofun, rfl⟩
  | group inner children =>
    by_cases hc : inner = connective
    · rw [spliced, if_pos hc, hc]
      exact .inl rfl
    · rw [spliced, if_neg hc]
      exact .inr ⟨fun h => hc (Option.some.inj h), rfl⟩

section Normal

variable {connective : Connective} {children : List (Condition κ)}

-- A flat condition leaves behind only such children as the group may keep.
theorem IsFlat.of_mem_spliced {condition child : Condition κ} (h : condition.IsFlat)
    (hc : child ∈ condition.spliced connective) :
    child.IsFlat ∧ child.connective? ≠ some connective := by
  rcases condition.spliced_cases connective with he | ⟨hne, hs⟩
  · rw [he] at h
    cases h with
    | group _ _ hconnective hall => exact ⟨hall child hc, hconnective child hc⟩
  · rw [hs, List.mem_singleton] at hc
    rw [hc]
    exact ⟨h, hne⟩

theorem isFlat_gathered
    (h : ∀ child ∈ children, child.IsFlat ∧ child.connective? ≠ some connective) :
    (gathered connective children).IsFlat := by
  rcases gathered_cases connective children with ⟨child, rfl, he⟩ | ⟨hlength, he⟩
  · rw [he]
    exact (h child List.mem_cons_self).1
  · rw [he]
    exact .group connective hlength (fun child hc => (h child hc).2) fun child hc => (h child hc).1

theorem isFlat_flat (condition : Condition κ) : condition.flat.IsFlat := by
  induction condition with
  | leaf comparison => exact .leaf comparison
  | group connective children ih =>
    rw [flat_group]
    refine isFlat_gathered fun piece hp => ?_
    obtain ⟨child, hc, hs⟩ := List.mem_flatMap.mp hp
    exact (ih child hc).of_mem_spliced hs

end Normal

section Leaves

theorem leaves_spliced (connective : Connective) (condition : Condition κ) :
    (condition.spliced connective).flatMap leaves = condition.leaves := by
  rcases condition.spliced_cases connective with he | ⟨_, hs⟩
  · have hl := congrArg leaves he
    rw [leaves, leavesAll_eq_flatMap] at hl
    exact hl.symm
  · rw [hs, List.flatMap_singleton]

theorem leaves_flat (condition : Condition κ) : condition.flat.leaves = condition.leaves := by
  induction condition with
  | leaf comparison => rfl
  | group connective children ih =>
    rw [flat_group, leaves_gathered, List.flatMap_assoc, leaves, leavesAll_eq_flatMap]
    simp only [leaves_spliced]
    exact List.flatMap_congr ih

end Leaves

section Evaluation

variable [CustomValue κ]

theorem settle_spliced (connective : Connective) (condition : Condition κ) (record : Record κ) :
    connective.settle ((condition.spliced connective).map fun child => child.isMet record) =
      condition.isMet record := by
  rcases condition.spliced_cases connective with he | ⟨_, hs⟩
  · rw [← isMet_group, ← he]
  · rw [hs, List.map_singleton, Connective.settle_singleton]

theorem isMet_gathered (connective : Connective) (children : List (Condition κ))
    (record : Record κ) :
    (gathered connective children).isMet record =
      connective.settle (children.map fun child => child.isMet record) := by
  rcases gathered_cases connective children with ⟨child, rfl, he⟩ | ⟨_, he⟩
  · rw [he, List.map_singleton, Connective.settle_singleton]
  · rw [he, isMet_group]

-- Flattening leaves the comparisons in their order, and every answer and every fault as it was.
theorem isMet_flat (condition : Condition κ) :
    condition.flat.IsFlat ∧ condition.flat.leaves = condition.leaves ∧
      ∀ record, condition.flat.isMet record = condition.isMet record := by
  refine ⟨condition.isFlat_flat, condition.leaves_flat, fun record => ?_⟩
  induction condition with
  | leaf comparison => rfl
  | group connective children ih =>
    -- the children of a spliced child settle it among themselves, as it did before
    have hchild : ∀ child ∈ children,
        connective.settle ((child.flat.spliced connective).map fun piece => piece.isMet record) =
          child.isMet record := by
      intro child hc
      rw [settle_spliced, ih child hc]
    rw [flat_group, isMet_gathered, List.map_flatMap, Connective.settle_flatMap, isMet_group]
    rw [List.map_congr_left hchild]

end Evaluation

-- Collapsing the inner disjunction leaves a conjunction that is spliced in its turn.
example (a b c : Comparison κ) :
    (group .and [group .or [group .and [leaf a, leaf b]], leaf c]).flat =
      group .and [leaf a, leaf b, leaf c] := rfl

end RecordFilter.Condition
