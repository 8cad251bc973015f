import Mathlib.Data.List.Forall2
import Mathlib.Data.List.Perm.Basic
import RecordFilter.Proofs.Tree
import RecordFilter.Proofs.Typing

namespace RecordFilter

variable {κ : Type}

namespace Comparison

variable [CustomValue κ] {record : Record κ} {comparison : Comparison κ}

-- A comparison is true of a record if it holds. It is not if there is a fault instead.
def isTrueOf (record : Record κ) (comparison : Comparison κ) : Bool :=
  match comparison.holds record with
  | .ok met => met
  | .error _ => false

theorem isTrueOf_of_holds {met : Bool} (h : comparison.holds record = .ok met) :
    comparison.isTrueOf record = met := by
  rw [isTrueOf, h]

end Comparison

namespace Condition

-- The same condition up to the order of the children of its groups, on every level.
inductive Reordered : Condition κ → Condition κ → Prop where
  | leaf (comparison : Comparison κ) : Reordered (.leaf comparison) (.leaf comparison)
  | group (connective : Connective) {children arranged others : List (Condition κ)}
    (hperm : children.Perm arranged) (hall : List.Forall₂ Reordered arranged others) :
    Reordered (.group connective children) (.group connective others)

mutual

-- The plain boolean reading of a condition, by the truth of its comparisons.
def reading (truth : Comparison κ → Bool) : Condition κ → Bool
  | leaf comparison => truth comparison
  | group connective children => connective.combine (readings truth children)

def readings (truth : Comparison κ → Bool) : List (Condition κ) → List Bool
  | [] => []
  | child :: rest => child.reading truth :: readings truth rest

end

theorem reading_group (truth : Comparison κ → Bool) (connective : Connective)
    (children : List (Condition κ)) :
    (group connective children).reading truth =
      connective.combine (children.map (reading truth)) := by
  have hall : readings truth children = children.map (reading truth) := by
    induction children with
    | nil => rfl
    | cons child rest ih => rw [readings, ih, List.map_cons]
  rw [reading, hall]

namespace Reordered

@[elab_as_elim, induction_eliminator]
theorem induction {motive : ∀ condition other : Condition κ, condition.Reordered other → Prop}
    (leaf : ∀ comparison, motive _ _ (.leaf comparison))
    (group : ∀ connective {children arranged others : List (Condition κ)}
      (hperm : children.Perm arranged)
      (hall : List.Forall₂ Reordered arranged others),
      List.Forall₂ (fun child other => ∃ h, motive child other h) arranged others →
        motive _ _ (.group connective hperm hall))
    {condition other : Condition κ} (h : condition.Reordered other) : motive condition other h :=
  @Reordered.rec κ motive
    (fun arranged others _ => List.Forall₂ (fun child other => ∃ h, motive child other h)
      arranged others)
    leaf (fun connective _ _ _ hperm hall ih => group connective hperm hall ih)
    .nil (fun h _ hchild hrest => .cons ⟨h, hchild⟩ hrest) condition other h

variable {condition other : Condition κ}

-- Reordering moves the comparisons about, and keeps all of them.
theorem perm_leaves (h : condition.Reordered other) : condition.leaves.Perm other.leaves := by
  induction h with
  | leaf comparison => exact .refl _
  | group connective hperm _ ih =>
    rw [leaves, leaves, leavesAll_eq_flatMap, leavesAll_eq_flatMap]
    refine (hperm.flatMap_right leaves).trans (List.Perm.flatten_congr ?_)
    rw [List.forall₂_map_left_iff, List.forall₂_map_right_iff]
    exact ih.imp fun _ _ hmember => hmember.2

theorem reading_eq (h : condition.Reordered other) (truth : Comparison κ → Bool) :
    condition.reading truth = other.reading truth := by
  induction h with
  | leaf comparison => rfl
  | @group connective children arranged others hperm _ ih =>
    have hmap : arranged.map (reading truth) = others.map (reading truth) := by
      rw [← List.forall₂_eq_eq_eq, List.forall₂_map_left_iff, List.forall₂_map_right_iff]
      exact ih.imp fun _ _ hmember => hmember.2
    rw [reading_group, reading_group, ← hmap]
    exact Connective.combine_perm (hperm.map (reading truth))

end Reordered

section Evaluation

variable [CustomValue κ] {record : Record κ} {condition other : Condition κ}

theorem isMet_eq_reading {truth : Comparison κ → Bool}
    (h : ∀ comparison ∈ condition.leaves, comparison.holds record = .ok (truth comparison)) :
    condition.isMet record = .ok (condition.reading truth) := by
  induction condition with
  | leaf comparison =>
    rw [isMet, reading]
    exact h comparison (mem_leaves_leaf.mpr rfl)
  | group connective children ih =>
    rw [isMet_group, reading_group]
    exact Connective.settle_of_known fun child hc => ih child hc (forall_leaves_group.mp h child hc)

-- An answer given in spite of faults is the plain reading all the same. The comparisons that
-- were not asked, or that fail, have no part in it.
theorem reading_of_isMet {met : Bool} (h : condition.isMet record = .ok met) :
    condition.reading (Comparison.isTrueOf record) = met := by
  induction condition generalizing met with
  | leaf comparison =>
    rw [isMet] at h
    exact Comparison.isTrueOf_of_holds h
  | group connective children ih =>
    rw [isMet_group] at h
    rw [reading_group]
    exact Connective.combine_of_settle h fun child hc found hf => ih child hc hf

-- The order of children never turns an answer into the opposite one: at most it is traded
-- for a fault. Where no comparison fails, the answer in any order is the plain reading.
theorem isMet_of_reordered (h : condition.Reordered other) :
    (∀ met otherMet, condition.isMet record = .ok met → other.isMet record = .ok otherMet →
        met = otherMet) ∧
      ((∀ comparison ∈ condition.leaves, ∃ met, comparison.holds record = .ok met) →
        condition.isMet record = .ok (condition.reading (Comparison.isTrueOf record)) ∧
          other.isMet record = .ok (condition.reading (Comparison.isTrueOf record))) := by
  have hreading := h.reading_eq (Comparison.isTrueOf record)
  constructor
  · intro met otherMet hmet hother
    rw [← reading_of_isMet hmet, ← reading_of_isMet hother]
    exact hreading
  · intro hknown
    have hholds : ∀ comparison ∈ condition.leaves,
        comparison.holds record = .ok (comparison.isTrueOf record) := by
      intro comparison hc
      obtain ⟨met, hm⟩ := hknown comparison hc
      rw [hm, Comparison.isTrueOf_of_holds hm]
    refine ⟨isMet_eq_reading hholds, ?_⟩
    rw [hreading]
    exact isMet_eq_reading fun comparison hc => hholds comparison (h.perm_leaves.mem_iff.mpr hc)

end Evaluation

-- A record that knows only these names, and has one text under each of them.
def textUnder (names : List Text) (text : Text) : Record Empty :=
  .mk false fun name => if name ∈ names then some (.value (.string text)) else none

-- On the first record both orders get by without asking for the name that it does not know.
theorem isMet_of_reordered_alternatives :
    let conjunction : Condition Empty :=
      .group .and [.leaf (.isText ['a'] ['2']), .leaf (.isText ['b'] ['1'])]
    let condition : Condition Empty := .group .or [.leaf (.isText ['a'] ['1']), conjunction]
    let other : Condition Empty := .group .or [conjunction, .leaf (.isText ['a'] ['1'])]
    condition.Reordered other ∧
      (condition.isMet (textUnder [['a']] ['1']) = .ok true ∧
        ∀ met, other.isMet (textUnder [['a']] ['1']) = .ok met → true = met) ∧
      condition.isMet (textUnder [['a'], ['b']] ['1']) = .ok true ∧
        other.isMet (textUnder [['a'], ['b']] ['1']) = .ok true := by
  intro conjunction condition other
  have hconjunction : conjunction.Reordered conjunction :=
    .group .and (.refl _) (.cons (.leaf _) (.cons (.leaf _) .nil))
  have hreordered : condition.Reordered other :=
    .group .or (.swap _ _ _) (.cons hconjunction (.cons (.leaf _) .nil))
  have hmet : condition.isMet (textUnder [['a']] ['1']) = .ok true := rfl
  have hl : condition.leaves = [.isText ['a'] ['1'], .isText ['a'] ['2'], .isText ['b'] ['1']] := rfl
  have hknown : ∀ comparison ∈ condition.leaves, ∃ met,
      comparison.holds (textUnder [['a'], ['b']] ['1']) = .ok met := by
    rw [hl, List.forall_mem_cons, List.forall_mem_cons, List.forall_mem_singleton]
    exact ⟨⟨true, rfl⟩, ⟨false, rfl⟩, ⟨true, rfl⟩⟩
  exact ⟨hreordered, ⟨hmet, fun met => (isMet_of_reordered hreordered).1 true met hmet⟩,
    (isMet_of_reordered hreordered).2 hknown⟩

end Condition

end RecordFilter
