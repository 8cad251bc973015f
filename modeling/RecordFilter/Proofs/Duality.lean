import RecordFilter.Proofs.Parsing
import RecordFilter.Proofs.Typing

namespace RecordFilter

variable {κ : Type}

def Comparator.opposite : Comparator → Comparator
  | equals => notEquals
  | notEquals => equals
  | comparator => comparator

def Connective.dual : Connective → Connective
  | and => or
  | or => and

def Comparison.opposite (comparison : Comparison κ) : Comparison κ :=
  { comparison with comparator := comparison.comparator.opposite }

namespace Condition

mutual

-- The condition with its connectives exchanged, and with equality and inequality exchanged.
def dual : Condition κ → Condition κ
  | leaf comparison => leaf comparison.opposite
  | group connective children => group connective.dual (dualAll children)

def dualAll : List (Condition κ) → List (Condition κ)
  | [] => []
  | child :: rest => child.dual :: dualAll rest

end

end Condition

namespace Comparison

variable {comparison : Comparison κ}

theorem comparator_cases (hk : comparison.comparator.isOrdering = false) :
    (comparison.comparator = .equals ∧ comparison.opposite.comparator = .notEquals) ∨
      (comparison.comparator = .notEquals ∧ comparison.opposite.comparator = .equals) := by
  cases hc : comparison.comparator with
  | equals => exact .inl ⟨rfl, by rw [opposite, hc]; rfl⟩
  | notEquals => exact .inr ⟨rfl, by rw [opposite, hc]; rfl⟩
  | _ => simp [hc, Comparator.isOrdering] at hk

-- The size of a collection is compared with a number.
def HasSize (comparison : Comparison κ) : Prop :=
  comparison.sizeCheck = true → ∃ size, comparison.value = .unsigned size

theorem hasSize_of_compare? {language : Language κ} {written : Path} {comparator : Comparator}
    {literal : Text}
    (h : language.compare? written comparator literal = .ok (some comparison)) :
    comparison.HasSize := by
  obtain ⟨path, info, value, wildcard, -, -, htarget, rfl⟩ := Language.compare?_eq_some h
  intro hs
  rcases Language.target_eq_some htarget with ⟨-, -, -, size, -, hv⟩ | ⟨hn, -⟩
  · exact ⟨size, hv⟩
  · exact absurd (hs.symm.trans hn) (by simp)

theorem hasSize_of_parse {language : Language κ} {text : Text} {condition : Condition κ}
    (h : language.parse text = .ok condition) (hc : comparison ∈ condition.leaves) :
    comparison.HasSize := by
  obtain ⟨member, -, hread⟩ := Language.leaf_of_parse h hc
  obtain ⟨written, _, comparator, literal, -, -, -, hcompare⟩ := Language.comparison?_eq_ok hread
  exact hasSize_of_compare? hcompare

variable [CustomValue κ]

-- Two values are equal or not before any fault could name the comparator.
theorem matchesElement_opposite (comparison : Comparison κ) :
    comparison.opposite.matchesElement .equals = comparison.matchesElement .equals := by
  funext live
  have htyped : comparison.opposite.compareTyped .equals = comparison.compareTyped .equals := rfl
  rw [matchesElement, matchesElement, htyped]
  rfl

theorem holdsForAny_opposite (hk : comparison.comparator.isOrdering = false)
    (elements : List (Value κ)) :
    comparison.opposite.holdsForAny elements = not <$> comparison.holdsForAny elements := by
  have hm := matchesElement_opposite comparison
  rcases comparator_cases hk with ⟨hc, ho⟩ | ⟨hc, ho⟩
  · rw [holdsForAny, holdsForAny, hc, ho, if_pos rfl, if_neg (by decide), hm]
    cases elements.anyM (comparison.matchesElement .equals) <;> rfl
  · rw [holdsForAny, holdsForAny, hc, ho, if_neg (by decide), if_pos rfl, hm]
    cases elements.anyM (comparison.matchesElement .equals) with
    | error fault => rfl
    | ok found => exact congrArg Except.ok (Bool.not_not found).symm

theorem valuesHold_opposite (hk : comparison.comparator.isOrdering = false)
    {fields : List (Field κ)} (hne : fields ≠ []) :
    comparison.opposite.valuesHold fields = not <$> comparison.valuesHold fields := by
  have he : comparison.opposite.elements = comparison.elements := rfl
  rw [valuesHold, valuesHold, map_bind, he]
  simp only [List.isEmpty_iff, hne, if_false, holdsForAny_opposite hk]

theorem sizeOrdering_opposite {size : Nat} (hv : comparison.value = .unsigned size) :
    comparison.opposite.sizeOrdering = comparison.sizeOrdering := by
  funext field
  have ho : comparison.opposite.value = .unsigned size := hv
  simp only [sizeOrdering, hv, ho]
  rfl

theorem sizesHold_opposite (hk : comparison.comparator.isOrdering = false) {size : Nat}
    (hv : comparison.value = .unsigned size) {fields : List (Field κ)} (hne : fields ≠ []) :
    comparison.opposite.sizesHold fields = not <$> comparison.sizesHold fields := by
  rw [sizesHold, sizesHold, map_bind, sizeOrdering_opposite hv]
  cases ho : fields.mapM comparison.sizeOrdering with
  | error fault => rfl
  | ok orderings =>
    have hn : orderings.isEmpty = false := by
      simpa using Outcome.ne_nil_of_mapM ho hne
    have hany : orderings.any Comparator.equals.accepts = orderings.contains .eq := by
      rw [List.contains_eq_any_beq]
      congr
      funext ordering
      cases ordering <;> rfl
    rw [Outcome.ok_bind, Outcome.ok_bind, hn]
    rcases comparator_cases hk with ⟨hc, ho⟩ | ⟨hc, ho⟩
    · rw [hc, ho, if_pos rfl, if_neg (by decide), hany]
      rfl
    · rw [hc, ho, if_neg (by decide), if_pos rfl, hany]
      exact congrArg Except.ok (Bool.not_not _).symm

-- A comparison that reaches any field is the negation of the opposite one, whatever is in
-- the field, also if nothing is.
theorem holds_opposite (hk : comparison.comparator.isOrdering = false) (hs : comparison.HasSize)
    {record : Record κ} (hr : record.resolve comparison.property ≠ .ok []) :
    comparison.opposite.holds record = not <$> comparison.holds record := by
  have hp : comparison.opposite.property = comparison.property := rfl
  have hc : comparison.opposite.sizeCheck = comparison.sizeCheck := rfl
  rw [holds, holds, map_bind, hp, hc]
  cases hf : record.resolve comparison.property with
  | error fault => rfl
  | ok fields =>
    have hne : fields ≠ [] := fun h => hr (by rw [hf, h])
    rw [Outcome.ok_bind, Outcome.ok_bind]
    split
    · next hcount =>
      obtain ⟨size, hv⟩ := hs hcount
      exact sizesHold_opposite hk hv hne
    · exact valuesHold_opposite hk hne

end Comparison

namespace Condition

variable [CustomValue κ]

-- A conjunction stops at the first child that is not met. The dual disjunction stops at the
-- same place, since the dual of that child is met.
theorem all_any_dual {record : Record κ} {children : List (Condition κ)}
    (h : ∀ child ∈ children, child.dual.isMet record = not <$> child.isMet record) :
    isAnyMet record (dualAll children) = not <$> areAllMet record children ∧
      areAllMet record (dualAll children) = not <$> isAnyMet record children := by
  induction children with
  | nil => exact ⟨rfl, rfl⟩
  | cons child rest ih =>
    obtain ⟨hany, hall⟩ := ih fun sibling hs => h sibling (List.mem_cons_of_mem child hs)
    simp only [dualAll, isAnyMet, areAllMet, h child List.mem_cons_self]
    cases child.isMet record with
    | error fault => exact ⟨rfl, rfl⟩
    | ok met =>
      cases met with
      | true => exact ⟨hany, rfl⟩
      | false => exact ⟨rfl, hall⟩

-- Negation goes through conditions on equality, wherever they come from and however they are
-- put together, as long as every comparison reaches a field. Faults are the same on both sides,
-- and are met at the same place.
theorem isMet_dual {record : Record κ} {condition : Condition κ}
    (hread : ∀ comparison ∈ condition.leaves, ∃ (language : Language κ) (text : Text)
      (parsed : Condition κ), language.parse text = .ok parsed ∧ comparison ∈ parsed.leaves)
    (hequality : ∀ comparison ∈ condition.leaves, comparison.comparator.isOrdering = false)
    (hreached : ∀ comparison ∈ condition.leaves, record.resolve comparison.property ≠ .ok []) :
    condition.dual.isMet record = not <$> condition.isMet record := by
  induction condition with
  | leaf comparison =>
    have hc := mem_leaves_leaf.mpr (Eq.refl comparison)
    obtain ⟨language, text, parsed, hp, hm⟩ := hread comparison hc
    exact Comparison.holds_opposite (hequality comparison hc) (Comparison.hasSize_of_parse hp hm)
      (hreached comparison hc)
  | group connective children ih =>
    have hchild : ∀ child ∈ children, child.dual.isMet record = not <$> child.isMet record :=
      fun child hm => ih child hm (forall_leaves_group.mp hread child hm)
        (forall_leaves_group.mp hequality child hm) (forall_leaves_group.mp hreached child hm)
    cases connective with
    | and => exact (all_any_dual hchild).1
    | or => exact (all_any_dual hchild).2

-- Things with any number of tags.
def tagged : SchemaFamily Empty where
  size := 1
  schema _ :=
    { name := "thing".toList
      properties := .ofList [("tags".toList, ⟨.value (.scalar .string), true⟩)] }
  root := ⟨0, Nat.zero_lt_one⟩

-- What `tags!=a*` asks for.
def untagged : Comparison Empty where
  property := "tags".toList
  name := "tags".toList
  comparator := .notEquals
  value := .string "a*".toList
  typeInfo := ⟨.value (.scalar .string), true⟩
  literal := "a*".toList
  sizeCheck := false
  wildcard := some (.compiled "a*".toList true)
  formats := {}

-- What `count(tags)==2` asks for.
def twice : Comparison Empty where
  property := "tags".toList
  name := "tags".toList
  comparator := .equals
  value := .unsigned 2
  typeInfo := ⟨.value (.scalar .string), true⟩
  literal := ['2']
  sizeCheck := true
  wildcard := none
  formats := {}

-- The record has no tags, so it has no tag that begins with `a`.
theorem isMet_dual_untagged :
    let condition : Condition Empty := .group .or [.leaf twice, .leaf untagged]
    let record : Record Empty := .mk false fun _ => some (.values [])
    condition.isMet record = .ok true ∧ condition.dual.isMet record = .ok false := by
  intro condition record
  have hp : (Language.forSchemas Regex.isSmall tagged {}).parse "count(tags)==2,tags!=a*".toList =
      .ok condition := rfl
  have hmet : condition.isMet record = .ok true := rfl
  have hl : condition.leaves = [twice, untagged] := rfl
  have hequality : ∀ comparison ∈ condition.leaves, comparison.comparator.isOrdering = false := by
    rw [hl]
    decide
  have hreached : ∀ comparison ∈ condition.leaves, record.resolve comparison.property ≠ .ok [] := by
    rw [hl, List.forall_mem_cons, List.forall_mem_singleton]
    exact ⟨nofun, nofun⟩
  have hdual := isMet_dual (fun comparison hc => ⟨_, _, _, hp, hc⟩) hequality hreached
  rw [hmet] at hdual
  exact ⟨hmet, hdual⟩

end Condition

end RecordFilter
