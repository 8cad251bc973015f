import RecordFilter.Proofs.Decomposition
import RecordFilter.Proofs.Duality
import RecordFilter.Proofs.Nesting
import RecordFilter.Proofs.Numerals

namespace RecordFilter

namespace Text

-- A count is written in decimal digits, with any zeros and possibly a plus in front of them.
def IsCount (text : Text) (size : Nat) : Prop :=
  ∃ digits, (text = digits ∨ text = '+' :: digits) ∧ digits ≠ [] ∧
    (∀ c ∈ digits, isDigit c = true) ∧ digitsValue digits = size ∧ size < Width.w64.values

theorem unsignedOf?_eq_some_iff {text : Text} {size : Nat} :
    unsignedOf? .w64 text = some size ↔ IsCount text size := by
  rw [unsignedOf?, Option.filter_eq_some_iff, unsigned?_eq_some_iff]
  simp only [natural?_eq_some_iff, Width.holdsUnsigned, decide_eq_true_eq, IsCount]
  constructor
  · rintro ⟨⟨digits, ht, hne, hdigits, hvalue⟩, hsize⟩
    exact ⟨digits, ht, hne, hdigits, hvalue, hsize⟩
  · rintro ⟨digits, ht, hne, hdigits, hvalue, hsize⟩
    exact ⟨⟨digits, ht, hne, hdigits, hvalue⟩, hsize⟩

end Text

variable {κ : Type}

namespace Condition

mutual

-- The largest number of groups on the way from the root to a leaf.
def height : Condition κ → Nat
  | leaf _ => 0
  | group _ children => heightAll children + 1

def heightAll : List (Condition κ) → Nat
  | [] => 0
  | child :: rest => max child.height (heightAll rest)

end

theorem heightAll_le_iff {children : List (Condition κ)} {limit : Nat} :
    heightAll children ≤ limit ↔ ∀ child ∈ children, child.height ≤ limit := by
  induction children with
  | nil => simp [heightAll]
  | cons child rest ih => rw [heightAll, Nat.max_le, ih, List.forall_mem_cons]

theorem height_le_of_within {condition : Condition κ} {levels : Nat}
    (h : condition.Within levels) : condition.height ≤ levels := by
  induction levels generalizing condition with
  | zero =>
    cases condition with
    | leaf comparison => exact Nat.le_refl 0
    | group connective children =>
      have hroot := h 0 (by simp [groupLevels])
      cases hroot
  | succ levels ih =>
    cases condition with
    | leaf comparison => exact Nat.zero_le _
    | group connective children =>
      refine Nat.succ_le_succ (heightAll_le_iff.mpr fun child hc => ih ?_)
      exact forall_groupLevels_group.mp h child hc

end Condition

namespace Language

variable {language : Language κ}

-- All that holds of a comparison as it was read. The name is what was written and the property
-- what it stands for, so only the property has been resolved.
structure WellFormed (language : Language κ) (comparison : Comparison κ) : Prop where
  named : ∃ path, Path.ofDotted comparison.name comparison.sizeCheck = .ok path
  renamed : comparison.property =
    (language.aliases.find? comparison.name).getD comparison.name
  resolved : ∃ path, Path.ofDotted comparison.property comparison.sizeCheck = .ok path ∧
    language.shape.resolve path = .ok comparison.typeInfo
  literal_ne_nil : comparison.literal ≠ []
  balanced : Expression.Balanced comparison.literal
  undivided : ¬Expression.HasOuterConnective comparison.literal
  counted : comparison.sizeCheck = true →
    comparison.typeInfo.collection = true ∧
      (∃ size, Text.IsCount comparison.literal size ∧ comparison.value = .unsigned size) ∧
      comparison.wildcard = none
  typed : comparison.sizeCheck = false →
    ∃ type, comparison.typeInfo.valueType? = some type ∧
      type.read? language.formats comparison.literal = some comparison.value ∧
      (comparison.wildcard ≠ none ↔
        type = .scalar .string ∧
          (comparison.comparator = .equals ∨ comparison.comparator = .notEquals) ∧
          '*' ∈ comparison.literal)
  pattern : ∀ wildcard, comparison.wildcard = some wildcard →
    Wildcard.ofLiteral language.builds comparison.literal language.wildcardCaseSensitive =
      .ok wildcard

theorem dotted_of_unalias {written path : Path} (h : language.unalias written = .ok path) :
    path.dotted = (language.aliases.find? written.dotted).getD written.dotted := by
  rw [unalias] at h
  split at h
  · next hn =>
    cases h
    rw [hn]
    rfl
  · next target ht =>
    split at h
    · next hp =>
      cases h
      rw [ht]
      exact (Path.dotted_of_ofDotted hp).1
    · cases h

section Pattern

variable {type : ValueType κ} {comparator : Comparator} {literal : Text}
  {wildcard : Option Wildcard} (h : language.wildcardFor type comparator literal = .ok wildcard)
include h

theorem ne_none_iff_of_wildcardFor :
    wildcard ≠ none ↔
      type = .scalar .string ∧ (comparator = .equals ∨ comparator = .notEquals) ∧
        '*' ∈ literal := by
  have hequality : ¬comparator.isOrdering = true ↔
      comparator = .equals ∨ comparator = .notEquals := by
    cases comparator <;> simp [Comparator.isOrdering]
  have hstar : Wildcard.isPattern literal = true ↔ '*' ∈ literal := List.contains_iff_mem
  rw [← ValueType.isString_iff, ← hequality, ← hstar]
  rw [wildcardFor] at h
  split at h
  · next hpattern =>
    obtain ⟨built, -, h⟩ := Outcome.bind_eq_ok_iff.mp h
    cases h
    exact iff_of_true (Option.some_ne_none built) hpattern
  · next hpattern =>
    cases h
    exact iff_of_false (fun hn => hn rfl) hpattern

theorem ofLiteral_of_wildcardFor {built : Wildcard} (hw : wildcard = some built) :
    Wildcard.ofLiteral language.builds literal language.wildcardCaseSensitive = .ok built := by
  rw [wildcardFor] at h
  split at h
  · obtain ⟨found, hfound, h⟩ := Outcome.bind_eq_ok_iff.mp h
    cases h
    cases hw
    exact hfound
  · cases h
    cases hw

end Pattern

theorem wellFormed_of_leaf {text : Text} {condition : Condition κ}
    (h : language.parse text = .ok condition) {comparison : Comparison κ}
    (hc : comparison ∈ condition.leaves) : language.WellFormed comparison := by
  have hliteral := Expression.member_iff_balanced.mp (member_literal_of_parse h hc)
  obtain ⟨member, -, hread⟩ := leaf_of_parse h hc
  obtain ⟨written, token, comparator, literal, -, -, hne, hread⟩ := comparison?_eq_ok hread
  obtain ⟨path, info, value, wildcard, halias, hinfo, htarget, rfl⟩ := compare?_eq_some hread
  exact
    { named := ⟨_, Path.ofDotted_dotted written path.sizeCheck⟩
      renamed := dotted_of_unalias halias
      resolved := ⟨path, Path.ofDotted_dotted path path.sizeCheck, hinfo⟩
      literal_ne_nil := hne
      balanced := hliteral.1
      undivided := hliteral.2
      counted := fun hs => by
        rcases target_eq_some htarget with ⟨-, hcollection, hw, size, hsize, hv⟩ | ⟨hn, -⟩
        · exact ⟨hcollection, ⟨size, Text.unsignedOf?_eq_some_iff.mp hsize, hv⟩, hw⟩
        · exact absurd (hs.symm.trans hn) (by simp)
      typed := fun hn => by
        rcases target_eq_some htarget with ⟨hs, -⟩ | ⟨-, type, htype, hv, hw⟩
        · exact absurd (hs.symm.trans hn) (by simp)
        · exact ⟨type, htype, hv, ne_none_iff_of_wildcardFor hw⟩
      pattern := fun found hf => by
        rcases target_eq_some htarget with ⟨-, -, rfl, -⟩ | ⟨-, type, -, -, hw⟩
        · cases hf
        · exact ofLiteral_of_wildcardFor hw hf }

-- What is read is well formed throughout. Each of 65 levels, the text and those in up to 64 pairs of
-- brackets, adds two groups to a path at most.
theorem wellFormed_of_parse {text : Text} {condition : Condition κ}
    (h : language.parse text = .ok condition) :
    (∀ comparison ∈ condition.leaves, language.WellFormed comparison) ∧
      condition.IsProper ∧ condition.height ≤ 130 := by
  obtain ⟨hproper, hwithin⟩ := proper_of_expression? (expression?_of_parse h)
  exact ⟨fun comparison hc => wellFormed_of_leaf h hc, hproper,
    Condition.height_le_of_within hwithin⟩

-- One comparison is written with an alias, and the other one with a pattern.
theorem wellFormed_of_parse_tagged :
    let aliases : Table Text :=
      { entries := [("labels".toList, "tags".toList)], nodup := by decide }
    let language : Language Empty := .forSchemas Regex.isSmall Condition.tagged { aliases := aliases }
    let many : Comparison Empty := { Condition.twice with name := "labels".toList }
    let condition : Condition Empty := .group .or [.leaf many, .leaf Condition.untagged]
    language.parse "count(labels)==2,tags!=a*".toList = .ok condition ∧
      language.WellFormed many ∧ language.WellFormed Condition.untagged ∧
      condition.IsProper ∧ condition.height ≤ 130 := by
  intro aliases language many condition
  have hp : language.parse "count(labels)==2,tags!=a*".toList = .ok condition := rfl
  have hl : condition.leaves = [many, Condition.untagged] := rfl
  obtain ⟨hleaves, hproper, hheight⟩ := wellFormed_of_parse hp
  rw [hl, List.forall_mem_cons, List.forall_mem_singleton] at hleaves
  exact ⟨hp, hleaves.1, hleaves.2, hproper, hheight⟩

end Language

end RecordFilter
