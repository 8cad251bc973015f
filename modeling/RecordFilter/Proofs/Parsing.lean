import RecordFilter.Proofs.Patterns
import RecordFilter.Proofs.Splitting
import RecordFilter.Proofs.Terms
import RecordFilter.Proofs.Tree

namespace RecordFilter.Language

variable {κ : Type} {language : Language κ}

-- In its canonical spelling a comparison is read the same whether or not the single equals
-- sign is one, too.
theorem comparison?_written (language : Language κ) (singleEquals : Bool) (written : Path)
    (comparator : Comparator) {literal : Text} (hl : literal ≠ []) :
    { language with singleEquals := singleEquals }.comparison?
        (written.text ++ comparator.token ++ literal) =
      language.compare? written comparator literal := by
  simp only [comparison?, Term.ofText?_written, List.isEmpty_iff, hl, if_false, Path.ofText_text]
  rfl

theorem comparison?_eq_ok {text : Text} {result : Option (Comparison κ)}
    (h : language.comparison? text = .ok result) :
    ∃ written token comparator literal, text = written.text ++ token ++ literal ∧
      (token, comparator) ∈ Comparator.tokens language.singleEquals ∧ literal ≠ [] ∧
      language.compare? written comparator literal = .ok result := by
  rw [comparison?] at h
  split at h
  · cases h
  · next term ht =>
    split at h
    · cases h
    · next hv =>
      obtain ⟨written, hw, hc⟩ := Outcome.bind_eq_ok_iff.mp h
      refine ⟨written, term.token, term.comparator, term.value, ?_, Term.mem_of_cut? ht, ?_, hc⟩
      · rw [Path.text_of_ofText hw]
        exact (Term.text_of_cut? ht).symm
      · simpa using hv

theorem compare?_eq_some {written : Path} {comparator : Comparator} {literal : Text}
    {comparison : Comparison κ}
    (h : language.compare? written comparator literal = .ok (some comparison)) :
    ∃ path info value wildcard, language.unalias written = .ok path ∧
      language.shape.resolve path = .ok info ∧
      language.target path info comparator literal = .ok (some (value, wildcard)) ∧
      comparison =
        { property := path.dotted, name := written.dotted, comparator, value, typeInfo := info,
          literal, sizeCheck := path.sizeCheck, wildcard, formats := language.formats } := by
  obtain ⟨path, hp, h⟩ := Outcome.bind_eq_ok_iff.mp h
  obtain ⟨info, hi, h⟩ := Outcome.bind_eq_ok_iff.mp h
  obtain ⟨target, ht, h⟩ := Outcome.bind_eq_ok_iff.mp h
  cases target with
  | none => cases h
  | some target =>
    cases h
    exact ⟨path, info, target.1, target.2, hp, hi, ht, rfl⟩

theorem sizeCheck_of_unalias {written path : Path} (h : language.unalias written = .ok path) :
    path.sizeCheck = written.sizeCheck := by
  rw [unalias] at h
  split at h
  · cases h
    rfl
  · split at h
    · next hp =>
      cases h
      exact (Path.dotted_of_ofDotted hp).2
    · cases h

-- The target of a size check is a number, and that of any other comparison has the type of
-- the property.
theorem target_eq_some {path : Path} {info : TypeInfo κ} {comparator : Comparator}
    {literal : Text} {value : Value κ} {wildcard : Option Wildcard}
    (h : language.target path info comparator literal = .ok (some (value, wildcard))) :
    (path.sizeCheck = true ∧ info.collection = true ∧ wildcard = none ∧
        ∃ size, Text.unsignedOf? .w64 literal = some size ∧ value = .unsigned size) ∨
      (path.sizeCheck = false ∧ ∃ type, info.valueType? = some type ∧
        type.read? language.formats literal = some value ∧
        language.wildcardFor type comparator literal = .ok wildcard) := by
  rw [target] at h
  split at h
  · next hs =>
    left
    split at h
    · next hc =>
      obtain ⟨size, hr, h⟩ := Outcome.bind_eq_ok_iff.mp h
      cases h
      rw [readSize] at hr
      split at hr
      · next hu =>
        cases hr
        exact ⟨hs, hc, rfl, _, hu, rfl⟩
      · cases hr
    · cases h
  · next hs =>
    right
    split at h
    · cases h
    · next type ht =>
      obtain ⟨read, hr, h⟩ := Outcome.bind_eq_ok_iff.mp h
      obtain ⟨built, hw, h⟩ := Outcome.bind_eq_ok_iff.mp h
      cases h
      rw [ValueType.read] at hr
      split at hr
      · next hv =>
        cases hr
        exact ⟨by simpa using hs, type, ht, hv, hw⟩
      · cases hr

theorem part?_eq_ok {nested : Text → Nat → Except Fault (Option (Condition κ))} {part : Part}
    {result : Option (Condition κ)} (h : language.part? nested part = .ok result) :
    (∃ inner, Expression.unwrapped? part.text = some inner ∧
        nested inner (part.start + 1) = .ok result) ∨
      ∃ comparison, language.comparison? part.text = .ok comparison ∧
        result = comparison.map .leaf := by
  rw [part?] at h
  split at h
  · next inner hi => exact .inl ⟨inner, hi, h⟩
  · split at h
    · cases h
    · obtain ⟨comparison, hc, h⟩ := Outcome.bind_eq_ok_iff.mp h
      cases h
      exact .inr ⟨comparison, hc, rfl⟩

section Groups

variable {read : Part → Except Fault (Option (Condition κ))} {expression : List Part}
  {gathered groups : List (Condition κ)}

-- Groups are composed of what was read and of what had been gathered before.
theorem forall_of_groups? {inner outer : Condition κ → Prop}
    (hcompose : ∀ members condition, (∀ member ∈ members, inner member) →
      Condition.compose .and members = some condition → outer condition)
    (hread : ∀ part ∈ expression, ∀ condition, read part = .ok (some condition) →
      inner condition)
    (hgathered : ∀ condition ∈ gathered, inner condition)
    (h : groups? read gathered expression = .ok groups) :
    ∀ condition ∈ groups, outer condition := by
  induction expression generalizing gathered groups with
  | nil =>
    cases h
    simp
  | cons part rest ih =>
    obtain ⟨condition, hc, h⟩ := Outcome.bind_eq_ok_iff.mp h
    have hall : ∀ member ∈ gathered ++ condition.toList, inner member := by
      intro member hm
      rcases List.mem_append.mp hm with hm | hm
      · exact hgathered member hm
      · rw [Option.mem_toList.mp hm] at hc
        exact hread part List.mem_cons_self member hc
    have hrest := fun other ho => hread other (List.mem_cons_of_mem part ho)
    split at h
    · exact ih hrest hall h
    · obtain ⟨others, ho, h⟩ := Outcome.bind_eq_ok_iff.mp h
      cases h
      intro member hm
      rcases List.mem_append.mp hm with hm | hm
      · exact hcompose _ member hall (Option.mem_toList.mp hm)
      · exact ih hrest (by simp) ho member hm

theorem groups?_mono {other : Part → Except Fault (Option (Condition κ))}
    (hread : ∀ part ∈ expression, ∀ result, read part = .ok result → other part = .ok result)
    (h : groups? read gathered expression = .ok groups) :
    groups? other gathered expression = .ok groups := by
  induction expression generalizing gathered groups with
  | nil => exact h
  | cons part rest ih =>
    obtain ⟨condition, hc, h⟩ := Outcome.bind_eq_ok_iff.mp h
    have hrest := fun later hl => hread later (List.mem_cons_of_mem part hl)
    refine Outcome.bind_eq_ok_iff.mpr ⟨condition, hread part List.mem_cons_self _ hc, ?_⟩
    split at h
    · next hp =>
      rw [if_pos hp]
      exact ih hrest h
    · next hp =>
      rw [if_neg hp]
      obtain ⟨others, ho, h⟩ := Outcome.bind_eq_ok_iff.mp h
      exact Outcome.bind_eq_ok_iff.mpr ⟨others, ih hrest ho, h⟩

theorem faultsIn_groups? {allowed : Fault → Prop}
    (hread : ∀ part ∈ expression, Outcome.FaultsIn allowed (read part)) :
    Outcome.FaultsIn allowed (groups? read gathered expression) := by
  induction expression generalizing gathered with
  | nil => exact Outcome.faultsIn_ok _
  | cons part rest ih =>
    have hrest := fun other ho => hread other (List.mem_cons_of_mem part ho)
    refine Outcome.faultsIn_bind (hread part List.mem_cons_self) fun condition _ => ?_
    split
    · exact ih hrest
    · exact Outcome.faultsIn_bind (ih hrest) fun groups _ => Outcome.faultsIn_ok _

end Groups

-- Every comparison of the condition was read from a member of an expression.
def ReadsLeaves (language : Language κ) (condition : Condition κ) : Prop :=
  ∀ comparison ∈ condition.leaves, ∃ member, Expression.Member member ∧
    language.comparison? member = .ok (some comparison)

theorem readsLeaves_of_compose {connective : Connective} {children : List (Condition κ)}
    {condition : Condition κ} (h : ∀ child ∈ children, language.ReadsLeaves child)
    (hc : Condition.compose connective children = some condition) :
    language.ReadsLeaves condition := by
  intro comparison hl
  obtain ⟨child, hm, hin⟩ := (Condition.mem_leaves_of_compose hc).mp hl
  exact h child hm comparison hin

theorem readsLeaves_of_expression? {levels : Nat} {text : Text} {start : Nat}
    {condition : Condition κ}
    (h : language.expression? levels text start = .ok (some condition)) :
    language.ReadsLeaves condition := by
  induction levels generalizing text start condition with
  | zero => cases h
  | succ levels ih =>
    obtain ⟨expression, hs, hrest⟩ := Outcome.bind_eq_ok_iff.mp h
    obtain ⟨groups, hg, hcompose⟩ := Outcome.bind_eq_ok_iff.mp hrest
    obtain ⟨hn, rfl⟩ := Expression.split_eq_ok hs
    have hread : ∀ part ∈ Expression.parts start (Expression.cut 0 text).1 (Expression.cut 0 text).2,
        ∀ condition, language.part? (language.expression? levels) part = .ok (some condition) →
          language.ReadsLeaves condition := by
      intro part hp condition hr
      rcases part?_eq_ok hr with ⟨inner, -, hi⟩ | ⟨found, hf, he⟩
      · exact ih hi
      · obtain ⟨leaf, rfl, rfl⟩ := Option.map_eq_some_iff.mp he.symm
        intro comparison hl
        rw [Condition.mem_leaves_leaf] at hl
        exact ⟨part.text, Expression.member_of_mem_parts hn hp, hl ▸ hf⟩
    have hgroups := forall_of_groups? (fun _ _ => readsLeaves_of_compose) hread (by simp) hg
    exact readsLeaves_of_compose hgroups (Except.ok.inj hcompose)

theorem expression?_of_parse {text : Text} {condition : Condition κ}
    (h : language.parse text = .ok condition) :
    language.expression? (nestingLimit + 1) text 0 = .ok (some condition) := by
  obtain ⟨result, hr, h⟩ := Outcome.bind_eq_ok_iff.mp h
  cases result with
  | none => cases h
  | some found =>
    cases h
    exact hr

-- Every comparison of a filter was read from a member of it, on some level of brackets.
theorem leaf_of_parse {text : Text} {condition : Condition κ}
    (h : language.parse text = .ok condition) {comparison : Comparison κ}
    (hc : comparison ∈ condition.leaves) :
    ∃ member, Expression.Member member ∧ language.comparison? member = .ok (some comparison) :=
  readsLeaves_of_expression? (expression?_of_parse h) comparison hc

-- Each comparison of a filter has been resolved, and its literal read as its target.
theorem resolved_of_parse {text : Text} {condition : Condition κ}
    (h : language.parse text = .ok condition) {comparison : Comparison κ}
    (hc : comparison ∈ condition.leaves) :
    ∃ path : Path, comparison.property = path.dotted ∧ comparison.sizeCheck = path.sizeCheck ∧
      comparison.formats = language.formats ∧
      language.shape.resolve path = .ok comparison.typeInfo ∧
      language.target path comparison.typeInfo comparison.comparator comparison.literal =
        .ok (some (comparison.value, comparison.wildcard)) := by
  obtain ⟨member, _, hr⟩ := leaf_of_parse h hc
  obtain ⟨written, _, comparator, literal, _, _, _, hr⟩ := comparison?_eq_ok hr
  obtain ⟨path, info, value, wildcard, _, hi, ht, rfl⟩ := compare?_eq_some hr
  exact ⟨path, rfl, rfl, rfl, hi, ht⟩

-- What a comparison is written with lies within one member of the filter, and the path and the
-- comparator before it open no bracket. So its literal is a member as well.
theorem member_literal_of_parse {text : Text} {condition : Condition κ}
    (h : language.parse text = .ok condition) {comparison : Comparison κ}
    (hc : comparison ∈ condition.leaves) : Expression.Member comparison.literal := by
  obtain ⟨member, hmember, hread⟩ := leaf_of_parse h hc
  obtain ⟨written, token, comparator, literal, rfl, htoken, _, hcompare⟩ := comparison?_eq_ok hread
  obtain ⟨_, _, _, _, _, _, _, rfl⟩ := compare?_eq_some hcompare
  exact (Term.member_iff written htoken literal).mp hmember

section Mono

variable {other : Language κ}
  (hread : ∀ member result, language.comparison? member = .ok result →
    other.comparison? member = .ok result)
include hread

theorem expression?_mono {levels : Nat} {text : Text} {start : Nat}
    {result : Option (Condition κ)} (h : language.expression? levels text start = .ok result) :
    other.expression? levels text start = .ok result := by
  induction levels generalizing text start result with
  | zero => cases h
  | succ levels ih =>
    obtain ⟨expression, hs, h⟩ := Outcome.bind_eq_ok_iff.mp h
    obtain ⟨groups, hg, h⟩ := Outcome.bind_eq_ok_iff.mp h
    refine Outcome.bind_eq_ok_iff.mpr ⟨expression, hs, ?_⟩
    refine Outcome.bind_eq_ok_iff.mpr ⟨groups, groups?_mono (fun part _ found hf => ?_) hg, h⟩
    rw [part?] at hf ⊢
    split at hf
    · exact ih hf
    · split at hf
      · cases hf
      · next hb =>
        obtain ⟨comparison, hc, hf⟩ := Outcome.bind_eq_ok_iff.mp hf
        rw [if_neg hb]
        exact Outcome.bind_eq_ok_iff.mpr ⟨comparison, hread _ _ hc, hf⟩

-- A language that reads every comparison that another one reads, and in the same way, also
-- reads every filter that the other one does.
theorem parse_mono {text : Text} {condition : Condition κ}
    (h : language.parse text = .ok condition) : other.parse text = .ok condition :=
  Outcome.bind_eq_ok_iff.mpr ⟨_, expression?_mono hread (expression?_of_parse h), rfl⟩

end Mono

end RecordFilter.Language
