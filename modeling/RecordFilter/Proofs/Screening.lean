import RecordFilter.Proofs.Parsing
import RecordFilter.Proofs.Precedence

namespace RecordFilter.Language

variable {κ : Type} {α β : Type}

-- The language with an engine that builds every pattern.
def unlimited (language : Language κ) : Language κ := { language with builds := fun _ => true }

-- Whether a comparison has no pattern, or one that the engine of the language builds.
def isBuilt (language : Language κ) (comparison : Comparison κ) : Bool :=
  comparison.wildcard.all fun wildcard => language.builds wildcard.regex

-- A result, unless a pattern of these comparisons cannot be built. Then the first of them is at fault.
def screened (language : Language κ) (comparisons : List (Comparison κ)) (result : α) :
    Except Fault α :=
  match comparisons.find? fun comparison => !language.isBuilt comparison with
  | none => .ok result
  | some comparison => .error (.unreadable comparison.literal "wildcard pattern".toList)

-- The comparisons of what has been read, if it asks for anything.
def asksFor (condition : Option (Condition κ)) : List (Comparison κ) :=
  condition.toList.flatMap Condition.leaves

section Screened

variable (language : Language κ)

theorem screened_bind (comparisons : List (Comparison κ)) (result : α)
    (next : α → Except Fault β) :
    (language.screened comparisons result >>= next) =
      language.screened comparisons () >>= fun _ => next result := by
  rw [screened, screened]
  split <;> rfl

theorem screened_map (comparisons : List (Comparison κ)) (result : α) (next : α → β) :
    (language.screened comparisons result >>= fun a => .ok (next a)) =
      language.screened comparisons (next result) := by
  rw [screened, screened]
  split <;> rfl

theorem screened_append (first rest : List (Comparison κ)) (result : α) :
    language.screened (first ++ rest) result =
      language.screened first () >>= fun _ => language.screened rest result := by
  rw [screened, screened, List.find?_append]
  cases first.find? fun comparison => !language.isBuilt comparison with
  | none => rfl
  | some comparison => rfl

theorem screened_singleton (comparison : Comparison κ) (result : α) :
    language.screened [comparison] result =
      if language.isBuilt comparison then .ok result
      else .error (.unreadable comparison.literal "wildcard pattern".toList) := by
  rw [screened, List.find?_singleton]
  cases language.isBuilt comparison <;> rfl

theorem screened_eq_ok_iff {comparisons : List (Comparison κ)} {result found : α} :
    language.screened comparisons result = .ok found ↔
      (∀ comparison ∈ comparisons, language.isBuilt comparison = true) ∧ result = found := by
  rw [screened]
  split
  · next hnone =>
    have hall : ∀ comparison ∈ comparisons, language.isBuilt comparison = true := by
      simpa using hnone
    rw [and_iff_right hall, Except.ok.injEq]
  · next comparison hsome =>
    have hbuilt : language.isBuilt comparison = false := by simpa using List.find?_some hsome
    refine iff_of_false nofun fun h => ?_
    rw [h.1 comparison (List.mem_of_find?_eq_some hsome)] at hbuilt
    cases hbuilt

-- What is screened one by one is screened as a whole.
theorem mapM_screened {f g : α → Except Fault β} {comparisons : β → List (Comparison κ)}
    {items : List α} {results : List β}
    (hg : ∀ item ∈ items, ∀ result, f item = .ok result →
      g item = language.screened (comparisons result) result)
    (h : items.mapM f = .ok results) :
    items.mapM g = language.screened (results.flatMap comparisons) results := by
  induction items generalizing results with
  | nil =>
    cases h
    rfl
  | cons item items ih =>
    obtain ⟨hitem, hitems⟩ := List.forall_mem_cons.mp hg
    rw [List.mapM_cons] at h
    obtain ⟨result, hresult, h⟩ := Outcome.bind_eq_ok_iff.mp h
    obtain ⟨others, hothers, h⟩ := Outcome.bind_eq_ok_iff.mp h
    cases h
    rw [List.mapM_cons, hitem result hresult, ih hitems hothers, List.flatMap_cons, screened_append,
      ← language.screened_map _ others (result :: ·)]
    exact language.screened_bind _ result _

end Screened

section AsksFor

variable {conditions : List (Option (Condition κ))}

theorem flatMap_reduceOption :
    conditions.reduceOption.flatMap Condition.leaves = conditions.flatMap asksFor := by
  induction conditions with
  | nil => rfl
  | cons condition conditions ih =>
    rw [reduceOption_cons, List.flatMap_append, ih, List.flatMap_cons, asksFor]

theorem asksFor_compose (connective : Connective) :
    asksFor (Condition.compose connective conditions.reduceOption) = conditions.flatMap asksFor := by
  rw [← flatMap_reduceOption]
  cases hc : Condition.compose connective conditions.reduceOption with
  | none =>
    cases hn : conditions.reduceOption with
    | nil => rfl
    | cons first rest =>
      rw [hn] at hc
      cases rest <;> cases hc
  | some condition =>
    rw [← Condition.leaves_of_compose hc, asksFor]
    exact List.flatMap_singleton ..

end AsksFor

variable {language : Language κ} {text : Text} {condition : Option (Condition κ)}

section Comparison

variable {type : ValueType κ} {comparator : Comparator} {literal : Text}

theorem wildcardFor_of_unlimited {wildcard : Option Wildcard}
    (h : language.unlimited.wildcardFor type comparator literal = .ok wildcard) :
    language.wildcardFor type comparator literal =
      if wildcard.all fun wildcard => language.builds wildcard.regex then .ok wildcard
      else .error (.unreadable literal "wildcard pattern".toList) := by
  rw [wildcardFor, Wildcard.ofLiteral_eq] at h ⊢
  split at h
  · next hpattern =>
    rw [if_pos hpattern]
    cases h
    have hregex : (Wildcard.compiled literal language.unlimited.wildcardCaseSensitive).regex =
        Wildcard.expression literal language.wildcardCaseSensitive := rfl
    rw [Option.all_some, hregex]
    cases language.builds (Wildcard.expression literal language.wildcardCaseSensitive) <;> rfl
  · next hpattern =>
    rw [if_neg hpattern]
    cases h
    rfl

theorem target_of_unlimited {path : Path} {info : TypeInfo κ}
    {target : Option (Value κ × Option Wildcard)}
    (h : language.unlimited.target path info comparator literal = .ok target) :
    language.target path info comparator literal =
      if (target.bind Prod.snd).all fun wildcard => language.builds wildcard.regex then .ok target
      else .error (.unreadable literal "wildcard pattern".toList) := by
  rw [Language.target] at h ⊢
  split at h
  · next hs =>
    rw [if_pos hs]
    split at h
    · next hc =>
      obtain ⟨size, hsize, h⟩ := Outcome.bind_eq_ok_iff.mp h
      cases h
      rw [if_pos hc, hsize]
      rfl
    · next hc =>
      cases h
      rw [if_neg hc]
      rfl
  · next hs =>
    rw [if_neg hs]
    split at h
    · cases h
    · obtain ⟨value, hv, h⟩ := Outcome.bind_eq_ok_iff.mp h
      obtain ⟨wildcard, hw, h⟩ := Outcome.bind_eq_ok_iff.mp h
      cases h
      have hformats : language.unlimited.formats = language.formats := rfl
      rw [hformats] at hv
      rw [hv, Outcome.ok_bind, wildcardFor_of_unlimited hw, Option.bind_some]
      split <;> rfl

theorem compare?_of_unlimited {written : Path} {comparison : Option (Comparison κ)}
    (h : language.unlimited.compare? written comparator literal = .ok comparison) :
    language.compare? written comparator literal =
      language.screened comparison.toList comparison := by
  obtain ⟨path, hp, h⟩ := Outcome.bind_eq_ok_iff.mp h
  obtain ⟨info, hi, h⟩ := Outcome.bind_eq_ok_iff.mp h
  obtain ⟨target, ht, h⟩ := Outcome.bind_eq_ok_iff.mp h
  have hpath : language.unalias written = .ok path := hp
  have hinfo : language.shape.resolve path = .ok info := hi
  rw [compare?, hpath, Outcome.ok_bind, hinfo, Outcome.ok_bind, target_of_unlimited ht]
  cases h
  cases target with
  | none => rfl
  | some target =>
    rw [Option.map_some, Option.toList_some, screened_singleton, Option.bind_some]
    split
    · next hbuilt => exact (if_pos hbuilt).symm
    · next hbuilt => exact (if_neg hbuilt).symm

theorem comparison?_of_unlimited {comparison : Option (Comparison κ)}
    (h : language.unlimited.comparison? text = .ok comparison) :
    language.comparison? text = language.screened comparison.toList comparison := by
  have hlegacy : language.unlimited.singleEquals = language.singleEquals := rfl
  rw [comparison?, hlegacy] at h
  rw [comparison?]
  split at h
  · cases h
  · split at h
    · cases h
    · next hne =>
      obtain ⟨written, hw, h⟩ := Outcome.bind_eq_ok_iff.mp h
      rw [if_neg hne, hw]
      exact compare?_of_unlimited h

end Comparison

theorem readTwoLevels_screened {read other : Text → Except Fault (Option (Condition κ))}
    (hother : ∀ member condition, read member = .ok condition →
      other member = language.screened (asksFor condition) condition)
    (h : readTwoLevels read text = .ok condition) :
    readTwoLevels other text = language.screened (asksFor condition) condition := by
  have hconjunction : ∀ members condition, readConjunction read members = .ok condition →
      readConjunction other members = language.screened (asksFor condition) condition := by
    intro members condition h
    obtain ⟨conditions, hc, h⟩ := Outcome.bind_eq_ok_iff.mp h
    cases h
    rw [readConjunction, language.mapM_screened (fun member _ => hother member) hc, screened_map,
      asksFor_compose]
  obtain ⟨alternatives, ha, h⟩ := Outcome.bind_eq_ok_iff.mp h
  cases h
  rw [readTwoLevels, language.mapM_screened (fun alternative _ => hconjunction _) ha, screened_map,
    asksFor_compose]

theorem readPlainly_of_unlimited {levels : Nat}
    (h : language.unlimited.readPlainly levels text = .ok condition) :
    language.readPlainly levels text = language.screened (asksFor condition) condition := by
  induction levels generalizing text condition with
  | zero => cases h
  | succ levels ih =>
    obtain ⟨expression, hs, h⟩ := Outcome.bind_eq_ok_iff.mp h
    rw [readPlainly, hs, Outcome.ok_bind]
    refine readTwoLevels_screened (fun member found hf => ?_) h
    rw [readMember] at hf ⊢
    split at hf
    · next hw =>
      rw [if_pos hw]
      exact ih hf
    · next hw =>
      split at hf
      · cases hf
      · next hb =>
        obtain ⟨comparison, hc, hf⟩ := Outcome.bind_eq_ok_iff.mp hf
        cases hf
        rw [if_neg hw, if_neg hb, comparison?_of_unlimited hc, screened_map]
        cases comparison <;> rfl

-- A language with a limited engine reads what an unlimited one does, unless a pattern is too much for
-- its engine. The first such pattern from the left is at fault then.
theorem parse_of_unlimited {condition : Condition κ}
    (h : language.unlimited.parse text = .ok condition) :
    language.parse text = language.screened condition.leaves condition := by
  have hread := readPlainly_of_unlimited
    ((language.unlimited.expression?_zero_eq_readPlainly _ text).symm.trans (expression?_of_parse h))
  rw [parse, expression?_zero_eq_readPlainly, hread, asksFor, Option.toList_some,
    List.flatMap_singleton, screened_bind, ← language.screened_map _ () fun _ => condition]

end RecordFilter.Language
