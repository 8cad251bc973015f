import RecordFilter.Proofs.QueryReading

namespace RecordFilter.PlainQuery

theorem isIdentifier_bound {name : Text} (hname : isIdentifier name = true) :
    isIdentifier (bound name).1 = true := by
  have hpart : ∀ property word : Text, property ≠ [] → isIdentifier (property ++ word) = true →
      isIdentifier property = true := by
    intro property word hne hall
    have hchars := (isIdentifier_iff.mp hall).2
    exact isIdentifier_iff.mpr ⟨hne, fun c hc => hchars c (List.mem_append_left word hc)⟩
  have hbounds := bounds_bound name
  generalize bound name = stands at hbounds ⊢
  cases hbounds with
  | lower hne => exact hpart _ _ hne hname
  | upper hne => exact hpart _ _ hne hname
  | whole => exact hname

variable {κ : Type} {language : Language κ} {pairs : List (Text × Text)} {condition : Condition κ}

-- Every pair that counts has one comparison, though not at the same place.
theorem perm_literals (h : conditionFor language pairs = some condition) :
    (condition.leaves.map Comparison.literal).Perm ((counted pairs).map Prod.snd) := by
  have hliterals : condition.leaves.map Comparison.literal =
      (names (counted pairs)).flatMap fun name => valuesOf name (counted pairs) := by
    rw [leaves_conditionFor h, List.map_flatMap]
    refine List.flatMap_congr fun name _ => ?_
    rw [List.map_map]
    exact List.map_id _
  rw [hliterals]
  exact perm_flatMap_valuesOf (nodup_names _) fun pair hp => mem_names.mpr ⟨pair.2, hp⟩

theorem isBuilt_leaves_iff (h : conditionFor language pairs = some condition) :
    (∀ comparison ∈ condition.leaves, language.isBuilt comparison = true) ↔
      ∀ pair ∈ counted pairs, language.isBuilt (asked language pair.1 pair.2) = true := by
  simp only [mem_leaves_conditionFor_iff h]
  constructor
  · exact fun hbuilt pair hp => hbuilt _ ⟨pair, hp, rfl⟩
  · rintro hbuilt _ ⟨pair, hp, rfl⟩
    exact hbuilt pair hp

-- A value that is the literal of some comparison is a member, wherever the text was cut.
theorem members_of_perm {text : Text} (h : language.parse text = .ok condition)
    (hperm : (condition.leaves.map Comparison.literal).Perm (pairs.map Prod.snd)) :
    ∀ pair ∈ pairs, Expression.Member pair.2 := by
  intro pair hp
  obtain ⟨comparison, hc, hliteral⟩ := List.mem_map.mp (hperm.mem_iff.mpr (List.mem_map_of_mem hp))
  rw [← hliteral]
  exact Language.member_literal_of_parse h hc

-- A query comes back as one comparison for each pair, with the value for its literal, exactly
-- if every value is a member of an expression and no pattern that cannot be built. A value with a
-- connective outside brackets or with a bracket that has no partner does not: it becomes part of the
-- expression around it, whenever that can be read at all.
theorem keeps_values_iff (builds : Regex → Bool) (settings : Settings κ) (hne : pairs ≠ [])
    (hnames : ∀ pair ∈ pairs, isIdentifier pair.1 = true) (hvalues : ∀ pair ∈ pairs, pair.2 ≠ []) :
    let language : Language κ := .forPlainBags builds settings
    ∃ text, toFilter? pairs = some text ∧
      ((∃ condition, language.parse text = .ok condition ∧
          (condition.leaves.map Comparison.literal).Perm (pairs.map Prod.snd)) ↔
        ∀ pair ∈ pairs, Expression.Member pair.2 ∧
          language.isBuilt (asked language pair.1 pair.2) = true) ∧
      ∀ condition, language.parse text = .ok condition →
        ((condition.leaves.map Comparison.literal).Perm (pairs.map Prod.snd) ↔
          ∀ pair ∈ pairs, Expression.Member pair.2) := by
  intro language
  have hcounted : counted pairs = pairs :=
    counted_eq_self fun pair hp => ⟨(isIdentifier_iff.mp (hnames pair hp)).1, hvalues pair hp⟩
  obtain ⟨condition, hcondition, htext⟩ := exists_conditionFor language (hcounted.symm ▸ hne)
  have hliterals := perm_literals hcondition
  have hread : (∀ pair ∈ pairs, Expression.Member pair.2) →
      language.parse condition.bracketed = language.screened condition.leaves condition := by
    intro hmembers
    refine parse_bracketed_conditionFor hcondition ?_
    rw [hcounted]
    intro pair hp
    exact ⟨Path.ofDotted_of_isIdentifier (isIdentifier_bound (hnames pair hp)) false,
      hmembers pair hp⟩
  have hbuilt := isBuilt_leaves_iff hcondition
  rw [hcounted] at hliterals hbuilt
  refine ⟨condition.bracketed, htext, ⟨?_, fun h => ?_⟩, fun parsed hparse => ?_⟩
  · rintro ⟨parsed, hparse, hperm⟩
    have hall := members_of_perm hparse hperm
    rw [hread hall, Language.screened_eq_ok_iff] at hparse
    exact fun pair hp => ⟨hall pair hp, hbuilt.mp hparse.1 pair hp⟩
  · refine ⟨condition, ?_, hliterals⟩
    rw [hread fun pair hp => (h pair hp).1, Language.screened_eq_ok_iff]
    exact ⟨hbuilt.mpr fun pair hp => (h pair hp).2, rfl⟩
  · refine ⟨members_of_perm hparse, fun hall => ?_⟩
    rw [hread hall, Language.screened_eq_ok_iff] at hparse
    exact hparse.2 ▸ hliterals

theorem keeps_values_iff_bracketed :
    let language : Language Empty := .forPlainBags Regex.isSmall {}
    let pairs := [("a".toList, "(1,2)".toList), ("aTill".toList, "=b".toList)]
    toFilter? pairs = some "(a==(1,2);a=le==b)".toList ∧
      ∃ condition, language.parse "(a==(1,2);a=le==b)".toList = .ok condition ∧
        (condition.leaves.map Comparison.literal).Perm (pairs.map Prod.snd) := by
  intro language pairs
  have hnames : ∀ pair ∈ pairs, isIdentifier pair.1 = true := by decide
  have hgood : ∀ pair ∈ pairs, Expression.Member pair.2 ∧
      language.isBuilt (asked language pair.1 pair.2) = true := by
    rw [List.forall_mem_cons, List.forall_mem_singleton]
    exact ⟨⟨rfl, rfl⟩, rfl, rfl⟩
  obtain ⟨text, htext, hiff, -⟩ := keeps_values_iff Regex.isSmall {} (by decide) hnames (by decide)
  cases htext
  exact ⟨rfl, hiff.mpr hgood⟩

-- The connectives of a value are read as those of the filter: the second name is no longer asked
-- for in all cases, and there is a comparison that no pair stands for.
theorem connective_in_value :
    let language : Language Empty := .forPlainBags Regex.isSmall {}
    let pairs := [("a".toList, "1,b==2".toList), ("c".toList, "3".toList)]
    let condition : Condition Empty :=
      .group .or [.leaf (asked language "a".toList "1".toList),
        .group .and [.leaf (asked language "b".toList "2".toList),
          .leaf (asked language "c".toList "3".toList)]]
    (∀ pair ∈ pairs, isIdentifier pair.1 = true ∧ pair.2 ≠ []) ∧
      toFilter? pairs = some "(a==1,b==2;c==3)".toList ∧
      language.parse "(a==1,b==2;c==3)".toList = .ok condition ∧
      condition.leaves.length ≠ pairs.length ∧
      ¬(condition.leaves.map Comparison.literal).Perm (pairs.map Prod.snd) := by
  intro language pairs condition
  have hlength : condition.leaves.length ≠ pairs.length := by decide
  refine ⟨by decide, rfl, rfl, hlength, fun hperm => hlength ?_⟩
  simpa using hperm.length_eq

end RecordFilter.PlainQuery
