import RecordFilter.Proofs.Parsing
import RecordFilter.Proofs.PathGrammar

namespace RecordFilter

variable {κ : Type}

def Comparison.renamed (name : Text) (comparison : Comparison κ) : Comparison κ :=
  { comparison with name }

namespace Language

variable (language : Language κ)

def withoutAliases : Language κ := { language with aliases := .empty }

section Unalias

variable {language} {written : Path} {target : Text}

theorem unalias_of_none (h : language.aliases.find? written.dotted = none) :
    language.unalias written = .ok written := by
  rw [unalias, h]

theorem unalias_of_isDotted (h : language.aliases.find? written.dotted = some target)
    (ht : IsDotted target) :
    ∃ path, language.unalias written = .ok path ∧ path.dotted = target ∧
      path.sizeCheck = written.sizeCheck := by
  obtain ⟨path, hp⟩ := (Path.isDotted_iff written.sizeCheck).mp ht
  refine ⟨path, ?_, Path.ofDotted_eq_ok_iff.mp hp⟩
  simp only [unalias, h, hp]

theorem unalias_of_not_isDotted (h : language.aliases.find? written.dotted = some target)
    (ht : ¬IsDotted target) :
    language.unalias written = .error (.invalidAlias written.dotted target) := by
  cases hp : Path.ofDotted target written.sizeCheck with
  | ok path => exact absurd ((Path.isDotted_iff written.sizeCheck).mpr ⟨path, hp⟩) ht
  | error fault => simp only [unalias, h, hp]

end Unalias

variable {written path : Path} (comparator : Comparator) (literal : Text)

-- Behind the aliases a comparison is up to the path that is meant, apart from the name that it keeps.
theorem compare?_of_unalias (h : language.unalias written = .ok path) :
    language.compare? written comparator literal =
      (language.withoutAliases.compare? path comparator literal).map
        (Option.map (Comparison.renamed written.dotted)) := by
  have hplain : language.withoutAliases.unalias path = .ok path := unalias_of_none rfl
  rw [compare?, compare?, h, hplain, Outcome.ok_bind, Outcome.ok_bind]
  have hshape : language.withoutAliases.shape = language.shape := rfl
  rw [hshape]
  cases language.shape.resolve path with
  | error fault => rfl
  | ok info =>
    have htarget : language.withoutAliases.target path info comparator literal =
      language.target path info comparator literal := rfl
    rw [Outcome.ok_bind, Outcome.ok_bind, htarget]
    cases language.target path info comparator literal with
    | error fault => rfl
    | ok target => cases target <;> rfl

theorem compare?_withoutAliases (h : language.aliases.find? written.dotted = none) :
    language.compare? written comparator literal =
      language.withoutAliases.compare? written comparator literal := by
  have hplain : language.withoutAliases.unalias written = .ok written := unalias_of_none rfl
  rw [compare?, compare?, unalias_of_none h, hplain]
  rfl

theorem comparison?_text (hl : literal ≠ []) :
    language.comparison? (path.text ++ comparator.token ++ literal) =
      language.compare? path comparator literal :=
  language.comparison?_written language.singleEquals path comparator hl

-- An alias is a name for its target, replaced once. What is written with it is read as the same text is
-- read with the target in its place where there are no aliases, faults included, and only the name of
-- the comparison tells the difference. Whether the target is an alias itself, or the alias is a
-- property as well, makes none. A target that is no path is at fault before all else.
theorem comparison?_alias {name : Text} (hn : IsDotted name) (sizeCheck : Bool)
    (hl : literal ≠ []) :
    let plain := language.withoutAliases
    let term (dotted : Text) := Path.wrapped dotted sizeCheck ++ comparator.token ++ literal
    (language.aliases.find? name = none →
      language.comparison? (term name) = plain.comparison? (term name)) ∧
    ∀ target, language.aliases.find? name = some target →
      (¬IsDotted target →
        language.comparison? (term name) = .error (.invalidAlias name target)) ∧
      (IsDotted target →
        language.comparison? (term name) =
            (plain.comparison? (term target)).map (Option.map (Comparison.renamed name)) ∧
          ∀ comparison, plain.comparison? (term target) = .ok (some comparison) →
            comparison.name = target) := by
  obtain ⟨names, hd⟩ := hn
  obtain ⟨written, -, rfl, rfl⟩ := Path.exists_of_dotted hd sizeCheck
  intro plain term
  have hread : language.comparison? (term written.dotted) =
      language.compare? written comparator literal := language.comparison?_text comparator literal hl
  refine ⟨fun hnone => ?_, fun target ht => ⟨fun hinvalid => ?_, fun hvalid => ?_⟩⟩
  · rw [hread, compare?_withoutAliases language comparator literal hnone]
    exact (plain.comparison?_text comparator literal hl).symm
  · rw [hread, compare?, unalias_of_not_isDotted ht hinvalid]
    rfl
  · obtain ⟨path, hpath, rfl, hsize⟩ := unalias_of_isDotted ht hvalid
    have hplain : plain.comparison? (term path.dotted) = plain.compare? path comparator literal := by
      have htext : path.text = Path.wrapped path.dotted written.sizeCheck := by
        rw [Path.text, hsize]
      rw [← plain.comparison?_text comparator literal hl, htext]
    rw [hread, hplain]
    refine ⟨language.compare?_of_unalias comparator literal hpath, fun comparison hc => ?_⟩
    obtain ⟨meant, _, _, _, hmeant, -, -, rfl⟩ := compare?_eq_some hc
    rfl

-- The target of the first alias is the second one, which is not replaced in turn.
theorem comparison?_alias_chained :
    let aliases : Table Text :=
      { entries := [("a".toList, "b".toList), ("b".toList, "c d".toList)], nodup := by decide }
    let language : Language Empty := .forBags Regex.isSmall { aliases := aliases }
    let plain := language.withoutAliases
    let term (dotted : Text) := Path.wrapped dotted false ++ Comparator.equals.token ++ ['1']
    let asked : Comparison Empty :=
      { property := "b".toList, name := "a".toList, comparator := .equals, value := .string ['1'],
        typeInfo := .scalar (.scalar .string), literal := ['1'], sizeCheck := false,
        wildcard := none, formats := {} }
    (IsDotted "b".toList ∧
        plain.comparison? (term "b".toList) = .ok (some (asked.renamed "b".toList)) ∧
        language.comparison? (term "a".toList) = .ok (some asked)) ∧
      (¬IsDotted "c d".toList ∧
        language.comparison? (term "b".toList) = .error (.invalidAlias "b".toList "c d".toList)) ∧
      aliases.find? "c".toList = none ∧
        language.comparison? (term "c".toList) = plain.comparison? (term "c".toList) := by
  intro aliases language plain term asked
  have ha : IsDotted "a".toList := (Path.isDotted_iff false).mpr ⟨_, rfl⟩
  have hb : IsDotted "b".toList := (Path.isDotted_iff false).mpr ⟨_, rfl⟩
  have hc : IsDotted "c".toList := (Path.isDotted_iff false).mpr ⟨_, rfl⟩
  have hcd : ¬IsDotted "c d".toList := by
    intro hd
    obtain ⟨path, hp⟩ := (Path.isDotted_iff false).mp hd
    cases hp
  have hone : (['1'] : Text) ≠ [] := by decide
  obtain ⟨-, htarget⟩ := comparison?_alias language .equals ['1'] ha false hone
  obtain ⟨-, hinvalid⟩ := comparison?_alias language .equals ['1'] hb false hone
  obtain ⟨hnone, -⟩ := comparison?_alias language .equals ['1'] hc false hone
  have hplain : plain.comparison? (term "b".toList) = .ok (some (asked.renamed "b".toList)) := rfl
  have hread := ((htarget "b".toList rfl).2 hb).1
  rw [hplain] at hread
  exact ⟨⟨hb, hplain, hread⟩, ⟨hcd, (hinvalid "c d".toList rfl).1 hcd⟩, rfl, hnone rfl⟩

end Language

end RecordFilter
