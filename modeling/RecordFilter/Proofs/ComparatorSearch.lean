import RecordFilter.Proofs.Terms

namespace RecordFilter

theorem Text.dropLead?_eq_none_iff {lead text : Text} :
    dropLead? lead text = none ↔ ¬lead <+: text := by
  rw [← Option.not_isSome_iff_eq_none, Option.isSome_iff_exists, not_iff_not]
  constructor
  · rintro ⟨rest, hr⟩
    exact ⟨rest, (dropLead?_eq_some_iff.mp hr).symm⟩
  · rintro ⟨rest, hr⟩
    exact ⟨rest, dropLead?_eq_some_iff.mpr hr.symm⟩

namespace Comparator

theorem mem_insertLonger {entry other : Text × Comparator} {entries : List (Text × Comparator)}
    (h : other ∈ insertLonger entry entries) : other = entry ∨ other ∈ entries := by
  induction entries with
  | nil => exact .inl (List.mem_singleton.mp h)
  | cons first rest ih =>
    rw [insertLonger] at h
    split at h
    · exact List.mem_cons.mp h
    · rcases List.mem_cons.mp h with rfl | h
      · exact .inr List.mem_cons_self
      · exact (ih h).imp_right (List.mem_cons_of_mem first)

theorem pairwise_longestFirst (entries : List (Text × Comparator)) :
    (longestFirst entries).Pairwise fun longer shorter => shorter.1.length ≤ longer.1.length := by
  have hinsert : ∀ (entry : Text × Comparator) (sorted : List (Text × Comparator)),
      (sorted.Pairwise fun longer shorter => shorter.1.length ≤ longer.1.length) →
        (insertLonger entry sorted).Pairwise fun longer shorter =>
          shorter.1.length ≤ longer.1.length := by
    intro entry sorted hsorted
    induction sorted with
    | nil => exact List.pairwise_singleton _ entry
    | cons first rest ih =>
      obtain ⟨hfirst, hrest⟩ := List.pairwise_cons.mp hsorted
      rw [insertLonger]
      split
      · next hle =>
        refine List.pairwise_cons.mpr ⟨fun other ho => ?_, hsorted⟩
        rcases List.mem_cons.mp ho with rfl | ho
        · exact hle
        · exact Nat.le_trans (hfirst other ho) hle
      · next hlt =>
        refine List.pairwise_cons.mpr ⟨fun other ho => ?_, ih hrest⟩
        rcases mem_insertLonger ho with rfl | ho
        · omega
        · exact hfirst other ho
  induction entries with
  | nil => exact List.Pairwise.nil
  | cons entry entries ih => exact hinsert entry _ ih

end Comparator

namespace Term

-- One of the places where a text can be cut: a name of printable characters, one at least, with a
-- spelling of a comparator behind it.
structure IsCut (tokens : List (Text × Comparator)) (text name token value : Text) : Prop where
  text_eq : text = name ++ token ++ value
  name_ne_nil : name ≠ []
  printable : ∀ c ∈ name, Text.isPrintable c = true
  spelling : ∃ comparator, (token, comparator) ∈ tokens

section Search

variable {tokens : List (Text × Comparator)} {text name token value : Text}
  {comparator : Comparator} {term : Term}

theorem leadingToken?_eq_none_iff :
    leadingToken? tokens text = none ↔ ∀ entry ∈ tokens, ¬entry.1 <+: text := by
  induction tokens with
  | nil => simp [leadingToken?]
  | cons entry tokens ih =>
    obtain ⟨first, kind⟩ := entry
    rw [leadingToken?, List.forall_mem_cons, ← Text.dropLead?_eq_none_iff]
    cases Text.dropLead? first text with
    | none => simpa using ih
    | some rest => simp

-- Spellings that stand in the order of their length are found longest first.
theorem length_le_of_leadingToken?
    (hsorted : tokens.Pairwise fun longer shorter => shorter.1.length ≤ longer.1.length)
    (h : leadingToken? tokens text = some (token, comparator, value))
    {entry : Text × Comparator} (hm : entry ∈ tokens) (hp : entry.1 <+: text) :
    entry.1.length ≤ token.length := by
  induction tokens with
  | nil => cases hm
  | cons first tokens ih =>
    obtain ⟨hfirst, hrest⟩ := List.pairwise_cons.mp hsorted
    rw [leadingToken?] at h
    cases hd : Text.dropLead? first.1 text with
    | some rest =>
      rw [hd] at h
      cases h
      rcases List.mem_cons.mp hm with rfl | hm
      · exact Nat.le_refl _
      · exact hfirst entry hm
    | none =>
      rw [hd] at h
      rcases List.mem_cons.mp hm with rfl | hm
      · exact absurd hp (Text.dropLead?_eq_none_iff.mp hd)
      · exact ih hrest h hm

theorem isCut_of_cut? (h : cut? tokens text = some term) :
    IsCut tokens text term.name term.token term.value := by
  have hname : term.name ≠ [] ∧ ∀ c ∈ term.name, Text.isPrintable c = true := by
    induction text generalizing term with
    | nil => cases h
    | cons c rest ih =>
      rw [cut?] at h
      split at h
      · next hc =>
        split at h
        · cases h
          simpa using hc
        · obtain ⟨shorter, hs, rfl⟩ := Option.map_eq_some_iff.mp h
          exact ⟨List.cons_ne_nil _ _, List.forall_mem_cons.mpr ⟨hc, (ih hs).2⟩⟩
      · cases h
  exact ⟨(text_of_cut? h).symm, hname.1, hname.2, term.comparator, mem_of_cut? h⟩

-- The search takes the characters of the name one by one, and stops at the first place where
-- any spelling fits.
theorem exists_cut?
    (hsorted : tokens.Pairwise fun longer shorter => shorter.1.length ≤ longer.1.length)
    (hc : IsCut tokens text name token value) :
    ∃ term, cut? tokens text = some term ∧ term.name.length ≤ name.length ∧
      (name = term.name → token.length ≤ term.token.length) := by
  obtain ⟨htext, hne, hprintable, kind, hm⟩ := hc
  induction text generalizing name with
  | nil =>
    have hlead : name ++ token = [] := (List.append_eq_nil_iff.mp htext.symm).1
    exact absurd (List.append_eq_nil_iff.mp hlead).1 hne
  | cons c rest ih =>
    cases name with
    | nil => exact absurd rfl hne
    | cons first name =>
      obtain ⟨rfl, hrest⟩ := List.cons.inj htext
      obtain ⟨hfirst, hname⟩ := List.forall_mem_cons.mp hprintable
      rw [cut?, if_pos hfirst]
      cases hl : leadingToken? tokens rest with
      | some found =>
        refine ⟨_, rfl, by simp, fun he => ?_⟩
        obtain rfl : name = [] := by simpa using he
        exact length_le_of_leadingToken? hsorted hl hm ⟨value, hrest.symm⟩
      | none =>
        have hlonger : name ≠ [] := by
          rintro rfl
          exact leadingToken?_eq_none_iff.mp hl _ hm ⟨value, hrest.symm⟩
        obtain ⟨term, ht, hle, htoken⟩ := ih hrest hlonger hname
        refine ⟨{ term with name := c :: term.name }, by rw [ht]; rfl, ?_, fun he => ?_⟩
        · simpa using hle
        · exact htoken (List.cons.inj he).2

end Search

theorem sorted_tokens (singleEquals : Bool) :
    (Comparator.tokens singleEquals).Pairwise fun longer shorter =>
      shorter.1.length ≤ longer.1.length := Comparator.pairwise_longestFirst _

theorem ofToken?_of_mem_tokens {singleEquals : Bool} {entry : Text × Comparator}
    (h : entry ∈ Comparator.tokens singleEquals) :
    Comparator.ofToken? singleEquals entry.1 = some entry.2 := by
  have hall : ∀ entry ∈ Comparator.tokens singleEquals,
      Comparator.ofToken? singleEquals entry.1 = some entry.2 := by
    cases singleEquals <;> decide
  exact hall entry h

-- What would turn a single equals sign into the beginning of a longer spelling.
def longerEnds : List Text :=
  ["=".toList, "gt=".toList, "ge=".toList, "lt=".toList, "le=".toList]

theorem mem_tokens_of_mem_longerEnds {ending : Text} (h : ending ∈ longerEnds) :
    ∃ comparator, ('=' :: ending, comparator) ∈ Comparator.tokens true := by
  have hall : ∀ ending ∈ longerEnds, ∃ comparator ∈ Comparator.all,
      ('=' :: ending, comparator) ∈ Comparator.tokens true := by decide
  obtain ⟨comparator, -, hm⟩ := hall ending h
  exact ⟨comparator, hm⟩

theorem eq_or_of_mem_tokens {entry : Text × Comparator} (h : entry ∈ Comparator.tokens true) :
    entry = (['='], .equals) ∨ entry.1.head? = some '!' ∨
      ∃ ending ∈ longerEnds, entry.1 = '=' :: ending := by
  have hall : ∀ entry ∈ Comparator.tokens true, entry = (['='], .equals) ∨
      entry.1.head? = some '!' ∨ ∃ ending ∈ longerEnds, entry.1 = '=' :: ending := by decide
  exact hall entry h

theorem exists_leadingToken?_singleEquals (value : Text) :
    ∃ token comparator rest, leadingToken? (Comparator.tokens true) ('=' :: value) =
      some (token, comparator, rest) := by
  cases hl : leadingToken? (Comparator.tokens true) ('=' :: value) with
  | none =>
    have hm : (['='], Comparator.equals) ∈ Comparator.tokens true := by decide
    exact absurd ⟨value, rfl⟩ (leadingToken?_eq_none_iff.mp hl _ hm)
  | some found => exact ⟨_, _, _, rfl⟩

-- The spelling that is found is the longest that fits.
theorem leadingToken?_singleEquals_iff {value : Text} :
    leadingToken? (Comparator.tokens true) ('=' :: value) = some (['='], .equals, value) ↔
      ∀ ending ∈ longerEnds, ¬ending <+: value := by
  constructor
  · rintro hl ending he ⟨rest, rfl⟩
    obtain ⟨comparator, hm⟩ := mem_tokens_of_mem_longerEnds he
    have hle := length_le_of_leadingToken? (sorted_tokens true) hl hm ⟨rest, rfl⟩
    have hpos : ∀ ending ∈ longerEnds, ending ≠ [] := by decide
    exact hpos ending he (by simpa using hle)
  · intro hno
    obtain ⟨token, comparator, rest, hl⟩ := exists_leadingToken?_singleEquals value
    have htext := leadingToken?_eq_append hl
    rcases eq_or_of_mem_tokens (mem_of_leadingToken? hl) with he | he | ⟨ending, hm, he⟩
    · cases he
      cases htext
      exact hl
    · obtain ⟨tail, rfl⟩ := List.head?_eq_some_iff.mp he
      cases htext
    · obtain rfl : token = '=' :: ending := he
      exact absurd ⟨rest, (List.cons.inj htext).2.symm⟩ (hno ending hm)

-- The search for the comparator finds one exactly if the text can be cut somewhere, and then takes
-- the shortest name and the longest spelling behind it. So what is written with a path for its name
-- is cut where it was put together, whatever the value holds. The single equals sign is the one
-- spelling that a value can make longer.
theorem ofText?_decodes :
    (∀ singleEquals text, (∃ term, ofText? singleEquals text = some term) ↔
      ∃ name token value, IsCut (Comparator.tokens singleEquals) text name token value) ∧
    (∀ singleEquals text term, ofText? singleEquals text = some term →
      IsCut (Comparator.tokens singleEquals) text term.name term.token term.value ∧
        Comparator.ofToken? singleEquals term.token = some term.comparator ∧
        ∀ name token value, IsCut (Comparator.tokens singleEquals) text name token value →
          term.name.length ≤ name.length ∧
            (name = term.name → token.length ≤ term.token.length)) ∧
    (∀ singleEquals name path comparator value, Path.ofText name = .ok path →
      ofText? singleEquals (name ++ comparator.token ++ value) =
        some ⟨name, comparator.token, comparator, value⟩) ∧
    ∀ name path value, Path.ofText name = .ok path →
      (ofText? true (name ++ ['='] ++ value) = some ⟨name, ['='], .equals, value⟩ ↔
        ∀ ending ∈ longerEnds, ¬ending <+: value) := by
  refine ⟨fun singleEquals text => ⟨?_, ?_⟩, fun singleEquals text term ht => ?_,
    fun singleEquals name path comparator value hp => ?_, fun name path value hp => ?_⟩
  · rintro ⟨term, ht⟩
    exact ⟨_, _, _, isCut_of_cut? ht⟩
  · rintro ⟨name, token, value, hc⟩
    obtain ⟨term, ht, -⟩ := exists_cut? (sorted_tokens singleEquals) hc
    exact ⟨term, ht⟩
  · refine ⟨isCut_of_cut? ht, ofToken?_of_mem_tokens (mem_of_cut? ht), fun name token value hc => ?_⟩
    obtain ⟨other, ho, hbest⟩ := exists_cut? (sorted_tokens singleEquals) hc
    obtain rfl : term = other := Option.some.inj (ht.symm.trans ho)
    exact hbest
  · rw [← Path.text_of_ofText hp]
    exact ofText?_written singleEquals path comparator value
  · rw [← Path.text_of_ofText hp, ← leadingToken?_singleEquals_iff, List.append_assoc,
      List.singleton_append]
    constructor
    · intro h
      obtain ⟨token, comparator, rest, hl⟩ := exists_leadingToken?_singleEquals value
      rw [ofText?_append path hl] at h
      cases h
      exact hl
    · exact ofText?_append path

theorem ofText?_decodes_overlapping :
    let name : Text := "count(a)".toList
    let term : Term := ⟨name, "=ge=".toList, .greaterOrEquals, "=1".toList⟩
    ofText? true "count(a)=ge==1".toList = some term ∧
      (∀ other token value,
        IsCut (Comparator.tokens true) "count(a)=ge==1".toList other token value →
          term.name.length ≤ other.length ∧
            (other = term.name → token.length ≤ term.token.length)) ∧
      (∃ path, Path.ofText name = .ok path) ∧
      ofText? false (name ++ Comparator.equals.token ++ "=b".toList) =
        some ⟨name, "==".toList, .equals, "=b".toList⟩ ∧
      ofText? true (name ++ ['='] ++ "g=t".toList) =
        some ⟨name, ['='], .equals, "g=t".toList⟩ := by
  intro name term
  obtain ⟨-, hfound, hwritten, hsingle⟩ := ofText?_decodes
  have ht : ofText? true "count(a)=ge==1".toList = some term := rfl
  obtain ⟨path, hp⟩ : ∃ path, Path.ofText name = .ok path := ⟨_, rfl⟩
  exact ⟨ht, (hfound true _ term ht).2.2, ⟨path, hp⟩, hwritten false name path _ _ hp,
    (hsingle name path _ hp).mpr (by decide)⟩

end Term

end RecordFilter
