import RecordFilter.Regex

namespace RecordFilter.Regex

-- What parts of an expression match between the text before it and the text behind it, one part after
-- the other.
inductive Matches (regex : Regex) : Text → List Item → Text → Text → Prop where
  | nil {before behind : Text} : Matches regex before [] [] behind
  | start {items : List Item} {matched behind : Text} (h : Matches regex [] items matched behind) :
    Matches regex [] (.start :: items) matched behind
  | finish {before : Text} {items : List Item} (h : Matches regex before items [] []) :
    Matches regex before (.finish :: items) [] []
  | char {before matched behind : Text} {items : List Item} {c d : Char}
    (hc : c = d ∨ regex.ignoreCase = true ∧ Text.foldCase c = Text.foldCase d)
    (h : Matches regex (before ++ [d]) items matched behind) :
    Matches regex before (.char c :: items) (d :: matched) behind
  | run {before matched behind : Text} {items : List Item} (run : Text)
    (hr : '\n' ∈ run → regex.dotAll = true)
    (h : Matches regex (before ++ run) items matched behind) :
    Matches regex before (.run :: items) (run ++ matched) behind

-- An expression matches a text if it matches any stretch of it.
def Finds (regex : Regex) (text : Text) : Prop :=
  ∃ before matched behind, text = before ++ (matched ++ behind) ∧
    regex.Matches before regex.items matched behind

-- Parts of an expression match some beginning of the text behind a position.
def MatchesAt (regex : Regex) (before : Text) (items : List Item) (text : Text) : Prop :=
  ∃ matched behind, text = matched ++ behind ∧ regex.Matches before items matched behind

variable {regex : Regex} {before text : Text} {items : List Item} {c d : Char}

theorem accepts_iff :
    regex.accepts c d = true ↔
      c = d ∨ regex.ignoreCase = true ∧ Text.foldCase c = Text.foldCase d := by
  simp [accepts]

theorem passes_iff : regex.passes c = true ↔ (c = '\n' → regex.dotAll = true) := by
  by_cases hc : c = '\n' <;> simp [passes, hc]

section Parts

theorem matchesAt_nil : regex.MatchesAt before [] text := ⟨[], text, rfl, .nil⟩

theorem matchesAt_start_iff :
    regex.MatchesAt before (.start :: items) text ↔
      before = [] ∧ regex.MatchesAt before items text := by
  constructor
  · rintro ⟨matched, behind, rfl, h⟩
    cases h with
    | start h => exact ⟨rfl, matched, behind, rfl, h⟩
  · rintro ⟨rfl, matched, behind, rfl, h⟩
    exact ⟨matched, behind, rfl, .start h⟩

theorem matchesAt_finish_iff :
    regex.MatchesAt before (.finish :: items) text ↔
      text = [] ∧ regex.MatchesAt before items text := by
  constructor
  · rintro ⟨matched, behind, rfl, h⟩
    cases h with
    | finish h => exact ⟨rfl, [], [], rfl, h⟩
  · rintro ⟨rfl, matched, behind, he, h⟩
    obtain ⟨rfl, rfl⟩ := List.append_eq_nil_iff.mp he.symm
    exact ⟨[], [], rfl, .finish h⟩

theorem not_matchesAt_char_nil : ¬regex.MatchesAt before (.char c :: items) [] := by
  rintro ⟨matched, behind, he, h⟩
  cases h
  cases he

theorem matchesAt_char_cons_iff :
    regex.MatchesAt before (.char c :: items) (d :: text) ↔
      regex.accepts c d = true ∧ regex.MatchesAt (before ++ [d]) items text := by
  rw [accepts_iff]
  constructor
  · rintro ⟨matched, behind, he, h⟩
    cases h with
    | char hc h =>
      cases he
      exact ⟨hc, _, behind, rfl, h⟩
  · rintro ⟨hc, matched, behind, rfl, h⟩
    exact ⟨d :: matched, behind, rfl, .char hc h⟩

theorem matchesAt_run_iff :
    regex.MatchesAt before (.run :: items) text ↔
      ∃ run rest, text = run ++ rest ∧ ('\n' ∈ run → regex.dotAll = true) ∧
        regex.MatchesAt (before ++ run) items rest := by
  constructor
  · rintro ⟨matched, behind, rfl, h⟩
    cases h with
    | run run hr h => exact ⟨run, _, List.append_assoc .., hr, _, behind, rfl, h⟩
  · rintro ⟨run, rest, rfl, hr, matched, behind, rfl, h⟩
    exact ⟨run ++ matched, behind, (List.append_assoc ..).symm, .run run hr h⟩

theorem matchesAt_run_nil_iff :
    regex.MatchesAt before (.run :: items) [] ↔ regex.MatchesAt before items [] := by
  rw [matchesAt_run_iff]
  constructor
  · rintro ⟨run, rest, he, -, h⟩
    obtain ⟨rfl, rfl⟩ := List.append_eq_nil_iff.mp he.symm
    rwa [List.append_nil] at h
  · intro h
    exact ⟨[], [], rfl, nofun, by rwa [List.append_nil]⟩

-- A run ends where it begins, or goes over one character and is a run from there on.
theorem matchesAt_run_cons_iff :
    regex.MatchesAt before (.run :: items) (c :: text) ↔
      regex.MatchesAt before items (c :: text) ∨
        regex.passes c = true ∧ regex.MatchesAt (before ++ [c]) (.run :: items) text := by
  rw [matchesAt_run_iff, matchesAt_run_iff, passes_iff]
  constructor
  · rintro ⟨run, rest, he, hr, h⟩
    cases run with
    | nil =>
      rw [List.append_nil] at h
      exact .inl (he ▸ h)
    | cons d run =>
      cases he
      rw [List.append_cons] at h
      exact .inr ⟨fun hc => hr (hc ▸ List.mem_cons_self), run, rest, rfl,
        fun hn => hr (List.mem_cons_of_mem _ hn), h⟩
  · rintro (h | ⟨hc, run, rest, rfl, hr, h⟩)
    · exact ⟨[], c :: text, rfl, nofun, by rwa [List.append_nil]⟩
    · refine ⟨c :: run, rest, rfl, fun hn => ?_, by rwa [List.append_cons]⟩
      exact (List.mem_cons.mp hn).elim (fun he => hc he.symm) hr

end Parts

section Positions

variable (regex)

theorem positions_nil (first : Bool) (items : List Item) :
    ∃ here, regex.positions first [] items = [here] := by
  induction items with
  | nil => exact ⟨true, rfl⟩
  | cons item items ih =>
    obtain ⟨behind, hbehind⟩ := ih
    rw [positions, hbehind]
    exact ⟨_, rfl⟩

theorem positions_cons (first : Bool) (c : Char) (text : Text) (items : List Item) :
    ∃ here, regex.positions first (c :: text) items = here :: regex.positions false text items := by
  induction items with
  | nil => exact ⟨true, rfl⟩
  | cons item items ih =>
    obtain ⟨behind, hbehind⟩ := ih
    rw [positions, hbehind]
    exact ⟨_, rfl⟩

-- The induction is on the parts as well as on the text: a run that goes over a character is the same
-- run at the next position.
theorem headD_positions_iff (items : List Item) (before text : Text) :
    (regex.positions before.isEmpty text items).headD false = true ↔
      regex.MatchesAt before items text := by
  induction items generalizing before text with
  | nil => exact iff_of_true rfl matchesAt_nil
  | cons item items ih =>
    induction text generalizing before with
    | nil =>
      obtain ⟨here, hhere⟩ := regex.positions_nil before.isEmpty items
      have h := ih before []
      rw [hhere, List.headD_cons] at h
      rw [positions, hhere]
      cases item with
      | start => simp [prepend, matchesAt_start_iff, ← h]
      | finish => simp [prepend, matchesAt_finish_iff, ← h]
      | char c => simp [prepend, not_matchesAt_char_nil]
      | run => simp [prepend, matchesAt_run_nil_iff, ← h]
    | cons d text hnext =>
      obtain ⟨here, hhere⟩ := regex.positions_cons before.isEmpty d text items
      have h := ih before (d :: text)
      have hrest := ih (before ++ [d]) text
      have hrun := hnext (before ++ [d])
      have hinner : (before ++ [d]).isEmpty = false := by simp
      rw [hhere, List.headD_cons] at h
      rw [hinner] at hrest hrun
      rw [positions, hhere]
      cases item with
      | start => simp [prepend, matchesAt_start_iff, ← h]
      | finish => simp [prepend, matchesAt_finish_iff]
      | char c => simp only [prepend, List.headD_cons, Bool.and_eq_true, hrest, matchesAt_char_cons_iff]
      | run =>
        rw [positions] at hrun
        simp only [prepend, List.headD_cons, Bool.or_eq_true, Bool.and_eq_true, h, hrun,
          matchesAt_run_cons_iff]

theorem any_positions_iff (items : List Item) (before text : Text) :
    (regex.positions before.isEmpty text items).any id = true ↔
      ∃ skipped rest, text = skipped ++ rest ∧ regex.MatchesAt (before ++ skipped) items rest := by
  induction text generalizing before with
  | nil =>
    obtain ⟨here, hhere⟩ := regex.positions_nil before.isEmpty items
    have hm := regex.headD_positions_iff items before []
    rw [hhere, List.headD_cons] at hm
    rw [hhere, List.any_cons, List.any_nil, Bool.or_false, id, hm]
    constructor
    · intro hm
      exact ⟨[], [], rfl, by rwa [List.append_nil]⟩
    · rintro ⟨skipped, rest, he, hm⟩
      obtain ⟨rfl, rfl⟩ := List.append_eq_nil_iff.mp he.symm
      rwa [List.append_nil] at hm
  | cons c text ih =>
    obtain ⟨here, hhere⟩ := regex.positions_cons before.isEmpty c text items
    have hfirst := regex.headD_positions_iff items before (c :: text)
    have hinner : (before ++ [c]).isEmpty = false := by simp
    have hrest := ih (before ++ [c])
    rw [hhere, List.headD_cons] at hfirst
    rw [hinner] at hrest
    rw [hhere, List.any_cons, id, Bool.or_eq_true, hfirst, hrest]
    constructor
    · rintro (hm | ⟨skipped, rest, rfl, hm⟩)
      · exact ⟨[], c :: text, rfl, by rwa [List.append_nil]⟩
      · exact ⟨c :: skipped, rest, rfl, by rwa [List.append_cons]⟩
    · rintro ⟨skipped, rest, he, hm⟩
      cases skipped with
      | nil =>
        rw [List.append_nil] at hm
        exact .inl (he ▸ hm)
      | cons d skipped =>
        cases he
        rw [List.append_cons] at hm
        exact .inr ⟨skipped, rest, rfl, hm⟩

end Positions

-- The matcher decides the relation that documents the syntax.
theorem isMatch_iff_finds : regex.isMatch text = true ↔ regex.Finds text := by
  refine (regex.any_positions_iff regex.items [] text).trans ⟨?_, ?_⟩
  · rintro ⟨before, _, rfl, matched, behind, rfl, h⟩
    exact ⟨before, matched, behind, rfl, h⟩
  · rintro ⟨before, matched, behind, rfl, h⟩
    exact ⟨before, _, rfl, matched, behind, rfl, h⟩

end RecordFilter.Regex
