import RecordFilter.Proofs.Matching
import RecordFilter.Proofs.Patterns

namespace RecordFilter

namespace Wildcard

-- A character as it is compared.
def compared (caseSensitive : Bool) (c : Char) : Char :=
  if caseSensitive then c else Text.foldCase c

-- Every star of a pattern gives way to a filling of its own, in the same order. All other
-- characters stand for themselves, as they are compared.
inductive Fills (caseSensitive : Bool) : Text → List Text → Text → Prop where
  | nil : Fills caseSensitive [] [] []
  | star {pattern text : Text} {fillings : List Text} (filling : Text)
    (h : Fills caseSensitive pattern fillings text) :
    Fills caseSensitive ('*' :: pattern) (filling :: fillings) (filling ++ text)
  | char {c d : Char} {pattern text : Text} {fillings : List Text} (hc : c ≠ '*')
    (hd : compared caseSensitive c = compared caseSensitive d)
    (h : Fills caseSensitive pattern fillings text) :
    Fills caseSensitive (c :: pattern) fillings (d :: text)

section Substitution

variable {caseSensitive : Bool} {pattern text : Text} {c d : Char}

theorem exists_fills_nil_iff : (∃ fillings, Fills caseSensitive [] fillings text) ↔ text = [] := by
  constructor
  · rintro ⟨_, h⟩
    cases h
    rfl
  · rintro rfl
    exact ⟨[], .nil⟩

theorem exists_fills_star_iff :
    (∃ fillings, Fills caseSensitive ('*' :: pattern) fillings text) ↔
      ∃ filling rest, text = filling ++ rest ∧
        ∃ fillings, Fills caseSensitive pattern fillings rest := by
  constructor
  · rintro ⟨_, h⟩
    cases h with
    | star filling h => exact ⟨filling, _, rfl, _, h⟩
    | char hstar => exact absurd rfl hstar
  · rintro ⟨filling, rest, rfl, fillings, h⟩
    exact ⟨filling :: fillings, .star filling h⟩

theorem not_exists_fills_char_nil (hc : c ≠ '*') :
    ¬∃ fillings, Fills caseSensitive (c :: pattern) fillings [] := by
  rintro ⟨_, h⟩
  generalize hn : ([] : Text) = text at h
  cases h with
  | star => exact hc rfl
  | char => cases hn

theorem exists_fills_char_cons_iff (hc : c ≠ '*') :
    (∃ fillings, Fills caseSensitive (c :: pattern) fillings (d :: text)) ↔
      compared caseSensitive c = compared caseSensitive d ∧
        ∃ fillings, Fills caseSensitive pattern fillings text := by
  constructor
  · rintro ⟨fillings, h⟩
    generalize ht : d :: text = whole at h
    cases h with
    | star => exact absurd rfl hc
    | char _ hd h =>
      cases ht
      exact ⟨hd, fillings, h⟩
  · rintro ⟨hd, fillings, h⟩
    exact ⟨fillings, .char hc hd h⟩

end Substitution

theorem accepts_iff_compared {regex : Regex} {caseSensitive : Bool}
    (hi : regex.ignoreCase = !caseSensitive) {c d : Char} :
    regex.accepts c d = true ↔ compared caseSensitive c = compared caseSensitive d := by
  rw [Regex.accepts_iff, hi]
  cases caseSensitive with
  | true => simp [compared]
  | false =>
    have hfold : c = d → Text.foldCase c = Text.foldCase d := congrArg _
    simpa [compared] using hfold

-- The parts for a pattern, with the anchor behind them, match just what the pattern is filled to. The
-- induction follows the pattern, since each of its characters has one part.
theorem matchesAt_items_iff {regex : Regex} {caseSensitive : Bool}
    (hi : regex.ignoreCase = !caseSensitive) (hd : regex.dotAll = true) (pattern before text : Text) :
    regex.MatchesAt before (pattern.map item ++ [.finish]) text ↔
      ∃ fillings, Fills caseSensitive pattern fillings text := by
  induction pattern generalizing before text with
  | nil =>
    rw [exists_fills_nil_iff, List.map_nil, List.nil_append, Regex.matchesAt_finish_iff]
    exact and_iff_left Regex.matchesAt_nil
  | cons c pattern ih =>
    by_cases hc : c = '*'
    · subst hc
      rw [exists_fills_star_iff, List.map_cons, item, if_pos rfl, List.cons_append,
        Regex.matchesAt_run_iff]
      simp only [hd, ih, implies_true, true_and]
    · rw [List.map_cons, item, if_neg hc, List.cons_append]
      cases text with
      | nil => exact iff_of_false Regex.not_matchesAt_char_nil (not_exists_fills_char_nil hc)
      | cons d text =>
        rw [exists_fills_char_cons_iff hc, Regex.matchesAt_char_cons_iff, ih,
          accepts_iff_compared hi]

theorem isMatch_compiled_iff {literal text : Text} {caseSensitive : Bool} :
    (compiled literal caseSensitive).isMatch text = true ↔
      ∃ fillings, Fills caseSensitive literal fillings text := by
  have hitems := matchesAt_items_iff (compiled literal caseSensitive).ignoreCase_eq
    (compiled literal caseSensitive).dotAll_eq literal [] text
  rw [isMatch, Regex.isMatch_iff_finds]
  refine Iff.trans ⟨?_, ?_⟩ hitems
  · rintro ⟨before, matched, behind, rfl, h⟩
    obtain ⟨rfl, h⟩ := Regex.matchesAt_start_iff.mp ⟨matched, behind, rfl, h⟩
    exact h
  · rintro ⟨matched, behind, rfl, h⟩
    exact ⟨[], matched, behind, rfl, .start h⟩

-- A text meets a pattern exactly if the pattern reads as the text with some filling for each star. That
-- is so for every pattern that can be built, and any other one is at fault.
theorem isMatch_iff_exists_fills (builds : Regex → Bool) (literal : Text) (caseSensitive : Bool) :
    if builds (expression literal caseSensitive) then
      ∃ wildcard, ofLiteral builds literal caseSensitive = .ok wildcard ∧
        wildcard.caseSensitive = caseSensitive ∧
        ∀ text, wildcard.isMatch text = true ↔ ∃ fillings, Fills caseSensitive literal fillings text
    else
      ofLiteral builds literal caseSensitive =
        .error (.unreadable literal "wildcard pattern".toList) := by
  rw [ofLiteral_eq]
  split
  · exact ⟨compiled literal caseSensitive, rfl, rfl, fun text => isMatch_compiled_iff⟩
  · rfl

-- The first `ab` is passed over for the last star, and the second one stands at the end.
example : (compiled "*A*ab".toList false).isMatch "xabab".toList = true := by decide

-- A pattern of more stars than an engine with limited room takes.
def stars : Text := List.replicate 40000 '*'

theorem programSize_cons (first : Regex.Item) (items : List Regex.Item) :
    Regex.programSize (first :: items) = first.size + Regex.programSize items := rfl

theorem programSize_replicate (count : Nat) (items : List Regex.Item) :
    Regex.programSize (List.replicate count .run ++ items) =
      456 * count + Regex.programSize items := by
  induction count with
  | zero => simp
  | succ count ih =>
    rw [List.replicate_succ, List.cons_append, programSize_cons, ih, Regex.Item.size]
    omega

theorem isSmall_stars (caseSensitive : Bool) :
    Regex.isSmall (expression stars caseSensitive) = false := by
  have hitems : ∀ literal, (expression literal caseSensitive).items =
      .start :: (literal.map item ++ [.finish]) := fun _ => rfl
  rw [Regex.isSmall, hitems, programSize_cons, stars, List.map_replicate, item, if_pos rfl,
    programSize_replicate]
  decide

theorem exists_fills_replicate (caseSensitive : Bool) (count : Nat) :
    ∃ fillings, Fills caseSensitive (List.replicate count '*') fillings [] := by
  induction count with
  | zero => exact exists_fills_nil_iff.mpr rfl
  | succ count ih => exact exists_fills_star_iff.mpr ⟨[], [], rfl, ih⟩

-- A text without any character is the stars with a filling for each of them, but no such pattern is
-- built that could be asked about it.
theorem stars_not_built :
    (∃ fillings, Fills true stars fillings []) ∧
      ofLiteral Regex.isSmall stars true = .error (.unreadable stars "wildcard pattern".toList) ∧
      ¬∃ wildcard, ofLiteral Regex.isSmall stars true = .ok wildcard ∧ wildcard.isMatch [] = true := by
  have hfault : ofLiteral Regex.isSmall stars true =
      .error (.unreadable stars "wildcard pattern".toList) := by
    rw [ofLiteral_eq, isSmall_stars]
    exact if_neg (by simp)
  refine ⟨exists_fills_replicate true 40000, hfault, ?_⟩
  rintro ⟨wildcard, hbuilt, -⟩
  rw [hfault] at hbuilt
  cases hbuilt

end Wildcard

end RecordFilter
