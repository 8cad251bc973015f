namespace RecordFilter

-- Every rule of the filter language counts, cuts and compares characters, so a
-- text is the list of its characters.
abbrev Text := List Char

namespace Text

-- The rest of a text that begins with the given lead.
def dropLead? : Text → Text → Option Text
  | [], text => some text
  | _ :: _, [] => none
  | l :: lead, c :: text => if l = c then dropLead? lead text else none

-- The text before the given tail, if the text ends in it.
def dropTail? (tail text : Text) : Option Text :=
  (dropLead? tail.reverse text.reverse).map List.reverse

theorem dropLead?_eq_some_iff {lead text rest : Text} :
    dropLead? lead text = some rest ↔ text = lead ++ rest := by
  induction lead generalizing text with
  | nil => simp [dropLead?]
  | cons l lead ih =>
    cases text with
    | nil => simp [dropLead?]
    | cons c text =>
      by_cases hc : l = c
      · simp [dropLead?, hc, ih]
      · simp [dropLead?, hc, Ne.symm hc]

theorem dropTail?_eq_some_iff {tail text rest : Text} :
    dropTail? tail text = some rest ↔ text = rest ++ tail := by
  simp only [dropTail?, Option.map_eq_some_iff, dropLead?_eq_some_iff]
  constructor
  · rintro ⟨reversed, hr, rfl⟩
    have h := congrArg List.reverse hr
    simpa using h
  · rintro rfl
    exact ⟨rest.reverse, by simp, by simp⟩

-- Cuts a text at every occurrence of the separator, so that there is one piece
-- more than there are separators.
def split (separator : Char) : Text → List Text
  | [] => [[]]
  | c :: rest =>
    if c = separator then [] :: split separator rest
    else match split separator rest with
      | [] => [[c]]
      | piece :: pieces => (c :: piece) :: pieces

-- Puts the separator between neighbouring pieces.
def join (separator : Char) : List Text → Text
  | [] => []
  | [piece] => piece
  | piece :: rest => piece ++ separator :: join separator rest

theorem split_ne_nil (separator : Char) (text : Text) : split separator text ≠ [] := by
  cases text with
  | nil => simp [split]
  | cons c rest =>
    by_cases hc : c = separator
    · simp [split, hc]
    · simp only [split, hc, if_false]
      split <;> simp

theorem join_cons_cons (separator c : Char) (piece : Text) (pieces : List Text) :
    join separator ((c :: piece) :: pieces) = c :: join separator (piece :: pieces) := by
  cases pieces <;> simp [join]

theorem join_nil_cons (separator : Char) (pieces : List Text) (hp : pieces ≠ []) :
    join separator ([] :: pieces) = separator :: join separator pieces := by
  cases pieces with
  | nil => exact absurd rfl hp
  | cons piece pieces => simp [join]

theorem join_split (separator : Char) (text : Text) :
    join separator (split separator text) = text := by
  induction text with
  | nil => simp [split, join]
  | cons c rest ih =>
    by_cases hc : c = separator
    · simp [split, hc, join_nil_cons separator _ (split_ne_nil separator rest), ih]
    · simp only [split, hc, if_false]
      cases hs : split separator rest with
      | nil => exact absurd hs (split_ne_nil separator rest)
      | cons piece pieces =>
        rw [hs] at ih
        simp [join_cons_cons, ih]

theorem split_of_not_mem (separator : Char) (piece : Text) (hp : separator ∉ piece) :
    split separator piece = [piece] := by
  induction piece with
  | nil => rfl
  | cons c piece ih =>
    simp only [List.mem_cons, not_or] at hp
    simp [split, Ne.symm hp.1, ih hp.2]

theorem split_append (separator : Char) (piece rest : Text) (hp : separator ∉ piece) :
    split separator (piece ++ separator :: rest) = piece :: split separator rest := by
  induction piece with
  | nil => simp [split]
  | cons c piece ih =>
    simp only [List.mem_cons, not_or] at hp
    simp [split, Ne.symm hp.1, ih hp.2]

theorem split_join (separator : Char) (pieces : List Text) (hne : pieces ≠ [])
    (hp : ∀ piece ∈ pieces, separator ∉ piece) :
    split separator (join separator pieces) = pieces := by
  induction pieces with
  | nil => exact absurd rfl hne
  | cons piece pieces ih =>
    have hpiece := hp piece List.mem_cons_self
    cases pieces with
    | nil => simpa [join] using split_of_not_mem separator piece hpiece
    | cons next rest =>
      rw [join, split_append separator piece _ hpiece, ih (by simp)]
      · exact fun other ho => hp other (List.mem_cons_of_mem _ ho)
      · simp

-- ASCII characters that print: the blank and the graphic ones.
def isPrintable (c : Char) : Bool := 0x20 ≤ c.toNat && c.toNat ≤ 0x7E

-- ASCII characters that leave ink.
def isGraphic (c : Char) : Bool := 0x21 ≤ c.toNat && c.toNat ≤ 0x7E

theorem isPrintable_of_isGraphic {c : Char} (hc : isGraphic c = true) : isPrintable c = true := by
  simp only [isGraphic, isPrintable, Bool.and_eq_true, decide_eq_true_eq] at hc ⊢
  omega

-- Lower case for the ASCII letters only. All other characters stay.
def lower (text : Text) : Text := text.map Char.toLower

end Text

end RecordFilter
