import RecordFilter.Comparator

namespace RecordFilter

-- A comparison as written, cut at its comparator.
structure Term where
  name : Text
  token : Text
  comparator : Comparator
  value : Text
  deriving DecidableEq

namespace Term

-- The first of the spellings that a text begins with, and what follows it.
def leadingToken? : List (Text × Comparator) → Text → Option (Text × Comparator × Text)
  | [], _ => none
  | (token, comparator) :: tokens, text =>
    match Text.dropLead? token text with
    | some rest => some (token, comparator, rest)
    | none => leadingToken? tokens text

-- The name is the shortest one, of one printable character at least, that a comparator
-- follows. All the rest is the value, whatever characters it has.
def cut? (tokens : List (Text × Comparator)) : Text → Option Term
  | [] => none
  | c :: rest =>
    if Text.isPrintable c then
      match leadingToken? tokens rest with
      | some (token, comparator, value) => some ⟨[c], token, comparator, value⟩
      | none => (cut? tokens rest).map fun term => { term with name := c :: term.name }
    else none

def ofText? (singleEquals : Bool) (text : Text) : Option Term :=
  cut? (Comparator.tokens singleEquals) text

-- The text that was cut.
def text (term : Term) : Text := term.name ++ term.token ++ term.value

theorem leadingToken?_eq_append {tokens : List (Text × Comparator)} {text token value : Text}
    {comparator : Comparator} (h : leadingToken? tokens text = some (token, comparator, value)) :
    text = token ++ value := by
  induction tokens with
  | nil => simp [leadingToken?] at h
  | cons entry tokens ih =>
    obtain ⟨first, kind⟩ := entry
    rw [leadingToken?] at h
    split at h
    · next rest hr =>
      simp only [Option.some.injEq, Prod.mk.injEq] at h
      rw [Text.dropLead?_eq_some_iff] at hr
      rw [hr, h.1, h.2.2]
    · exact ih h

theorem text_of_cut? {tokens : List (Text × Comparator)} {text : Text} {term : Term}
    (h : cut? tokens text = some term) : term.text = text := by
  induction text generalizing term with
  | nil => simp [cut?] at h
  | cons c rest ih =>
    rw [cut?] at h
    split at h
    · split at h
      · next token comparator value hl =>
        cases h
        simp [Term.text, leadingToken?_eq_append hl]
      · simp only [Option.map_eq_some_iff] at h
        obtain ⟨shorter, hs, rfl⟩ := h
        have hr := ih hs
        simpa [Term.text] using hr
    · cases h

end Term

end RecordFilter
