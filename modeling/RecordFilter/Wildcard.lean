import RecordFilter.Fault
import RecordFilter.Regex

namespace RecordFilter

-- A text in which every star stands for any sequence of characters, also an empty one.
structure Wildcard where
  regex : Regex
  caseSensitive : Bool
  ignoreCase_eq : regex.ignoreCase = !caseSensitive
  dotAll_eq : regex.dotAll = true

namespace Regex

variable {builds : Regex → Bool} {text : Text} {ignoreCase dotAll : Bool} {regex : Regex}

theorem options_of_build? (h : build? builds text ignoreCase dotAll = some regex) :
    regex.ignoreCase = ignoreCase ∧ regex.dotAll = dotAll := by
  rw [build?] at h
  split at h
  · cases h
  · obtain ⟨-, h⟩ := Option.ite_none_right_eq_some.mp h
    cases h
    exact ⟨rfl, rfl⟩

end Regex

namespace Wildcard

-- Whether a literal is a pattern and not just text.
def isPattern (literal : Text) : Bool := literal.contains '*'

def source (literal : Text) : Text :=
  '^' :: List.intercalate ".*".toList ((Text.split '*' literal).map Regex.escape) ++ ['$']

def ofLiteral (builds : Regex → Bool) (literal : Text) (caseSensitive : Bool) :
    Except Fault Wildcard :=
  match h : Regex.build? builds (source literal) (!caseSensitive) true with
  | some regex =>
    .ok ⟨regex, caseSensitive, (Regex.options_of_build? h).1, (Regex.options_of_build? h).2⟩
  | none => .error (.unreadable literal "wildcard pattern".toList)

def isMatch (wildcard : Wildcard) (text : Text) : Bool := wildcard.regex.isMatch text

theorem eq_iff {a b : Wildcard} :
    a = b ↔ a.regex.text = b.regex.text ∧ a.caseSensitive = b.caseSensitive := by
  constructor
  · rintro rfl
    exact ⟨rfl, rfl⟩
  · obtain ⟨⟨text, items, hread, ignoreCase, dotAll⟩, caseSensitive, hignore, hdot⟩ := a
    obtain ⟨⟨other, others, hother, ignoreOther, dotOther⟩, flag, hignored, hdotted⟩ := b
    rintro ⟨htext, hflag⟩
    dsimp only at hignore hdot hignored hdotted htext hflag
    subst htext hflag hignore hdot hignored hdotted
    obtain rfl : items = others := Option.some.inj (hread.symm.trans hother)
    rfl

instance : DecidableEq Wildcard := fun _ _ => decidable_of_iff _ eq_iff.symm

end Wildcard

end RecordFilter
