import RecordFilter.Text

namespace RecordFilter.Text

-- The characters with the Unicode property White_Space. Zero-width spaces and
-- the byte order mark are not among them.
def isBlank (c : Char) : Bool :=
  let n := c.toNat
  (9 ≤ n && n ≤ 13) || n == 0x20 || n == 0x85 || n == 0xA0 || n == 0x1680 ||
    (0x2000 ≤ n && n ≤ 0x200A) || n == 0x2028 || n == 0x2029 || n == 0x202F || n == 0x205F ||
    n == 0x3000

theorem isBlank_of_isWhitespace {c : Char} (hc : c.isWhitespace = true) : isBlank c = true := by
  simp only [Char.isWhitespace, Bool.or_eq_true, decide_eq_true_eq] at hc
  rcases hc with ((rfl | rfl) | rfl) | rfl <;> decide

-- A text of white space only, such as the empty text.
def onlyBlank (text : Text) : Bool := text.all isBlank

def dropBlank (text : Text) : Text := text.dropWhile isBlank

end RecordFilter.Text
