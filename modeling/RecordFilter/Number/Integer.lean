import RecordFilter.Text

namespace RecordFilter

-- The widths of the machine integers a property can be declared with.
inductive Width where
  | w8
  | w16
  | w32
  | w64
  deriving DecidableEq

namespace Width

def bits : Width → Nat
  | w8 => 8
  | w16 => 16
  | w32 => 32
  | w64 => 64

-- How many values there are.
def values : Width → Nat
  | w8 => 0x100
  | w16 => 0x10000
  | w32 => 0x100000000
  | w64 => 0x10000000000000000

-- The range of two's complement: one more value below zero than above.
def holdsSigned (width : Width) (n : Int) : Bool :=
  -(width.values / 2 : Nat) ≤ n && n < (width.values / 2 : Nat)

def holdsUnsigned (width : Width) (n : Nat) : Bool := n < width.values

end Width

namespace Text

def isDigit (c : Char) : Bool := '0'.toNat ≤ c.toNat && c.toNat ≤ '9'.toNat

def digitValue (c : Char) : Nat := c.toNat - '0'.toNat

-- The number that a run of digits stands for, with any count of leading zeros.
def digitsValue (digits : Text) : Nat :=
  digits.foldl (fun n c => 10 * n + digitValue c) 0

-- A number without a sign: one or more ASCII digits and nothing else.
def natural? (text : Text) : Option Nat :=
  if text ≠ [] ∧ text.all isDigit then some (digitsValue text) else none

-- A number of an unsigned type may carry a plus, and no minus, not even on zero.
def unsigned? : Text → Option Nat
  | '+' :: digits => natural? digits
  | text => natural? text

def signed? : Text → Option Int
  | '-' :: digits => (natural? digits).map (fun n => -(n : Int))
  | text => (unsigned? text).map (fun n => (n : Int))

def signedOf? (width : Width) (text : Text) : Option Int :=
  (signed? text).filter width.holdsSigned

def unsignedOf? (width : Width) (text : Text) : Option Nat :=
  (unsigned? text).filter width.holdsUnsigned

-- Plain decimal text of a number, without leading zeros.
def ofNat (n : Nat) : Text := Nat.toDigits 10 n

def ofInt : Int → Text
  | .ofNat n => ofNat n
  | .negSucc n => '-' :: ofNat (n + 1)

-- Decimal text of at least the given number of digits, filled up with zeros.
def padded (width n : Nat) : Text :=
  let digits := ofNat n
  List.replicate (width - digits.length) '0' ++ digits

end Text

end RecordFilter
