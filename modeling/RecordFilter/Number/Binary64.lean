import RecordFilter.Text

namespace RecordFilter

-- A double-precision number: its sign, and the other 63 bits of its encoding read
-- as one number. Zero has magnitude 0, and magnitudes grow with absolute values up
-- to infinity. All larger magnitudes stand for what is not a number.
structure Binary64 where
  negative : Bool
  magnitude : Nat
  magnitude_lt : magnitude < 0x8000000000000000
  deriving DecidableEq

namespace Binary64

def infiniteMagnitude : Nat := 0x7FF0000000000000

def zero (negative : Bool) : Binary64 := ⟨negative, 0, by decide⟩

def infinite (negative : Bool) : Binary64 := ⟨negative, infiniteMagnitude, by decide⟩

def nan : Binary64 := ⟨false, 0x7FF8000000000000, by decide⟩

def isNaN (x : Binary64) : Bool := infiniteMagnitude < x.magnitude

def isFinite (x : Binary64) : Bool := x.magnitude < infiniteMagnitude

-- The 64 bits of the encoding.
def bits (x : Binary64) : Nat := (if x.negative then 0x8000000000000000 else 0) + x.magnitude

-- The place among all numbers in order. Both zeros have place 0.
def rank (x : Binary64) : Int := if x.negative then -(x.magnitude : Int) else x.magnitude

-- Numbers compare by rank. What is not a number compares with nothing, itself included.
def order? (x y : Binary64) : Option Ordering :=
  if x.isNaN || y.isNaN then none else some (compare x.rank y.rank)

-- The least magnitude of full precision, which is also the least full significand.
def fullSignificand : Nat := 0x10000000000000

-- A finite number is its significand times two to its exponent.
def significand (x : Binary64) : Nat :=
  if x.magnitude < fullSignificand then x.magnitude
  else fullSignificand + x.magnitude % fullSignificand

def exponent (x : Binary64) : Int :=
  if x.magnitude < fullSignificand then -1074
  else (x.magnitude / fullSignificand : Nat) - 1075

end Binary64

-- A fraction of natural numbers, for exact scaling by powers.
structure Ratio where
  numerator : Nat
  denominator : Nat

namespace Ratio

-- The fraction times a power of the base.
def scale (ratio : Ratio) (base : Nat) (exponent : Int) : Ratio :=
  if 0 ≤ exponent then ⟨ratio.numerator * base.pow exponent.toNat, ratio.denominator⟩
  else ⟨ratio.numerator, ratio.denominator * base.pow (-exponent).toNat⟩

-- The nearest natural number, and of two equally near ones the even one.
def round (ratio : Ratio) : Nat :=
  let quotient := ratio.numerator / ratio.denominator
  let remainder := 2 * (ratio.numerator % ratio.denominator)
  if remainder < ratio.denominator then quotient
  else if remainder = ratio.denominator ∧ quotient % 2 = 0 then quotient
  else quotient + 1

-- The exponent of the greatest power of two that is not above the fraction.
def binaryExponent (ratio : Ratio) : Int :=
  let guess := (Nat.log2 ratio.numerator : Int) - Nat.log2 ratio.denominator
  let scaled := scale ⟨1, 1⟩ 2 guess
  if scaled.numerator * ratio.denominator ≤ ratio.numerator * scaled.denominator then guess
  else guess - 1

end Ratio

-- A binary format: the digits of a significand, the exponent of the finest step,
-- and the power of two at which the numbers end.
structure Precision where
  digits : Nat
  finest : Int
  limit : Nat

namespace Precision

def single : Precision := ⟨24, -149, 128⟩

def double : Precision := ⟨53, -1074, 1024⟩

-- The significand and exponent of the format's number nearest to a positive
-- fraction. Halfway cases go to the even significand.
def nearest (precision : Precision) (ratio : Ratio) : Nat × Int :=
  let exponent := max (ratio.binaryExponent - (precision.digits - 1 : Nat)) precision.finest
  ((ratio.scale 2 (-exponent)).round, exponent)

-- Magnitude of a significand at an exponent in double precision. A significand that
-- rounding has carried over to one more digit lands on the next exponent by itself.
def doubleMagnitude (significand : Nat) (exponent : Int) : Nat :=
  if significand < Binary64.fullSignificand then significand
  else (exponent - double.finest).toNat * Binary64.fullSignificand + significand

end Precision

namespace Binary64

-- A magnitude with its sign. Too large ones are infinite.
def ofMagnitude (negative : Bool) (magnitude : Nat) : Binary64 :=
  if h : magnitude < infiniteMagnitude then
    ⟨negative, magnitude, Nat.lt_trans h (by decide)⟩
  else infinite negative

-- The number of the given precision nearest to a fraction. Numbers of single
-- precision are exact in double precision.
def ofRatio (precision : Precision) (negative : Bool) (ratio : Ratio) : Binary64 :=
  if ratio.numerator = 0 then zero negative
  else
    let (significand, exponent) := precision.nearest ratio
    let rounded := Ratio.scale ⟨significand, 1⟩ 2 exponent
    if Nat.pow 2 precision.limit * rounded.denominator ≤ rounded.numerator then infinite negative
    else if rounded.numerator = 0 then zero negative
    else
      let (significand, exponent) := Precision.double.nearest rounded
      ofMagnitude negative (Precision.doubleMagnitude significand exponent)

-- The double-precision number nearest to an integer.
def ofInt (n : Int) : Binary64 := ofRatio Precision.double (decide (n < 0)) ⟨n.natAbs, 1⟩

end Binary64

end RecordFilter
