import RecordFilter.Number.Binary64
import RecordFilter.Number.Integer

namespace RecordFilter.Binary64

-- Decimal texts of more than this many digits before the point are infinite in every
-- precision, and those that start as many places behind it are zero.
def decimalReach : Int := 400

def ofDecimal (precision : Precision) (negative : Bool) (digits : Text) (exponent : Int) :
    Binary64 :=
  let significant := digits.dropWhile (· == '0')
  let places := (significant.length : Int) + exponent
  if significant.isEmpty ∨ places < -decimalReach then zero negative
  else if decimalReach < places then infinite negative
  else ofRatio precision negative (Ratio.scale ⟨Text.digitsValue significant, 1⟩ 10 exponent)

def exponent? : Text → Option Int
  | [] => some 0
  | mark :: text => if mark = 'e' ∨ mark = 'E' then Text.signed? text else none

-- Digits with at most one point and at least one digit on either side of it, and an
-- optional exponent.
def unsignedDecimal? (precision : Precision) (negative : Bool) (text : Text) :
    Option Binary64 :=
  let whole := text.takeWhile Text.isDigit
  let rest := text.dropWhile Text.isDigit
  let (fraction, rest) := match rest with
    | '.' :: rest => (rest.takeWhile Text.isDigit, rest.dropWhile Text.isDigit)
    | _ => ([], rest)
  if whole.isEmpty ∧ fraction.isEmpty then none
  else (exponent? rest).map fun exponent =>
    ofDecimal precision negative (whole ++ fraction) (exponent - fraction.length)

def unsignedNumber? (precision : Precision) (negative : Bool) (text : Text) : Option Binary64 :=
  let word := Text.lower text
  if word = "inf".toList ∨ word = "infinity".toList then some (infinite negative)
  else if word = "nan".toList then some { nan with negative }
  else unsignedDecimal? precision negative text

def read? (precision : Precision) : Text → Option Binary64
  | '+' :: text => unsignedNumber? precision false text
  | '-' :: text => unsignedNumber? precision true text
  | text => unsignedNumber? precision false text

-- The numbers that read back as a given one lie around it: half a step away on either
-- side, but only a quarter below a power of two. The ends themselves read back when
-- the significand is even. Bounds and value are in quarter steps over one denominator.
structure Surroundings where
  low : Nat
  value : Nat
  high : Nat
  denominator : Nat
  closed : Bool

def surroundings (x : Binary64) : Surroundings :=
  let m := x.significand
  let below := if m = fullSignificand ∧ x.exponent ≠ -1074 then 1 else 2
  let unit := Ratio.scale ⟨1, 1⟩ 2 (x.exponent - 2)
  { low := (4 * m - below) * unit.numerator
    value := 4 * m * unit.numerator
    high := (4 * m + 2) * unit.numerator
    denominator := unit.denominator
    closed := m % 2 == 0 }

def Surroundings.holds (s : Surroundings) (multiple : Nat) (exponent : Int) : Bool :=
  let point := Ratio.scale ⟨multiple, 1⟩ 10 exponent
  let scaled := point.numerator * s.denominator
  let low := s.low * point.denominator
  let high := s.high * point.denominator
  if s.closed then low ≤ scaled && scaled ≤ high else low < scaled && scaled < high

-- The nearer of the value's two neighbours on a decimal grid, if any of them reads
-- back. The upper one is taken when both are equally near.
def Surroundings.onGrid? (s : Surroundings) (exponent : Int) : Option Nat :=
  let quotient := Ratio.scale ⟨s.value, s.denominator⟩ 10 (-exponent)
  let floor := quotient.numerator / quotient.denominator
  let upperIsNearer :=
    quotient.denominator ≤ 2 * (quotient.numerator % quotient.denominator)
  match s.holds floor exponent, s.holds (floor + 1) exponent with
  | true, true => some (if upperIsNearer then floor + 1 else floor)
  | true, false => some floor
  | false, true => some (floor + 1)
  | false, false => none

def Surroundings.coarsest (s : Surroundings) : Nat → Int → Nat × Int
  | 0, exponent => ((s.onGrid? exponent).getD 0, exponent)
  | finer + 1, exponent =>
    match s.onGrid? exponent with
    | some multiple => (multiple, exponent)
    | none => s.coarsest finer (exponent - 1)

-- The fewest digits that read back, as a multiple of a power of ten. The search
-- starts on a grid coarser than the number and needs no more than 17 digits.
def shortest (x : Binary64) : Nat × Int :=
  let top := (Nat.log2 x.significand + x.exponent) * 30103 / 100000 + 2
  x.surroundings.coarsest 24 top

def positional (multiple : Nat) (exponent : Int) : Text :=
  let digits := Text.ofNat multiple
  if 0 ≤ exponent then digits ++ List.replicate exponent.toNat '0'
  else
    let places := (-exponent).toNat
    if digits.length ≤ places then
      '0' :: '.' :: List.replicate (places - digits.length) '0' ++ digits
    else
      let cut := digits.length - places
      digits.take cut ++ '.' :: digits.drop cut

-- The text of a number has the fewest digits that read back and never an exponent.
def text (x : Binary64) : Text :=
  if x.isNaN then "NaN".toList
  else
    let digits :=
      if ¬ x.isFinite then "inf".toList
      else if x.magnitude = 0 then ['0']
      else positional x.shortest.1 x.shortest.2
    if x.negative then '-' :: digits else digits

end RecordFilter.Binary64
