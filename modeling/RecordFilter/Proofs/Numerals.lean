import Mathlib.Data.List.Induction
import Mathlib.Data.Nat.Digits.Defs
import RecordFilter.Value.Literal

namespace RecordFilter

namespace Text

-- One or more decimal digits, the most significant one first, and the number that they stand for.
def IsDecimal (text : Text) (n : Nat) : Prop :=
  ∃ digits : List Nat, digits ≠ [] ∧ (∀ digit ∈ digits, digit < 10) ∧
    text = digits.map Nat.digitChar ∧ n = Nat.ofDigits 10 digits.reverse

theorem natural?_eq_some_iff {text : Text} {n : Nat} :
    natural? text = some n ↔
      text ≠ [] ∧ (∀ c ∈ text, isDigit c = true) ∧ digitsValue text = n := by
  rw [natural?, Option.ite_none_right_eq_some, List.all_eq_true, Option.some.injEq, and_assoc]

theorem ne_cons_of_natural? {text : Text} {n : Nat} (h : natural? text = some n) {c : Char}
    (hc : isDigit c = false) (rest : Text) : text ≠ c :: rest := by
  rintro rfl
  have hdigit := (natural?_eq_some_iff.mp h).2.1 c List.mem_cons_self
  cases hc.symm.trans hdigit

theorem unsigned?_eq_some_iff {text : Text} {n : Nat} :
    unsigned? text = some n ↔
      ∃ digits, (text = digits ∨ text = '+' :: digits) ∧ natural? digits = some n := by
  constructor
  · intro h
    rw [unsigned?.eq_def] at h
    split at h
    · next digits => exact ⟨digits, .inr rfl, h⟩
    · exact ⟨text, .inl rfl, h⟩
  · rintro ⟨digits, rfl | rfl, h⟩
    · rw [unsigned?.eq_2 text (ne_cons_of_natural? h rfl)]
      exact h
    · exact h

theorem signed?_minus (digits : Text) :
    signed? ('-' :: digits) = (natural? digits).map fun n : Nat => -(n : Int) := by
  rw [signed?]
  cases natural? digits <;> rfl

theorem signed?_of_ne {text : Text} (h : ∀ digits, text ≠ '-' :: digits) :
    signed? text = (unsigned? text).map fun n : Nat => (n : Int) := by
  rw [signed?.eq_2 text h]
  cases unsigned? text <;> rfl

theorem digitValue_digitChar {digit : Nat} (h : digit < 10) :
    digitValue (Nat.digitChar digit) = digit := by
  rw [digitValue, Nat.toNat_digitChar_of_lt_ten h]
  exact Nat.add_sub_cancel_left 48 digit

theorem isDigit_digitChar {digit : Nat} (h : digit < 10) :
    isDigit (Nat.digitChar digit) = true := by
  rw [show isDigit (Nat.digitChar digit) = (Nat.digitChar digit).isDigit from rfl,
    Nat.isDigit_digitChar]
  exact decide_eq_true h

theorem digitValue_of_isDigit {c : Char} (h : isDigit c = true) :
    digitValue c < 10 ∧ Nat.digitChar (digitValue c) = c := by
  simp only [isDigit, Bool.and_eq_true, decide_eq_true_eq] at h
  have hlow : 48 ≤ c.toNat := h.1
  have hhigh : c.toNat ≤ 57 := h.2
  have hvalue : digitValue c = c.toNat - 48 := rfl
  have hlt : digitValue c < 10 := by omega
  refine ⟨hlt, Char.toNat_inj.mp ?_⟩
  rw [Nat.toNat_digitChar_of_lt_ten hlt]
  omega

-- Each further digit makes ten times as much of the digits before it.
theorem digitsValue_map_digitChar {digits : List Nat} (h : ∀ digit ∈ digits, digit < 10) :
    digitsValue (digits.map Nat.digitChar) = Nat.ofDigits 10 digits.reverse := by
  induction digits using List.reverseRecOn with
  | nil => rfl
  | append_singleton digits digit ih =>
    have hbefore := ih fun other ho => h other (List.mem_append_left _ ho)
    have hdigit := digitValue_digitChar (h digit (List.mem_append_right _ List.mem_cons_self))
    rw [digitsValue] at hbefore ⊢
    rw [List.map_append, List.foldl_append, hbefore, List.reverse_append, List.map_singleton,
      List.foldl_cons, List.foldl_nil, hdigit, List.reverse_singleton, List.singleton_append,
      Nat.ofDigits_cons, Nat.add_comm]

theorem isDecimal_iff {text : Text} {n : Nat} : IsDecimal text n ↔ natural? text = some n := by
  rw [natural?_eq_some_iff]
  constructor
  · rintro ⟨digits, hne, hlt, rfl, rfl⟩
    refine ⟨by simpa using hne, fun c hc => ?_, digitsValue_map_digitChar hlt⟩
    obtain ⟨digit, hd, rfl⟩ := List.mem_map.mp hc
    exact isDigit_digitChar (hlt digit hd)
  · rintro ⟨hne, hdigit, rfl⟩
    have hlt : ∀ digit ∈ text.map digitValue, digit < 10 :=
      List.forall_mem_map.mpr fun c hc => (digitValue_of_isDigit (hdigit c hc)).1
    have htext : (text.map digitValue).map Nat.digitChar = text := by
      rw [List.map_map]
      exact (List.map_congr_left fun c hc => (digitValue_of_isDigit (hdigit c hc)).2).trans
        (List.map_id text)
    refine ⟨text.map digitValue, by simpa using hne, hlt, htext.symm, ?_⟩
    rw [← digitsValue_map_digitChar hlt, htext]

theorem natural?_ofNat (n : Nat) : natural? (ofNat n) = some n := by
  refine natural?_eq_some_iff.mpr ⟨Nat.toDigits_ne_nil, fun c hc => ?_, ?_⟩
  · exact Nat.isDigit_of_mem_toDigits (by decide) (by decide) hc
  · exact Nat.ofDigitChars_toDigits (by decide) (by decide)

end Text

namespace Width

variable (width : Width)

theorem holdsUnsigned_iff (n : Nat) : width.holdsUnsigned n = true ↔ n < 2 ^ width.bits := by
  have hvalues : width.values = 2 ^ width.bits := by cases width <;> rfl
  rw [holdsUnsigned, hvalues, decide_eq_true_eq]

theorem holdsSigned_iff (n : Int) :
    width.holdsSigned n = true ↔ -2 ^ (width.bits - 1) ≤ n ∧ n < 2 ^ (width.bits - 1) := by
  have hhalf : width.values / 2 = 2 ^ (width.bits - 1) := by cases width <;> rfl
  rw [holdsSigned, hhalf, Bool.and_eq_true, decide_eq_true_eq, decide_eq_true_eq, Int.natCast_pow,
    Int.cast_ofNat_Int]

end Width

namespace Scalar

variable {κ : Type} {type narrow wide : Scalar} {width : Width} {text : Text} {n : Int}
  {value : Value κ}

def isInteger : Scalar → Bool
  | signed _ | unsigned _ => true
  | _ => false

-- The texts for an integer. Only those of a signed type may begin with a minus.
inductive Denotes : Scalar → Text → Int → Prop where
  | bare {type : Scalar} {text : Text} {n : Nat} (h : text.IsDecimal n) : Denotes type text n
  | plus {type : Scalar} {text : Text} {n : Nat} (h : text.IsDecimal n) :
    Denotes type ('+' :: text) n
  | minus {width : Width} {text : Text} {n : Nat} (h : text.IsDecimal n) :
    Denotes (.signed width) ('-' :: text) (-n)

-- The integers in the range of a type, and the values that hold them.
inductive Holds : Scalar → Int → Value κ → Prop where
  | signed {width : Width} {n : Int} (hl : -2 ^ (width.bits - 1) ≤ n)
    (hu : n < 2 ^ (width.bits - 1)) : Holds (.signed width) n (.integer n)
  | unsigned {width : Width} {n : Nat} (h : n < 2 ^ width.bits) :
    Holds (.unsigned width) n (.unsigned n)

-- Integer types of one signedness, the first one no wider than the second.
inductive FitsInto : Scalar → Scalar → Prop where
  | signed {narrow wide : Width} (h : narrow.bits ≤ wide.bits) :
    FitsInto (.signed narrow) (.signed wide)
  | unsigned {narrow wide : Width} (h : narrow.bits ≤ wide.bits) :
    FitsInto (.unsigned narrow) (.unsigned wide)

theorem denotes_unsigned_iff :
    (unsigned width).Denotes text n ↔ ∃ m : Nat, Text.unsigned? text = some m ∧ n = m := by
  constructor
  · rintro (h | h)
    · exact ⟨_, Text.unsigned?_eq_some_iff.mpr ⟨_, .inl rfl, Text.isDecimal_iff.mp h⟩, rfl⟩
    · exact ⟨_, Text.unsigned?_eq_some_iff.mpr ⟨_, .inr rfl, Text.isDecimal_iff.mp h⟩, rfl⟩
  · rintro ⟨m, hm, rfl⟩
    obtain ⟨digits, rfl | rfl, hdigits⟩ := Text.unsigned?_eq_some_iff.mp hm
    · exact .bare (Text.isDecimal_iff.mpr hdigits)
    · exact .plus (Text.isDecimal_iff.mpr hdigits)

theorem denotes_signed_iff : (signed width).Denotes text n ↔ Text.signed? text = some n := by
  by_cases hminus : ∃ digits, text = '-' :: digits
  · obtain ⟨digits, rfl⟩ := hminus
    rw [Text.signed?_minus, Option.map_eq_some_iff]
    constructor
    · intro h
      cases h with
      | bare h =>
        exact absurd rfl (Text.ne_cons_of_natural? (Text.isDecimal_iff.mp h) rfl digits)
      | minus h => exact ⟨_, Text.isDecimal_iff.mp h, rfl⟩
    · rintro ⟨m, hm, rfl⟩
      exact .minus (Text.isDecimal_iff.mpr hm)
  · have hsame : (signed width).Denotes text n ↔ (unsigned width).Denotes text n := by
      constructor
      · intro h
        cases h with
        | bare h => exact .bare h
        | plus h => exact .plus h
        | minus h => exact absurd ⟨_, rfl⟩ hminus
      · intro h
        cases h with
        | bare h => exact .bare h
        | plus h => exact .plus h
    rw [hsame, denotes_unsigned_iff, Text.signed?_of_ne (not_exists.mp hminus),
      Option.map_eq_some_iff]
    exact exists_congr fun m => and_congr_right fun _ => eq_comm

theorem read?_eq_some_iff (hi : type.isInteger = true) (formats : Formats) :
    type.read? formats text = some value ↔ ∃ n, type.Denotes text n ∧ type.Holds n value := by
  cases type with
  | signed width =>
    rw [read?, Option.map_eq_some_iff]
    constructor
    · rintro ⟨n, hn, rfl⟩
      obtain ⟨hsigned, hrange⟩ := Option.filter_eq_some_iff.mp hn
      obtain ⟨hl, hu⟩ := (width.holdsSigned_iff n).mp hrange
      exact ⟨n, denotes_signed_iff.mpr hsigned, .signed hl hu⟩
    · rintro ⟨n, hd, hl, hu⟩
      have hrange := (width.holdsSigned_iff n).mpr ⟨hl, hu⟩
      exact ⟨n, Option.filter_eq_some_iff.mpr ⟨denotes_signed_iff.mp hd, hrange⟩, rfl⟩
  | unsigned width =>
    rw [read?, Option.map_eq_some_iff]
    constructor
    · rintro ⟨n, hn, rfl⟩
      obtain ⟨hunsigned, hrange⟩ := Option.filter_eq_some_iff.mp hn
      exact ⟨n, denotes_unsigned_iff.mpr ⟨n, hunsigned, rfl⟩,
        .unsigned ((width.holdsUnsigned_iff n).mp hrange)⟩
    · rintro ⟨n, hd, hholds⟩
      obtain ⟨m, hm, rfl⟩ := denotes_unsigned_iff.mp hd
      cases hholds with
      | unsigned hrange =>
        have hheld := (width.holdsUnsigned_iff m).mpr hrange
        exact ⟨m, Option.filter_eq_some_iff.mpr ⟨hm, hheld⟩, rfl⟩
  | _ => cases hi

theorem isInteger_of_holds (h : type.Holds n value) : type.isInteger = true := by
  cases h <;> rfl

theorem denotes_ofInt (h : type.Holds n value) : type.Denotes (Text.ofInt n) n := by
  have hdecimal : ∀ m : Nat, (Text.ofNat m).IsDecimal m := fun m =>
    Text.isDecimal_iff.mpr (Text.natural?_ofNat m)
  cases h with
  | signed hl hu =>
    cases n with
    | ofNat m => exact .bare (hdecimal m)
    | negSucc m => exact .minus (hdecimal (m + 1))
  | unsigned h => exact .bare (hdecimal _)

namespace FitsInto

theorem isInteger (h : narrow.FitsInto wide) : narrow.isInteger = true ∧ wide.isInteger = true := by
  cases h <;> exact ⟨rfl, rfl⟩

theorem denotes (h : narrow.FitsInto wide) (hd : narrow.Denotes text n) : wide.Denotes text n := by
  cases hd with
  | bare hd => exact .bare hd
  | plus hd => exact .plus hd
  | minus hd =>
    cases h
    exact .minus hd

theorem holds (h : narrow.FitsInto wide) (hn : narrow.Holds n value) : wide.Holds n value := by
  cases h with
  | @signed narrow wide hbits =>
    have hpow : 2 ^ (narrow.bits - 1) ≤ 2 ^ (wide.bits - 1) :=
      Nat.pow_le_pow_right Nat.two_pos (Nat.sub_le_sub_right hbits 1)
    have hrange : (2 : Int) ^ (narrow.bits - 1) ≤ 2 ^ (wide.bits - 1) := by exact_mod_cast hpow
    cases hn with
    | signed hl hu => exact .signed ((Int.neg_le_neg hrange).trans hl) (Int.lt_of_lt_of_le hu hrange)
  | unsigned hbits =>
    cases hn with
    | unsigned hn => exact .unsigned (Nat.lt_of_lt_of_le hn (Nat.pow_le_pow_right Nat.two_pos hbits))

end FitsInto

end Scalar

namespace ValueType

variable {κ : Type}

theorem read_eq_ok_iff {type : ValueType κ} {formats : Formats} {text : Text} {value : Value κ} :
    type.read formats text = .ok value ↔ type.read? formats text = some value := by
  rw [read]
  cases type.read? formats text <;> simp

theorem readSize_eq_ok_iff {text : Text} {value : Value κ} (formats : Formats) :
    readSize text = .ok value ↔
      (scalar (.unsigned .w64) : ValueType κ).read formats text = .ok value := by
  rw [read_eq_ok_iff, readSize, read?, Scalar.read?]
  cases Text.unsignedOf? .w64 text <;> simp

-- A text is read as an integer exactly if it is made up of digits behind at most one sign, and what
-- they stand for is in the range of the type. Nothing is cut off: the value is this very integer.
-- Sizes are read in the same way. So every integer is read from its own text, and wider types read
-- the same from a text as narrower ones.
theorem read_integer_exactly (formats : Formats) :
    (∀ type : Scalar, type.isInteger = true → ∀ (text : Text) (value : Value κ),
      (scalar type).read formats text = .ok value ↔
        ∃ n, type.Denotes text n ∧ type.Holds n value) ∧
    (∀ (text : Text) (value : Value κ), readSize text = .ok value ↔
      (scalar (.unsigned .w64) : ValueType κ).read formats text = .ok value) ∧
    (∀ (type : Scalar) (n : Int) (value : Value κ), type.Holds n value →
      (scalar type).read formats (Text.ofInt n) = .ok value) ∧
    ∀ (narrow wide : Scalar), narrow.FitsInto wide → ∀ (text : Text) (value : Value κ),
      (scalar narrow).read formats text = .ok value →
        (scalar wide).read formats text = .ok value := by
  have hread : ∀ type : Scalar, type.isInteger = true → ∀ (text : Text) (value : Value κ),
      (scalar type).read formats text = .ok value ↔
        ∃ n, type.Denotes text n ∧ type.Holds n value := fun type hi text value =>
    read_eq_ok_iff.trans (Scalar.read?_eq_some_iff hi formats)
  refine ⟨hread, fun text value => readSize_eq_ok_iff formats, fun type n value h => ?_,
    fun narrow wide hf text value h => ?_⟩
  · exact (hread type (Scalar.isInteger_of_holds h) _ value).mpr ⟨n, Scalar.denotes_ofInt h, h⟩
  · obtain ⟨n, hd, hn⟩ := (hread narrow hf.isInteger.1 text value).mp h
    exact (hread wide hf.isInteger.2 text value).mpr ⟨n, hf.denotes hd, hf.holds hn⟩

-- Zeros may stand before the digits, and the range of a signed type reaches one further below zero.
theorem read_integer_exactly_least :
    let least : Value Empty := .integer (-128)
    (Scalar.signed .w8).isInteger = true ∧ (Scalar.signed .w8).Holds (-128) least ∧
      (Scalar.signed .w8).FitsInto (.signed .w64) ∧
      (scalar (.signed .w8)).read {} "-128".toList = .ok least ∧
      (scalar (.signed .w64)).read {} "-128".toList = .ok least ∧
      (∃ n, (Scalar.signed .w8).Denotes "-00128".toList n ∧ (Scalar.signed .w8).Holds n least) ∧
      ¬∃ n value, (Scalar.signed .w8).Denotes "+128".toList n ∧
        (Scalar.signed .w8).Holds n (value : Value Empty) := by
  intro least
  have hholds : (Scalar.signed .w8).Holds (-128) least := .signed (by decide) (by decide)
  have hfits : (Scalar.signed .w8).FitsInto (.signed .w64) := .signed (by decide)
  obtain ⟨hread, -, hwritten, hwider⟩ := read_integer_exactly (κ := Empty) {}
  have hleast := hwritten (.signed .w8) (-128) least hholds
  have hpadded : (scalar (.signed .w8)).read {} "-00128".toList = .ok least := rfl
  have hbeyond : (scalar (.signed .w8) : ValueType Empty).read {} "+128".toList =
    .error (.unreadable "+128".toList "i8".toList) := rfl
  refine ⟨rfl, hholds, hfits, hleast, hwider _ _ hfits _ _ hleast, (hread _ rfl _ _).mp hpadded,
    ?_⟩
  rintro ⟨n, value, hn⟩
  cases hbeyond.symm.trans ((hread _ rfl _ value).mpr ⟨n, hn⟩)

end ValueType

end RecordFilter
