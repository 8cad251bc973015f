import Mathlib.Tactic.Ring
import Mathlib.Tactic.SplitIfs
import RecordFilter.Number.Binary64

namespace RecordFilter

theorem log2_mono {n m : Nat} (hn : n ≠ 0) (h : n ≤ m) : Nat.log2 n ≤ Nat.log2 m :=
  (Nat.le_log2 (by omega)).mpr ((Nat.log2_self_le hn).trans h)

theorem log2_mul_two_pow {n : Nat} (hn : n ≠ 0) (power : Nat) :
    Nat.log2 (n * 2 ^ power) = Nat.log2 n + power := by
  have hpos : 0 < 2 ^ power := Nat.pow_pos (by decide)
  rw [Nat.log2_eq_iff (Nat.mul_ne_zero hn hpos.ne'), Nat.add_right_comm, Nat.pow_add, Nat.pow_add]
  exact ⟨Nat.mul_le_mul_right _ (Nat.log2_self_le hn), Nat.mul_lt_mul_of_pos_right Nat.lt_log2_self hpos⟩

theorem pow_eq_mul (base : Nat) {power first second : Nat} (h : power = first + second) :
    Nat.pow base power = base ^ first * base ^ second := by
  rw [h]
  exact Nat.pow_add base first second

namespace Ratio

theorem round_bounds (ratio : Ratio) :
    ratio.numerator / ratio.denominator ≤ ratio.round ∧
      ratio.round ≤ ratio.numerator / ratio.denominator + 1 := by
  simp only [round]
  split_ifs <;> omega

theorem round_exact (n : Nat) {denominator : Nat} (hd : 0 < denominator) :
    (mk (n * denominator) denominator).round = n := by
  simp [round, Nat.mul_div_cancel n hd, hd]

theorem round_mono (denominator : Nat) {numerator other : Nat} (h : numerator ≤ other) :
    (mk numerator denominator).round ≤ (mk other denominator).round := by
  have hn := Nat.div_add_mod numerator denominator
  have ho := Nat.div_add_mod other denominator
  rcases Nat.lt_or_eq_of_le (Nat.div_le_div_right (c := denominator) h) with hlt | heq
  · have hupper := (round_bounds ⟨numerator, denominator⟩).2
    have hlower := (round_bounds ⟨other, denominator⟩).1
    exact hupper.trans (Nat.le_trans hlt hlower)
  · rw [heq] at hn
    simp only [round, heq]
    split_ifs <;> omega

theorem scale_natCast (ratio : Ratio) (base power : Nat) :
    ratio.scale base power = ⟨ratio.numerator * base ^ power, ratio.denominator⟩ := by
  rw [scale, if_pos (Int.natCast_nonneg power)]
  rfl

theorem scale_neg_natCast (ratio : Ratio) (base power : Nat) :
    ratio.scale base (-(power : Int)) = ⟨ratio.numerator, ratio.denominator * base ^ power⟩ := by
  cases power with
  | zero => simp [scale]
  | succ power =>
    rw [scale, if_neg (by omega), Int.neg_neg]
    rfl

theorem scale_double {n : Nat} {exponent : Int} (he : 0 ≤ exponent) :
    (mk (2 * n) 1).scale 2 exponent = (mk n 1).scale 2 (exponent + 1) := by
  obtain ⟨power, rfl⟩ := Int.eq_ofNat_of_zero_le he
  have hnext : (power : Int) + 1 = ((power + 1 : Nat) : Int) := rfl
  rw [hnext, scale_natCast, scale_natCast, Nat.pow_succ, Nat.mul_comm 2 n, Nat.mul_assoc,
    Nat.mul_comm 2]

theorem numerator_scale_ne_zero {n : Nat} (hn : n ≠ 0) (exponent : Int) :
    ((mk n 1).scale 2 exponent).numerator ≠ 0 := by
  obtain ⟨power, rfl | rfl⟩ := exponent.eq_nat_or_neg
  · rw [scale_natCast]
    exact Nat.mul_ne_zero hn (Nat.pow_pos (by decide)).ne'
  · rwa [scale_neg_natCast]

theorem binaryExponent_natural {n : Nat} (hn : n ≠ 0) : (mk n 1).binaryExponent = Nat.log2 n := by
  have hone : Nat.log2 1 = 0 := by decide
  have hguess : (Nat.log2 n : Int) - Nat.log2 1 = Nat.log2 n := by simp [hone]
  simp only [binaryExponent, hguess, scale_natCast, Nat.one_mul, Nat.mul_one]
  exact if_pos (Nat.log2_self_le hn)

theorem round_scale_scale (n : Nat) (exponent : Int) :
    (((mk n 1).scale 2 exponent).scale 2 (-exponent)).round = n := by
  obtain ⟨power, rfl | rfl⟩ := exponent.eq_nat_or_neg
  · rw [scale_natCast, scale_neg_natCast, Nat.one_mul]
    exact round_exact n (Nat.pow_pos (by decide))
  · rw [Int.neg_neg, scale_neg_natCast, scale_natCast, Nat.one_mul]
    exact round_exact n (Nat.pow_pos (by decide))

theorem binaryExponent_scale {n : Nat} (hn : n ≠ 0) {exponent : Int}
    (he : 0 ≤ Nat.log2 n + exponent) :
    ((mk n 1).scale 2 exponent).binaryExponent = Nat.log2 n + exponent := by
  obtain ⟨power, rfl | rfl⟩ := exponent.eq_nat_or_neg
  · have hpos : 0 < 2 ^ power := Nat.pow_pos (by decide)
    rw [scale_natCast, binaryExponent_natural (Nat.mul_ne_zero hn hpos.ne'), log2_mul_two_pow hn]
    exact Int.natCast_add _ _
  · obtain ⟨rest, hrest⟩ := Nat.exists_eq_add_of_le (show power ≤ Nat.log2 n by omega)
    have hguess : (Nat.log2 n : Int) - power = rest := by omega
    have hpower : 2 ^ rest * 2 ^ power ≤ n := by
      rw [← Nat.pow_add, Nat.add_comm, ← hrest]
      exact Nat.log2_self_le hn
    rw [scale_neg_natCast, Nat.one_mul, ← Int.sub_eq_add_neg, hguess]
    simp only [binaryExponent, Nat.log2_two_pow, hguess, scale_natCast, Nat.one_mul, Nat.mul_one]
    exact if_pos hpower

end Ratio

namespace Binary64

-- All digits of a positive integer if there are 53 at most, with zeros behind them, and else as many as
-- the nearest number has.
def significandOf (n : Nat) : Nat := ((Ratio.mk n 1).scale 2 (52 - (Nat.log2 n : Int))).round

theorem significandOf_of_le {n : Nat} (h : Nat.log2 n ≤ 52) :
    significandOf n = n * 2 ^ (52 - Nat.log2 n) := by
  have hpower : (52 - (Nat.log2 n : Int)) = ((52 - Nat.log2 n : Nat) : Int) := by omega
  rw [significandOf, hpower, Ratio.scale_natCast]
  simpa using Ratio.round_exact (n * 2 ^ (52 - Nat.log2 n)) Nat.one_pos

theorem significandOf_of_ge {n : Nat} (h : 52 ≤ Nat.log2 n) :
    significandOf n = (Ratio.mk n (2 ^ (Nat.log2 n - 52))).round := by
  have hpower : (52 - (Nat.log2 n : Int)) = -((Nat.log2 n - 52 : Nat) : Int) := by omega
  rw [significandOf, hpower, Ratio.scale_neg_natCast, Nat.one_mul]

theorem significandOf_bounds {n : Nat} (hn : n ≠ 0) :
    fullSignificand ≤ significandOf n ∧ significandOf n ≤ 2 * fullSignificand := by
  have hfull : fullSignificand = 2 ^ 52 := rfl
  have hlow := Nat.log2_self_le hn
  have hhigh := Nat.lt_log2_self (n := n)
  rcases Nat.le_total (Nat.log2 n) 52 with hk | hk
  · obtain ⟨gap, hgap⟩ := Nat.exists_eq_add_of_le hk
    rw [significandOf_of_le hk, hfull, hgap, Nat.add_sub_cancel_left, Nat.pow_add]
    have hl := Nat.mul_le_mul_right (2 ^ gap) hlow
    have hh := Nat.mul_le_mul_right (2 ^ gap) hhigh.le
    refine ⟨hl, hh.trans_eq ?_⟩
    ring
  · obtain ⟨gap, hgap⟩ := Nat.exists_eq_add_of_le hk
    have hpos : 0 < 2 ^ gap := Nat.pow_pos (by decide)
    rw [significandOf_of_ge hk, hfull, hgap, Nat.add_sub_cancel_left]
    rw [hgap, Nat.pow_add] at hlow
    rw [hgap] at hhigh
    constructor
    · calc 2 ^ 52 = (Ratio.mk (2 ^ 52 * 2 ^ gap) (2 ^ gap)).round := (Ratio.round_exact _ hpos).symm
        _ ≤ (Ratio.mk n (2 ^ gap)).round := Ratio.round_mono _ hlow
    · have hh : n ≤ 2 * 2 ^ 52 * 2 ^ gap := hhigh.le.trans_eq (by ring)
      calc (Ratio.mk n (2 ^ gap)).round
          ≤ (Ratio.mk (2 * 2 ^ 52 * 2 ^ gap) (2 ^ gap)).round := Ratio.round_mono _ hh
        _ = 2 * 2 ^ 52 := Ratio.round_exact _ hpos

theorem nearest_natural {n : Nat} (hn : n ≠ 0) :
    Precision.double.nearest ⟨n, 1⟩ = (significandOf n, (Nat.log2 n : Int) - 52) := by
  have hexponent : max ((Ratio.mk n 1).binaryExponent - (Precision.double.digits - 1 : Nat))
      Precision.double.finest = (Nat.log2 n : Int) - 52 := by
    rw [Ratio.binaryExponent_natural hn]
    simp only [Precision.double]
    omega
  have hback : -((Nat.log2 n : Int) - 52) = 52 - Nat.log2 n := by omega
  simp only [Precision.nearest, hexponent, hback]
  rfl

-- A significand and an exponent that a number can have are the nearest to themselves.
theorem nearest_scale {significand : Nat} (hl : fullSignificand ≤ significand)
    (hu : significand < 2 * fullSignificand) {exponent : Int} (he : -52 ≤ exponent) :
    Precision.double.nearest ((Ratio.mk significand 1).scale 2 exponent) =
      (significand, exponent) := by
  have hne : significand ≠ 0 := by
    rintro rfl
    exact absurd hl (by decide)
  have hlog : Nat.log2 significand = 52 := (Nat.log2_eq_iff hne).mpr ⟨hl, hu⟩
  have hexponent : max (((Ratio.mk significand 1).scale 2 exponent).binaryExponent -
      (Precision.double.digits - 1 : Nat)) Precision.double.finest = exponent := by
    rw [Ratio.binaryExponent_scale hne (by omega), hlog]
    simp only [Precision.double]
    omega
  simp only [Precision.nearest, hexponent, Ratio.round_scale_scale]

theorem significandOf_lt {n : Nat} (h : Nat.log2 n ≤ 52) :
    significandOf n < 2 * fullSignificand := by
  have hpos : 0 < 2 ^ (52 - Nat.log2 n) := Nat.pow_pos (by decide)
  have hpower : 2 ^ (Nat.log2 n + 1) * 2 ^ (52 - Nat.log2 n) = 2 * fullSignificand := by
    rw [← Nat.pow_add, show Nat.log2 n + 1 + (52 - Nat.log2 n) = 53 by omega]
    rfl
  rw [significandOf_of_le h, ← hpower]
  exact Nat.mul_lt_mul_of_pos_right Nat.lt_log2_self hpos

-- The magnitude of an integer's number, were there no largest one.
def place (n : Nat) : Nat :=
  if n = 0 then 0 else (Nat.log2 n + 1022) * fullSignificand + significandOf n

theorem place_zero : place 0 = 0 := rfl

theorem place_of_ne_zero {n : Nat} (hn : n ≠ 0) :
    place n = (Nat.log2 n + 1022) * fullSignificand + significandOf n := if_neg hn

-- A significand that has been rounded up to one digit more has the next exponent.
theorem doubleMagnitude_nearest {n : Nat} (hn : n ≠ 0) :
    let nearest := Precision.double.nearest
      ((Ratio.mk (significandOf n) 1).scale 2 ((Nat.log2 n : Int) - 52))
    Precision.doubleMagnitude nearest.1 nearest.2 = place n := by
  obtain ⟨hl, hu⟩ := significandOf_bounds hn
  have hdouble : Precision.double.finest = -1074 := rfl
  rw [place_of_ne_zero hn]
  rcases Nat.lt_or_eq_of_le hu with hlt | heq
  · rw [nearest_scale hl hlt (by omega)]
    simp only [Precision.doubleMagnitude, hdouble, if_neg (Nat.not_lt.mpr hl)]
    congr 2
    omega
  · have hlarge : 52 < Nat.log2 n := by
      by_contra hle
      exact absurd (significandOf_lt (Nat.le_of_not_lt hle)) (by omega)
    rw [heq, Ratio.scale_double (by omega), nearest_scale (Nat.le_refl _) (by decide) (by omega)]
    simp only [Precision.doubleMagnitude, hdouble, if_neg (Nat.lt_irrefl _)]
    have hnext : ((Nat.log2 n : Int) - 52 + 1 - -1074).toNat = Nat.log2 n + 1022 + 1 := by omega
    rw [hnext]
    ring

-- What is too large for a finite number lies behind all of them. The limit is kept as a variable, for
-- no term should ask for the value of so large a power.
theorem infiniteMagnitude_le_place {n : Nat} (hn : n ≠ 0) {rounded : Ratio}
    (hrounded : rounded = (Ratio.mk (significandOf n) 1).scale 2 ((Nat.log2 n : Int) - 52))
    {limit : Nat} (h : Nat.pow 2 limit * rounded.denominator ≤ rounded.numerator)
    (hlimit : limit = 1024) : infiniteMagnitude ≤ place n := by
  obtain ⟨hl, hu⟩ := significandOf_bounds hn
  obtain ⟨spare, hspare⟩ : ∃ spare, spare = 971 := ⟨_, rfl⟩
  have hinfinite : infiniteMagnitude = 2047 * fullSignificand := rfl
  have hfull : 2 * fullSignificand = 2 ^ 53 := rfl
  rw [pow_eq_mul 2 (show limit = 53 + spare by omega), hrounded] at h
  rw [place_of_ne_zero hn, hinfinite]
  rw [hfull] at hu
  rcases Nat.lt_or_ge (Nat.log2 n) 52 with hk | hk
  · -- the number is at most a significand, and so is far from the limit
    have hpower : (Nat.log2 n : Int) - 52 = -((52 - Nat.log2 n : Nat) : Int) := by omega
    rw [hpower, Ratio.scale_neg_natCast, Nat.one_mul, Nat.mul_assoc, ← Nat.pow_add] at h
    dsimp only at h
    have hone : 1 < 2 ^ (spare + (52 - Nat.log2 n)) := Nat.one_lt_two_pow (by omega)
    have hlt := Nat.mul_lt_mul_of_pos_left hone (show 0 < 2 ^ 53 by decide)
    omega
  · obtain ⟨power, hpower⟩ := Nat.exists_eq_add_of_le hk
    have hexponent : (Nat.log2 n : Int) - 52 = (power : Int) := by omega
    rw [hexponent, Ratio.scale_natCast, Nat.mul_one] at h
    have hlarge : spare ≤ power := by
      have hle := h.trans (Nat.mul_le_mul_right (2 ^ power) hu)
      have hpowers := Nat.le_of_mul_le_mul_left hle (show 0 < 2 ^ 53 by decide)
      exact (Nat.pow_le_pow_iff_right (by decide)).mp hpowers
    rcases Nat.lt_or_eq_of_le hlarge with hlt | rfl
    · have hmul : 2046 * fullSignificand ≤ (Nat.log2 n + 1022) * fullSignificand :=
        Nat.mul_le_mul_right _ (by omega)
      omega
    · have hs : 2 ^ 53 ≤ significandOf n := Nat.le_of_mul_le_mul_right h (Nat.pow_pos (by decide))
      rw [hpower, hspare]
      omega

theorem ofMagnitude_of_ge (negative : Bool) {magnitude : Nat} (h : infiniteMagnitude ≤ magnitude) :
    ofMagnitude negative magnitude = infinite negative := dif_neg (Nat.not_lt.mpr h)

@[simp]
theorem magnitude_ofMagnitude (negative : Bool) (magnitude : Nat) :
    (ofMagnitude negative magnitude).magnitude = min magnitude infiniteMagnitude := by
  by_cases h : magnitude < infiniteMagnitude
  · rw [ofMagnitude, dif_pos h, Nat.min_eq_left h.le]
  · rw [ofMagnitude_of_ge negative (Nat.le_of_not_lt h), Nat.min_eq_right (Nat.le_of_not_lt h)]
    rfl

@[simp]
theorem negative_ofMagnitude (negative : Bool) (magnitude : Nat) :
    (ofMagnitude negative magnitude).negative = negative := by
  unfold ofMagnitude
  split <;> rfl

theorem ofRatio_natural (negative : Bool) (n : Nat) :
    ofRatio Precision.double negative ⟨n, 1⟩ = ofMagnitude negative (place n) := by
  by_cases hn : n = 0
  · subst hn
    rfl
  have hsignificand : significandOf n ≠ 0 := by
    intro hzero
    have hbounds := (significandOf_bounds hn).1
    rw [hzero] at hbounds
    exact absurd hbounds (by decide)
  simp only [ofRatio, if_neg hn, nearest_natural hn]
  split
  · rename_i hlimit
    exact (ofMagnitude_of_ge negative (infiniteMagnitude_le_place hn rfl hlimit rfl)).symm
  · rw [if_neg (Ratio.numerator_scale_ne_zero hsignificand _)]
    exact congrArg (ofMagnitude negative) (doubleMagnitude_nearest hn)

theorem significandOf_mono {n m : Nat} (h : n ≤ m) (hlog : Nat.log2 n = Nat.log2 m) :
    significandOf n ≤ significandOf m := by
  rcases Nat.le_total (Nat.log2 m) 52 with hk | hk
  · rw [significandOf_of_le hk, significandOf_of_le (hlog.trans_le hk), hlog]
    exact Nat.mul_le_mul_right _ h
  · rw [significandOf_of_ge hk, significandOf_of_ge (hk.trans_eq hlog.symm), hlog]
    exact Ratio.round_mono _ h

-- One binary digit more outweighs the whole range of a significand.
theorem significand_step {k l : Nat} (h : k < l) :
    (k + 1022) * fullSignificand + 2 * fullSignificand ≤
      (l + 1022) * fullSignificand + fullSignificand := by
  have hstep := Nat.mul_le_mul_right fullSignificand (show k + 1022 + 1 ≤ l + 1022 by omega)
  rw [Nat.succ_mul] at hstep
  omega

theorem place_mono {n m : Nat} (h : n ≤ m) : place n ≤ place m := by
  by_cases hn : n = 0
  · subst hn
    exact Nat.zero_le _
  have hm : m ≠ 0 := by omega
  rw [place_of_ne_zero hn, place_of_ne_zero hm]
  rcases Nat.lt_or_eq_of_le (log2_mono hn h) with hlt | heq
  · have hstep := significand_step hlt
    have hupper := (significandOf_bounds hn).2
    have hlower := (significandOf_bounds hm).1
    omega
  · rw [heq]
    exact Nat.add_le_add_left (significandOf_mono h heq) _

-- An integer of 53 digits at most shares its place with no other one.
theorem place_lt {n m : Nat} (h : n < m) (hn : n < 2 ^ 53) : place n < place m := by
  have hm : m ≠ 0 := by omega
  have hlower := (significandOf_bounds hm).1
  have hfull : 0 < fullSignificand := by decide
  by_cases hzero : n = 0
  · subst hzero
    rw [place_zero, place_of_ne_zero hm]
    omega
  have hlog : Nat.log2 n ≤ 52 := Nat.le_of_lt_succ ((Nat.log2_lt hzero).mpr hn)
  rw [place_of_ne_zero hzero, place_of_ne_zero hm]
  rcases Nat.lt_or_eq_of_le (log2_mono hzero h.le) with hlt | heq
  · have hstep := significand_step hlt
    have hupper := significandOf_lt hlog
    omega
  · rw [significandOf_of_le hlog, significandOf_of_le (heq ▸ hlog), heq]
    exact Nat.add_lt_add_left (Nat.mul_lt_mul_of_pos_right h (Nat.pow_pos (by decide))) _

theorem place_lt_infiniteMagnitude {n : Nat} (hn : n < 2 ^ 53) : place n < infiniteMagnitude := by
  by_cases hzero : n = 0
  · subst hzero
    decide
  have hinfinite : infiniteMagnitude = (1024 + 1022) * fullSignificand + fullSignificand := rfl
  have hlog : Nat.log2 n ≤ 52 := Nat.le_of_lt_succ ((Nat.log2_lt hzero).mpr hn)
  have hstep := significand_step (show Nat.log2 n < 1024 by omega)
  have hupper := significandOf_lt hlog
  rw [place_of_ne_zero hzero, hinfinite]
  omega

theorem ofInt_eq_ofMagnitude (n : Int) : ofInt n = ofMagnitude (decide (n < 0)) (place n.natAbs) :=
  ofRatio_natural _ _

theorem isNaN_ofInt (n : Int) : (ofInt n).isNaN = false := by
  simp [isNaN, ofInt_eq_ofMagnitude]

theorem rank_ofInt_of_nonneg {n : Int} (h : 0 ≤ n) :
    (ofInt n).rank = (min (place n.natAbs) infiniteMagnitude : Nat) := by
  simp [rank, ofInt_eq_ofMagnitude, Int.not_lt.mpr h]

theorem rank_ofInt_of_neg {n : Int} (h : n < 0) :
    (ofInt n).rank = -(min (place n.natAbs) infiniteMagnitude : Nat) := by
  simp [rank, ofInt_eq_ofMagnitude, h]

-- Rounding may make different integers equal, but it never turns their order around.
theorem rank_ofInt_mono {n m : Int} (h : n ≤ m) : (ofInt n).rank ≤ (ofInt m).rank := by
  rcases Int.lt_or_le n 0 with hn | hn <;> rcases Int.lt_or_le m 0 with hm | hm
  · have hplace := place_mono (show m.natAbs ≤ n.natAbs by omega)
    rw [rank_ofInt_of_neg hn, rank_ofInt_of_neg hm]
    omega
  · rw [rank_ofInt_of_neg hn, rank_ofInt_of_nonneg hm]
    omega
  · omega
  · have hplace := place_mono (show n.natAbs ≤ m.natAbs by omega)
    rw [rank_ofInt_of_nonneg hn, rank_ofInt_of_nonneg hm]
    omega

-- Two integers get the same number only if one of them is beyond 2^53.
theorem rank_ofInt_lt {n m : Int} (h : n < m) (hn : n.natAbs ≤ 2 ^ 53) (hm : m.natAbs ≤ 2 ^ 53) :
    (ofInt n).rank < (ofInt m).rank := by
  rcases Int.lt_or_le n 0 with hneg | hnonneg <;> rcases Int.lt_or_le m 0 with hmneg | hmnonneg
  · have hsmall : m.natAbs < 2 ^ 53 := by omega
    have hplace := place_lt (show m.natAbs < n.natAbs by omega) hsmall
    have hfinite := place_lt_infiniteMagnitude hsmall
    rw [rank_ofInt_of_neg hneg, rank_ofInt_of_neg hmneg]
    omega
  · have hplace := place_lt (show 0 < n.natAbs by omega) (by decide)
    have hinfinite : 0 < infiniteMagnitude := by decide
    rw [rank_ofInt_of_neg hneg, rank_ofInt_of_nonneg hmnonneg]
    omega
  · omega
  · have hsmall : n.natAbs < 2 ^ 53 := by omega
    have hplace := place_lt (show n.natAbs < m.natAbs by omega) hsmall
    have hfinite := place_lt_infiniteMagnitude hsmall
    rw [rank_ofInt_of_nonneg hnonneg, rank_ofInt_of_nonneg hmnonneg]
    omega

end Binary64

end RecordFilter
