import RecordFilter.Proofs.Rounding
import RecordFilter.Proofs.Typing

namespace RecordFilter

instance : Std.TransOrd Date :=
  inferInstanceAs (Std.TransCmp (compareLex (compareOn Date.year)
    (compareLex (compareOn Date.month) (compareOn Date.day))))

instance : Std.TransOrd DateTime :=
  inferInstanceAs (Std.TransCmp (compareLex (compareOn DateTime.date)
    (compareLex (compareOn DateTime.second) (compareOn DateTime.nanosecond))))

-- The ends of a chain compare as its first strict step does.
theorem compare_eq_then {α : Type} [Ord α] [Std.TransOrd α] {x y z : α}
    (hf : (compare x y).isLE = true) (hs : (compare y z).isLE = true) :
    compare x z = (compare x y).then (compare y z) := by
  rcases Ordering.isLE_iff_eq_lt_or_eq_eq.mp hf with hf | hf <;>
    rcases Ordering.isLE_iff_eq_lt_or_eq_eq.mp hs with hs | hs <;> rw [hf, hs]
  · exact Std.TransCmp.lt_trans hf hs
  · exact Std.TransCmp.lt_of_lt_of_eq hf hs
  · exact Std.TransCmp.lt_of_eq_of_lt hf hs
  · exact Std.TransCmp.eq_trans hf hs

theorem compare_natCast (n m : Nat) : compare (n : Int) m = compare n m := by
  rcases Nat.lt_trichotomy n m with h | rfl | h
  · rw [Nat.compare_eq_lt.mpr h, Int.compare_eq_lt.mpr (Int.ofNat_lt.mpr h)]
  · rw [Std.ReflOrd.compare_self, Std.ReflOrd.compare_self]
  · rw [Nat.compare_eq_gt.mpr h, Int.compare_eq_gt.mpr (Int.ofNat_lt.mpr h)]

-- Comparing rounded integers first, and the integers themselves only where these are equal, comes to
-- comparing the integers.
theorem Binary64.compare_rank_ofInt_then (n m : Int) :
    (compare (ofInt n).rank (ofInt m).rank).then (compare n m) = compare n m := by
  rcases Int.lt_trichotomy n m with h | rfl | h
  · rw [Int.compare_eq_lt.mpr h]
    rcases Int.lt_or_eq_of_le (rank_ofInt_mono h.le) with hrank | hrank
    · rw [Int.compare_eq_lt.mpr hrank]
      rfl
    · rw [hrank, Std.ReflOrd.compare_self]
      rfl
  · rw [Std.ReflOrd.compare_self, Std.ReflOrd.compare_self]
    rfl
  · rw [Int.compare_eq_gt.mpr h]
    rcases Int.lt_or_eq_of_le (rank_ofInt_mono h.le) with hrank | hrank
    · rw [Int.compare_eq_gt.mpr hrank]
      rfl
    · rw [hrank, Std.ReflOrd.compare_self]
      rfl

namespace Binary64

theorem order?_eq_some_iff {x y : Binary64} {order : Ordering} :
    x.order? y = some order ↔
      x.isNaN = false ∧ y.isNaN = false ∧ compare x.rank y.rank = order := by
  rw [order?]
  cases x.isNaN <;> cases y.isNaN <;> simp

theorem order?_eq_then {x y z : Binary64} {first second : Ordering}
    (hxy : x.order? y = some first) (hyz : y.order? z = some second)
    (hf : first.isLE = true) (hs : second.isLE = true) :
    x.order? z = some (first.then second) := by
  obtain ⟨hx, -, rfl⟩ := order?_eq_some_iff.mp hxy
  obtain ⟨-, hz, rfl⟩ := order?_eq_some_iff.mp hyz
  exact order?_eq_some_iff.mpr ⟨hx, hz, compare_eq_then hf hs⟩

theorem order?_comm_of_eq {x y : Binary64} (h : x.order? y = some .eq) : y.order? x = some .eq := by
  obtain ⟨hx, hy, hrank⟩ := order?_eq_some_iff.mp h
  exact order?_eq_some_iff.mpr ⟨hy, hx, Std.OrientedCmp.eq_symm hrank⟩

theorem order?_ofInt (n m : Int) :
    (ofInt n).order? (ofInt m) = some (compare (ofInt n).rank (ofInt m).rank) :=
  order?_eq_some_iff.mpr ⟨isNaN_ofInt n, isNaN_ofInt m, rfl⟩

end Binary64

namespace Value

variable {κ : Type}

def isCustom : Value κ → Bool
  | custom _ => true
  | _ => false

-- What an integer of either kind stands for.
def integer? : Value κ → Option Int
  | integer value => some value
  | unsigned value => some value
  | _ => none

-- The floating-point number of a number. Integers are rounded to one.
def number? : Value κ → Option Binary64
  | integer value => some (Binary64.ofInt value)
  | unsigned value => some (Binary64.ofInt value)
  | float value => some value
  | _ => none

-- What is left to compare of integers when their floating-point numbers are equal.
def tie (a b : Value κ) : Ordering :=
  match a.integer?, b.integer? with
  | some n, some m => compare n m
  | _, _ => .eq

-- The comparisons that have an answer, and what the answer rests on.
inductive Compares : Value κ → Value κ → Ordering → Prop where
  | string (a b : Text) : Compares (string a) (string b) (compare a b)
  | char (a b : Char) : Compares (char a) (char b) (compare a b)
  | date (a b : Date) : Compares (date a) (date b) (compare a b)
  | dateTime (a b : DateTime) : Compares (dateTime a) (dateTime b) (compare a b)
  | member {a b : Member} (h : a.typeName = b.typeName) :
      Compares (member a) (member b) (compare a.ordinal b.ordinal)
  | number {a b : Value κ} {x y : Binary64} {order : Ordering} (ha : a.number? = some x)
      (hb : b.number? = some y) (h : x.order? y = some order) :
      Compares a b (order.then (tie a b))

theorem number?_of_integer? {a : Value κ} {n : Int} (h : a.integer? = some n) :
    a.number? = some (Binary64.ofInt n) := by
  cases a <;> cases h <;> rfl

variable [CustomValue κ] {a b c : Value κ}

-- An integer that is not below zero is compared as the natural number that it is.
theorem compareSigned_eq (n : Int) (m : Nat) : compareSigned n m = compare n (m : Int) := by
  rw [compareSigned]
  split
  · next hneg =>
    have hlt : n < (m : Int) := by omega
    exact (Int.compare_eq_lt.mpr hlt).symm
  · next hpos =>
    have hcast : (n.toNat : Int) = n := Int.toNat_of_nonneg (by omega)
    rw [← compare_natCast, hcast]

theorem order?_of_integer? {n m : Int} (ha : a.integer? = some n) (hb : b.integer? = some m) :
    a.order? b = some (compare n m) := by
  cases a <;> cases ha <;> cases b <;> cases hb
  · rfl
  · exact congrArg some (compareSigned_eq _ _)
  · rw [order?, compareSigned_eq, ← Std.OrientedOrd.eq_swap]
  · exact congrArg some (compare_natCast _ _).symm

theorem order?_of_number? {x y : Binary64} (ha : a.number? = some x) (hb : b.number? = some y)
    (h : a.integer? = none ∨ b.integer? = none) : a.order? b = x.order? y := by
  cases a <;> cases ha <;> cases b <;> cases hb <;> simp_all [integer?, order?]

-- Integers compare as they are, but also as their floating-point numbers do wherever these differ.
theorem order?_eq_of_number? {x y : Binary64} (ha : a.number? = some x) (hb : b.number? = some y) :
    a.order? b = (x.order? y).map fun order => order.then (tie a b) := by
  rcases hn : a.integer? with _ | n
  · simp [order?_of_number? ha hb (.inl hn), tie, hn]
  · rcases hm : b.integer? with _ | m
    · simp [order?_of_number? ha hb (.inr hm), tie, hn, hm]
    · rw [number?_of_integer? hn] at ha
      rw [number?_of_integer? hm] at hb
      cases ha
      cases hb
      simp only [order?_of_integer? hn hm, tie, hn, hm, Binary64.order?_ofInt, Option.map_some,
        Binary64.compare_rank_ofInt_then]

theorem isSome_number?_of_order? {order : Ordering} (h : a.order? b = some order) :
    a.number?.isSome = b.number?.isSome := by
  cases a <;> cases b <;> first | rfl | cases h

theorem exists_number? {order : Ordering} (h : a.order? b = some order) {x : Binary64}
    (ha : a.number? = some x) : ∃ y, b.number? = some y := by
  rw [← Option.isSome_iff_exists, ← isSome_number?_of_order? h, ha]
  rfl

theorem exists_number?_left {order : Ordering} (h : a.order? b = some order) {y : Binary64}
    (hb : b.number? = some y) : ∃ x, a.number? = some x := by
  rw [← Option.isSome_iff_exists, isSome_number?_of_order? h, hb]
  rfl

theorem order?_eq_some_iff (ha : a.isCustom = false) {order : Ordering} :
    a.order? b = some order ↔ Compares a b order := by
  constructor
  · intro h
    rcases hx : a.number? with _ | x
    · cases a with
      | string a => cases b <;> cases h; exact .string a _
      | bool a => cases b <;> cases h
      | char a => cases b <;> cases h; exact .char a _
      | integer a | unsigned a | float a => cases hx
      | date a => cases b <;> cases h; exact .date a _
      | dateTime a => cases b <;> cases h; exact .dateTime a _
      | member a =>
        cases b with
        | member b =>
          obtain ⟨hname, horder⟩ := Option.ite_none_right_eq_some.mp h
          cases horder
          exact .member hname
        | _ => cases h
      | custom a => cases ha
    · obtain ⟨y, hy⟩ := exists_number? h hx
      rw [order?_eq_of_number? hx hy] at h
      obtain ⟨rounded, hrounded, rfl⟩ := Option.map_eq_some_iff.mp h
      exact .number hx hy hrounded
  · intro h
    cases h with
    | number ha hb h => rw [order?_eq_of_number? ha hb, h, Option.map_some]
    | member h => exact if_pos h
    | _ => rfl

-- A floating-point number to which two different integers are equal.
def Blurs (x a b : Value κ) : Prop :=
  x.integer? = none ∧ x.order? a = some .eq ∧ x.order? b = some .eq ∧
    ∃ n m, a.integer? = some n ∧ b.integer? = some m ∧ n ≠ m

def Blurred (a b c : Value κ) : Prop := Blurs a b c ∨ Blurs b a c ∨ Blurs c a b

theorem blurs_iff {x y z : Binary64} (ha : a.number? = some x) (hb : b.number? = some y)
    (hc : c.number? = some z) (hxy : x.order? y = some .eq) (hxz : x.order? z = some .eq) :
    Blurs a b c ↔ a.integer? = none ∧ ∃ n m, b.integer? = some n ∧ c.integer? = some m ∧ n ≠ m := by
  constructor
  · rintro ⟨hnone, -, -, hdifferent⟩
    exact ⟨hnone, hdifferent⟩
  · rintro ⟨hnone, hdifferent⟩
    refine ⟨hnone, ?_, ?_, hdifferent⟩
    · rw [order?_of_number? ha hb (.inl hnone), hxy]
    · rw [order?_of_number? ha hc (.inl hnone), hxz]

-- What is equal to a third number is in one place with it.
theorem Blurs.order?_eq (h : Blurs a b c) {x y z : Binary64} (ha : a.number? = some x)
    (hb : b.number? = some y) (hc : c.number? = some z) :
    x.order? y = some .eq ∧ x.order? z = some .eq := by
  obtain ⟨hnone, hab, hac, -⟩ := h
  rw [order?_of_number? ha hb (.inl hnone)] at hab
  rw [order?_of_number? ha hc (.inl hnone)] at hac
  exact ⟨hab, hac⟩

theorem Blurs.two_pow_lt (h : Blurs a b c) :
    ∃ value ∈ [b, c], ∃ n, value.integer? = some n ∧ 2 ^ 53 < n.natAbs := by
  obtain ⟨-, hab, -, n, m, hn, hm, hne⟩ := id h
  obtain ⟨x, hx⟩ := exists_number?_left hab (number?_of_integer? hn)
  obtain ⟨hxn, hxm⟩ := h.order?_eq hx (number?_of_integer? hn) (number?_of_integer? hm)
  obtain ⟨-, -, hrank⟩ := Binary64.order?_eq_some_iff.mp hxn
  obtain ⟨-, -, hrank'⟩ := Binary64.order?_eq_some_iff.mp hxm
  have hsame : (Binary64.ofInt n).rank = (Binary64.ofInt m).rank :=
    (Std.compare_eq_iff_eq.mp hrank).symm.trans (Std.compare_eq_iff_eq.mp hrank')
  by_contra hsmall
  have hns : n.natAbs ≤ 2 ^ 53 := by
    by_contra hlarge
    exact hsmall ⟨b, by simp, n, hn, Nat.lt_of_not_le hlarge⟩
  have hms : m.natAbs ≤ 2 ^ 53 := by
    by_contra hlarge
    exact hsmall ⟨c, by simp, m, hm, Nat.lt_of_not_le hlarge⟩
  rcases Int.lt_or_gt_of_ne hne with hlt | hlt
  · exact (Binary64.rank_ofInt_lt hlt hns hms).ne hsame
  · exact (Binary64.rank_ofInt_lt hlt hms hns).ne hsame.symm

theorem Blurred.two_pow_lt (h : Blurred a b c) :
    ∃ value ∈ [a, b, c], ∃ n, value.integer? = some n ∧ 2 ^ 53 < n.natAbs := by
  rcases h with h | h | h
  all_goals
    obtain ⟨value, hv, hlarge⟩ := h.two_pow_lt
    simp only [List.mem_cons, List.not_mem_nil, or_false] at hv
    rcases hv with rfl | rfl <;> exact ⟨_, by simp, hlarge⟩

theorem Blurred.order?_eq (h : Blurred a b c) {x y z : Binary64} (ha : a.number? = some x)
    (hb : b.number? = some y) (hc : c.number? = some z) :
    x.order? y = some .eq ∧ y.order? z = some .eq := by
  rcases h with h | h | h
  · obtain ⟨hxy, hxz⟩ := h.order?_eq ha hb hc
    exact ⟨hxy, Binary64.order?_eq_then (Binary64.order?_comm_of_eq hxy) hxz rfl rfl⟩
  · obtain ⟨hyx, hyz⟩ := h.order?_eq hb ha hc
    exact ⟨Binary64.order?_comm_of_eq hyx, hyz⟩
  · obtain ⟨hzx, hzy⟩ := h.order?_eq hc ha hb
    exact ⟨Binary64.order?_eq_then (Binary64.order?_comm_of_eq hzx) hzy rfl rfl,
      Binary64.order?_comm_of_eq hzy⟩

theorem tie_eq_then_iff {x y z : Binary64} (ha : a.number? = some x) (hb : b.number? = some y)
    (hc : c.number? = some z) (hxy : x.order? y = some .eq) (hyz : y.order? z = some .eq)
    (hf : (tie a b).isLE = true) (hs : (tie b c).isLE = true) :
    tie a c = (tie a b).then (tie b c) ↔ ¬ Blurred a b c := by
  have hyx := Binary64.order?_comm_of_eq hxy
  have hzy := Binary64.order?_comm_of_eq hyz
  have hxz : x.order? z = some .eq := Binary64.order?_eq_then hxy hyz rfl rfl
  have hzx := Binary64.order?_comm_of_eq hxz
  rw [Blurred, blurs_iff ha hb hc hxy hxz, blurs_iff hb ha hc hyx hyz, blurs_iff hc ha hb hzx hzy]
  simp only [tie] at hf hs ⊢
  generalize a.integer? = n at hf ⊢
  generalize b.integer? = m at hf hs ⊢
  generalize c.integer? = k at hs ⊢
  -- only two integers beside a floating-point number can be told apart
  cases n with
  | none =>
    cases m with
    | none => cases k <;> simp
    | some m => cases k <;> simp [eq_comm (a := Ordering.eq)]
  | some n =>
    cases m with
    | none => cases k <;> simp
    | some m =>
      cases k with
      | none => simp [eq_comm (a := Ordering.eq)]
      | some k => simpa using compare_eq_then hf hs

theorem order?_trans_of_number? {x y z : Binary64} (ha : a.number? = some x)
    (hb : b.number? = some y) (hc : c.number? = some z) {first second : Ordering}
    (hab : a.order? b = some first) (hbc : b.order? c = some second)
    (hf : first.isLE = true) (hs : second.isLE = true) :
    a.order? c = some (first.then second) ↔ ¬ Blurred a b c := by
  rw [order?_eq_of_number? ha hb] at hab
  rw [order?_eq_of_number? hb hc] at hbc
  obtain ⟨place, hxy, rfl⟩ := Option.map_eq_some_iff.mp hab
  obtain ⟨next, hyz, rfl⟩ := Option.map_eq_some_iff.mp hbc
  have hplace : place.isLE = true := by cases place <;> trivial
  have hnext : next.isLE = true := by cases next <;> trivial
  have hxz := Binary64.order?_eq_then hxy hyz hplace hnext
  have hstrict : Blurred a b c → place = .eq ∧ next = .eq := by
    intro h
    obtain ⟨heq, hnext⟩ := h.order?_eq ha hb hc
    exact ⟨Option.some.inj (hxy.symm.trans heq), Option.some.inj (hyz.symm.trans hnext)⟩
  rw [order?_eq_of_number? ha hc, hxz, Option.map_some, Option.some.injEq]
  cases place with
  | lt => exact iff_of_true rfl fun h => nomatch (hstrict h).1
  | gt => cases hplace
  | eq =>
    cases next with
    | lt =>
      refine iff_of_true ?_ fun h => nomatch (hstrict h).2
      generalize tie a b = order at hf ⊢
      cases order <;> trivial
    | gt => cases hnext
    | eq => exact tie_eq_then_iff ha hb hc hxy hyz hf hs

-- All values other than numbers are ordered within their kind.
theorem order?_trans_of_not_number (ha : a.isCustom = false) (hn : a.number? = none)
    {first second : Ordering} (hab : a.order? b = some first) (hbc : b.order? c = some second)
    (hf : first.isLE = true) (hs : second.isLE = true) :
    a.order? c = some (first.then second) := by
  cases (order?_eq_some_iff ha).mp hab with
  | string _ b =>
    cases (order?_eq_some_iff rfl).mp hbc with
    | string _ c => exact congrArg some (compare_eq_then hf hs)
    | number hb _ _ => cases hb
  | char _ b =>
    cases (order?_eq_some_iff rfl).mp hbc with
    | char _ c => exact congrArg some (compare_eq_then hf hs)
    | number hb _ _ => cases hb
  | date _ b =>
    cases (order?_eq_some_iff rfl).mp hbc with
    | date _ c => exact congrArg some (compare_eq_then hf hs)
    | number hb _ _ => cases hb
  | dateTime _ b =>
    cases (order?_eq_some_iff rfl).mp hbc with
    | dateTime _ c => exact congrArg some (compare_eq_then hf hs)
    | number hb _ _ => cases hb
  | member hname =>
    cases (order?_eq_some_iff rfl).mp hbc with
    | member hnext =>
      rw [order?, if_pos (hname.trans hnext)]
      exact congrArg some (compare_eq_then hf hs)
    | number hb _ _ => cases hb
  | number hx _ _ => rw [hn] at hx; cases hx

theorem Blurred.exists_number? (h : Blurred a b c) : ∃ x, a.number? = some x := by
  rcases h with ⟨-, hab, -, n, -, hn, -⟩ | ⟨-, -, -, n, -, hn, -⟩ | ⟨-, -, -, n, -, hn, -⟩
  · exact exists_number?_left hab (number?_of_integer? hn)
  · exact ⟨_, number?_of_integer? hn⟩
  · exact ⟨_, number?_of_integer? hn⟩

-- The order of values is transitive, but for floating-point numbers to which two different integers
-- are equal. One of the integers is beyond 2^53 then.
theorem order?_trans_iff {first second : Ordering} (ha : a.isCustom = false)
    (hab : a.order? b = some first) (hbc : b.order? c = some second)
    (hf : first.isLE = true) (hs : second.isLE = true) :
    (a.order? c = some (first.then second) ↔ ¬ Blurred a b c) ∧
      (Blurred a b c → ∃ value ∈ [a, b, c], ∃ n, value.integer? = some n ∧ 2 ^ 53 < n.natAbs) := by
  refine ⟨?_, Blurred.two_pow_lt⟩
  rcases hx : a.number? with _ | x
  · have hnot : ¬ Blurred a b c := by
      intro h
      obtain ⟨x, hsome⟩ := h.exists_number?
      rw [hx] at hsome
      cases hsome
    exact iff_of_true (order?_trans_of_not_number ha hx hab hbc hf hs) hnot
  · obtain ⟨y, hy⟩ := exists_number? hab hx
    obtain ⟨z, hz⟩ := exists_number? hbc hy
    exact order?_trans_of_number? hx hy hz hab hbc hf hs

theorem order?_trans_iff_mixed :
    let a : Value Empty := integer 9007199254740992
    let b : Value Empty := float (Binary64.ofInt 9007199254740992)
    let c : Value Empty := unsigned 9007199254740994
    a.isCustom = false ∧ a.order? b = some .eq ∧ b.order? c = some .lt ∧
      (a.order? c = some .lt ↔ ¬ Blurred a b c) := by
  intro a b c
  have hab : a.order? b = some .eq := by decide +kernel
  have hbc : b.order? c = some .lt := by decide +kernel
  exact ⟨rfl, hab, hbc, (order?_trans_iff rfl hab hbc rfl rfl).1⟩

-- The integer above 2^53 is equal to the floating-point number 2^53, and so is 2^53 itself.
theorem order?_not_transitive :
    let number : Value Empty := float (Binary64.ofInt 9007199254740992)
    let same : Value Empty := integer 9007199254740992
    let above : Value Empty := integer 9007199254740993
    (number.order? same = some .eq ∧ same.order? above = some .lt ∧
        number.order? above = some .eq) ∧
      above.order? number = some .eq ∧ number.order? same = some .eq ∧
        above.order? same = some .gt := by
  decide +kernel

end Value

end RecordFilter
