import RecordFilter.Proofs.ValueOrder

namespace RecordFilter

-- What is asked of the order of custom values: it turns round with two values of one type, and where it
-- says that they are equal, so does their equality.
class LawfulCustomValue (κ : Type) [CustomValue κ] : Prop where
  order?_swap (a b : κ) (h : CustomValue.typeName a = CustomValue.typeName b) :
    CustomValue.order? b a = (CustomValue.order? a b).map Ordering.swap
  equals_iff (a b : κ) (h : CustomValue.typeName a = CustomValue.typeName b) :
    CustomValue.equals a b = true ↔ CustomValue.order? a b = some .eq

theorem Binary64.order?_swap (x y : Binary64) : y.order? x = (x.order? y).map Ordering.swap := by
  rw [order?, order?, Bool.or_comm]
  split
  · rfl
  · rw [Option.map_some, ← Std.OrientedOrd.eq_swap]

namespace Value

variable {κ : Type} {a b : Value κ} {order : Ordering}

theorem tie_swap (a b : Value κ) : tie b a = (tie a b).swap := by
  simp only [tie]
  cases a.integer? with
  | none => cases b.integer? <;> rfl
  | some n =>
    cases b.integer? with
    | none => rfl
    | some m => exact Std.OrientedOrd.eq_swap

theorem comparable_of_number? {x y : Binary64} [CustomValue κ] (ha : a.number? = some x)
    (hb : b.number? = some y) : a.comparable b = true := by
  cases a <;> cases ha <;> cases b <;> cases hb <;> rfl

namespace Compares

theorem swap (h : Compares a b order) : Compares b a order.swap := by
  cases h with
  | string a b =>
    rw [← Std.OrientedOrd.eq_swap]
    exact .string b a
  | char a b =>
    rw [← Std.OrientedOrd.eq_swap]
    exact .char b a
  | date a b =>
    rw [← Std.OrientedOrd.eq_swap]
    exact .date b a
  | dateTime a b =>
    rw [← Std.OrientedOrd.eq_swap]
    exact .dateTime b a
  | member h =>
    rw [← Std.OrientedOrd.eq_swap]
    exact .member h.symm
  | number ha hb h =>
    rw [Ordering.swap_then, ← tie_swap]
    refine .number hb ha ?_
    rw [Binary64.order?_swap, h, Option.map_some]

theorem isCustom_eq_false (h : Compares a b order) : a.isCustom = false := by
  cases h with
  | number ha _ _ => cases a <;> first | rfl | cases ha
  | _ => rfl

theorem comparable [CustomValue κ] (h : Compares a b order) : a.comparable b = true := by
  cases h with
  | member h => exact decide_eq_true h
  | number ha hb _ => exact comparable_of_number? ha hb
  | _ => rfl

end Compares

variable [CustomValue κ]

theorem order?_custom_eq_some_iff {a b : κ} :
    (custom a).order? (custom b) = some order ↔
      CustomValue.typeName a = CustomValue.typeName b ∧ CustomValue.order? a b = some order := by
  rw [order?, Option.ite_none_right_eq_some]

-- Other than itself, a custom value has nothing that it compares with.
theorem cases_of_order? (h : a.order? b = some order) :
    Compares a b order ∨ ∃ x y, a = custom x ∧ b = custom y := by
  cases a with
  | custom a =>
    cases b with
    | custom b => exact .inr ⟨a, b, rfl, rfl⟩
    | _ => cases h
  | _ => exact .inl ((order?_eq_some_iff rfl).mp h)

theorem comparable_of_order? (h : a.order? b = some order) : a.comparable b = true := by
  rcases cases_of_order? h with hc | ⟨x, y, rfl, rfl⟩
  · exact hc.comparable
  · exact decide_eq_true (order?_custom_eq_some_iff.mp h).1

theorem comparable_comm (a b : Value κ) : a.comparable b = b.comparable a := by
  cases a <;> cases b <;> simp only [comparable, eq_comm]

variable [LawfulCustomValue κ]

theorem order?_turned (h : a.order? b = some order) : b.order? a = some order.swap := by
  rcases cases_of_order? h with hc | ⟨x, y, rfl, rfl⟩
  · exact (order?_eq_some_iff hc.swap.isCustom_eq_false).mpr hc.swap
  · obtain ⟨hname, horder⟩ := order?_custom_eq_some_iff.mp h
    refine order?_custom_eq_some_iff.mpr ⟨hname.symm, ?_⟩
    rw [LawfulCustomValue.order?_swap x y hname, horder, Option.map_some]

theorem order?_swap (a b : Value κ) : b.order? a = (a.order? b).map Ordering.swap := by
  cases h : a.order? b with
  | some order => exact order?_turned h
  | none =>
    -- an answer from the other side would give one from this side
    by_contra hne
    obtain ⟨order, ho⟩ := Option.ne_none_iff_exists'.mp hne
    rw [order?_turned ho] at h
    cases h

theorem order?_eq_eq_comm (a b : Value κ) : a.order? b = some .eq ↔ b.order? a = some .eq :=
  ⟨fun h => order?_turned h, fun h => order?_turned h⟩

-- Truth values have an equality without an order.
theorem equals_iff (ho : a.isOrdered = true ∨ b.isOrdered = true) :
    a.equals b = true ↔ a.order? b = some .eq := by
  cases a with
  | bool a =>
    cases b with
    | bool b => rcases ho with ho | ho <;> cases ho
    | _ => exact beq_iff_eq
  | custom a =>
    cases b with
    | custom b =>
      rw [equals, Bool.and_eq_true, decide_eq_true_eq, order?_custom_eq_some_iff]
      exact and_congr_right (LawfulCustomValue.equals_iff a b)
    | _ => exact beq_iff_eq
  | _ => exact beq_iff_eq

theorem equals_comm (a b : Value κ) : a.equals b = b.equals a := by
  by_cases ho : a.isOrdered = true ∨ b.isOrdered = true
  · rw [Bool.eq_iff_iff, equals_iff ho, equals_iff ho.symm, order?_eq_eq_comm]
  · rw [not_or] at ho
    cases a with
    | bool a =>
      cases b with
      | bool b => exact Bool.beq_comm
      | _ => exact absurd rfl ho.2
    | _ => exact absurd rfl ho.1

-- Values compare the same from both sides. Their order turns round with them, so that there is one on
-- both sides or on none, and it says which of them are equal, but for truth values, which have none.
-- What has an order can be compared, and integers of either kind have the order of the numbers that
-- they stand for.
theorem order?_symmetric (a b : Value κ) :
    b.order? a = (a.order? b).map Ordering.swap ∧
      (a.order? b = none ↔ b.order? a = none) ∧
      a.equals b = b.equals a ∧
      (a.isOrdered = true ∨ b.isOrdered = true →
        (a.equals b = true ↔ a.order? b = some .eq)) ∧
      (∀ order, a.order? b = some order → a.comparable b = true) ∧
      a.comparable b = b.comparable a ∧
      ∀ n m, a.integer? = some n → b.integer? = some m → a.order? b = some (compare n m) := by
  have hswap := order?_swap a b
  refine ⟨hswap, ?_, equals_comm a b, equals_iff, fun _ => comparable_of_order?, comparable_comm a b,
    fun _ _ => order?_of_integer?⟩
  rw [hswap, Option.map_eq_none_iff]

end Value

-- Temperatures on two scales, each of which is a type.
inductive Temperature where
  | celsius (degrees : Binary64)
  | kelvin (degrees : Binary64)

namespace Temperature

def degrees : Temperature → Binary64
  | celsius degrees | kelvin degrees => degrees

instance : CustomValue Temperature where
  typeName
    | celsius _ => "Celsius".toList
    | kelvin _ => "Kelvin".toList
  text temperature := temperature.degrees.text
  equals a b := a.degrees.order? b.degrees == some .eq
  order? a b := a.degrees.order? b.degrees

instance : LawfulCustomValue Temperature where
  order?_swap a b _ := Binary64.order?_swap a.degrees b.degrees
  equals_iff _ _ _ := beq_iff_eq

end Temperature

theorem Value.order?_symmetric_temperatures :
    let frost : Value Temperature := custom (.celsius (Binary64.ofInt (-4)))
    let warmth : Value Temperature := custom (.celsius (Binary64.ofInt 20))
    let unknown : Value Temperature := custom (.celsius .nan)
    let lowest : Value Temperature := integer (-9223372036854775808)
    let highest : Value Temperature := unsigned 18446744073709551615
    (frost.order? warmth = some .lt ∧ warmth.order? frost = some .gt ∧
        frost.comparable warmth = true ∧ (frost.equals warmth = true ↔ frost.order? warmth = some .eq)) ∧
      (unknown.order? warmth = none ∧ warmth.order? unknown = none) ∧
      highest.order? lowest = some .gt := by
  intro frost warmth unknown lowest highest
  have hless : frost.order? warmth = some .lt := by decide +kernel
  have hnone : unknown.order? warmth = none := by decide +kernel
  obtain ⟨hturned, -, -, hequals, hcomparable, -⟩ := order?_symmetric frost warmth
  rw [hless] at hturned
  obtain ⟨-, hunknown, -⟩ := order?_symmetric unknown warmth
  obtain ⟨-, -, -, -, -, -, hintegers⟩ := order?_symmetric highest lowest
  exact ⟨⟨hless, hturned, hcomparable .lt hless, hequals (.inl rfl)⟩, ⟨hnone, hunknown.mp hnone⟩,
    hintegers _ _ rfl rfl⟩

end RecordFilter
