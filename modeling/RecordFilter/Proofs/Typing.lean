import RecordFilter.Condition.Evaluation

namespace RecordFilter

variable {κ : Type}

-- The values of a type: those of the variant that its texts are read as. Floating-point
-- numbers have to be numbers.
inductive Scalar.Admits : Scalar → Value κ → Prop where
  | string {text : Text} : Admits .string (.string text)
  | bool {value : Bool} : Admits .bool (.bool value)
  | char {value : Char} : Admits .char (.char value)
  | signed {width : Width} {value : Int} : Admits (.signed width) (.integer value)
  | unsigned {width : Width} {value : Nat} : Admits (.unsigned width) (.unsigned value)
  | single {value : Binary64} (hv : value.isNaN = false) : Admits .single (.float value)
  | double {value : Binary64} (hv : value.isNaN = false) : Admits .double (.float value)
  | date {value : Date} : Admits .date (.date value)
  | dateTime {value : DateTime} : Admits .dateTime (.dateTime value)

theorem Binary64.order?_isSome {x y : Binary64} (hx : x.isNaN = false) (hy : y.isNaN = false) :
    (x.order? y).isSome = true := by
  simp [order?, hx, hy]

theorem Scalar.isNaN_of_finite? {precision : Precision} {text : Text} {value : Binary64}
    (h : finite? precision text = some value) : value.isNaN = false := by
  have hf : value.isFinite = true := (Option.filter_eq_some_iff.mp h).2
  simp only [Binary64.isFinite, decide_eq_true_eq] at hf
  simp only [Binary64.isNaN, decide_eq_false_iff_not]
  omega

theorem Scalar.admits_of_read? {formats : Formats} {type : Scalar} {text : Text}
    {value : Value κ} (h : type.read? formats text = some value) : type.Admits value := by
  cases type with
  | string => cases h; exact .string
  | bool => obtain ⟨_, _, rfl⟩ := Option.map_eq_some_iff.mp h; exact .bool
  | char => obtain ⟨_, _, rfl⟩ := Option.map_eq_some_iff.mp h; exact .char
  | signed width => obtain ⟨_, _, rfl⟩ := Option.map_eq_some_iff.mp h; exact .signed
  | unsigned width => obtain ⟨_, _, rfl⟩ := Option.map_eq_some_iff.mp h; exact .unsigned
  | single =>
    obtain ⟨_, hr, rfl⟩ := Option.map_eq_some_iff.mp h
    exact .single (isNaN_of_finite? hr)
  | double =>
    obtain ⟨_, hr, rfl⟩ := Option.map_eq_some_iff.mp h
    exact .double (isNaN_of_finite? hr)
  | date => obtain ⟨_, _, rfl⟩ := Option.map_eq_some_iff.mp h; exact .date
  | dateTime => obtain ⟨_, _, rfl⟩ := Option.map_eq_some_iff.mp h; exact .dateTime

theorem Enumeration.typeName_of_member? {enumeration : Enumeration} {name : Text}
    {member : Member} (h : enumeration.member? name = some member) :
    member.typeName = enumeration.name := by
  obtain ⟨ordinal, _, hm⟩ := Option.bind_eq_some_iff.mp h
  obtain ⟨_, _, rfl⟩ := Option.map_eq_some_iff.mp hm
  rfl

-- Where callers bring no types along, there are no custom values.
instance : CustomValue Empty := ⟨Empty.elim, Empty.elim, Empty.elim, Empty.elim⟩

namespace ValueType

variable {type : ValueType κ} {value other : Value κ}

def isBuiltIn : ValueType κ → Bool
  | custom _ => false
  | _ => true

theorem isString_iff : type.isString = true ↔ type = .scalar .string := by
  constructor
  · intro h
    rw [isString.eq_def] at h
    split at h
    · rfl
    · cases h
  · rintro rfl
    rfl

theorem isString_of_read? {formats : Formats} {text other : Text}
    (h : type.read? formats text = some (.string other)) : type.isString = true := by
  cases type with
  | scalar type => cases Scalar.admits_of_read? h; rfl
  | enumeration type =>
    obtain ⟨_, _, hm⟩ := Option.map_eq_some_iff.mp h
    cases hm
  | custom type =>
    obtain ⟨_, _, hm⟩ := Option.map_eq_some_iff.mp h
    cases hm

theorem read?_of_isString (hs : type.isString = true) (formats : Formats) (text : Text) :
    type.read? formats text = some (.string text) := by
  obtain rfl := isString_iff.mp hs
  rfl

variable [CustomValue κ]

-- Enumerations and custom types know their values by the name of the type.
inductive Admits : ValueType κ → Value κ → Prop where
  | scalar {type : Scalar} {value : Value κ} (hv : type.Admits value) :
    Admits (.scalar type) value
  | enumeration {type : Enumeration} {value : Member} (hv : value.typeName = type.name) :
    Admits (.enumeration type) (.member value)
  | custom {type : CustomType κ} {value : κ} (hv : CustomValue.typeName value = type.name) :
    Admits (.custom type) (.custom value)

theorem admits_of_read? (hb : type.isBuiltIn = true) {formats : Formats} {text : Text}
    (h : type.read? formats text = some value) : type.Admits value := by
  cases type with
  | scalar type => exact .scalar (Scalar.admits_of_read? h)
  | enumeration type =>
    obtain ⟨_, hm, rfl⟩ := Option.map_eq_some_iff.mp h
    exact .enumeration (Enumeration.typeName_of_member? hm)
  | custom type => cases hb

theorem isString_of_admits {text : Text} (h : type.Admits (.string text)) :
    type.isString = true := by
  cases h with
  | scalar h => cases h; rfl

theorem comparable_of_admits (hv : type.Admits value) (ho : type.Admits other) :
    value.comparable other = true := by
  cases hv with
  | scalar hv =>
    cases ho with
    | scalar ho => cases hv <;> cases ho <;> rfl
  | enumeration hv =>
    cases ho with
    | enumeration ho => simp [Value.comparable, hv, ho]
  | custom hv =>
    cases ho with
    | custom ho => simp [Value.comparable, hv, ho]

-- Truth values are the only ones of a built-in type without an order.
theorem ordered_of_admits (hb : type.isBuiltIn = true) (hv : type.Admits value)
    (ho : type.Admits other) :
    (type = .scalar .bool ∧ value.isOrdered = false ∧ value.typeName = "bool".toList) ∨
      (value.isOrdered = true ∧ (value.order? other).isSome = true) := by
  cases hv with
  | scalar hv =>
    cases ho with
    | scalar ho =>
      cases hv with
      | bool => exact .inl ⟨rfl, rfl, rfl⟩
      | single hv => cases ho with
        | single ho => exact .inr ⟨rfl, Binary64.order?_isSome hv ho⟩
      | double hv => cases ho with
        | double ho => exact .inr ⟨rfl, Binary64.order?_isSome hv ho⟩
      | _ => cases ho; exact .inr ⟨rfl, rfl⟩
  | enumeration hv =>
    cases ho with
    | enumeration ho => exact .inr ⟨rfl, by simp [Value.order?, hv, ho]⟩
  | custom _ => cases hb

end ValueType

-- A text as a value of the declared type.
def Comparison.read? (comparison : Comparison κ) (text : Text) : Option (Value κ) :=
  comparison.typeInfo.valueType?.bind fun type => type.read? comparison.formats text

-- Only text is ever converted, and text that is declared as such is not.
theorem Comparison.typed_eq_self {comparison : Comparison κ} {type : ValueType κ}
    (ht : comparison.typeInfo.valueType? = some type) {live : Value κ}
    (hs : ∀ text, live = .string text → type.isString = true) :
    comparison.typed live = .ok live := by
  unfold typed
  split
  · next text declared hd =>
    cases hd.symm.trans ht
    rw [if_pos (hs text rfl)]
  · rfl

end RecordFilter
