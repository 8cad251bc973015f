import RecordFilter.Proofs.Conformance

namespace RecordFilter

variable {κ : Type}

instance : Std.ReflOrd Date where
  compare_self {date} := by
    show (compare date.year date.year).then
      ((compare date.month date.month).then (compare date.day date.day)) = .eq
    simp

instance : Std.ReflOrd DateTime where
  compare_self {moment} := by
    show (compare moment.date moment.date).then
      ((compare moment.second moment.second).then
        (compare moment.nanosecond moment.nanosecond)) = .eq
    simp

theorem Binary64.order?_self {x : Binary64} (hx : x.isNaN = false) : x.order? x = some .eq := by
  simp [order?, hx]

-- Values of built-in types are equal to themselves, other than floating-point values which
-- are not numbers.
theorem ValueType.equals_self_of_admits [CustomValue κ] {type : ValueType κ}
    (hb : type.isBuiltIn = true) {value : Value κ} (hv : type.Admits value) :
    value.equals value = true := by
  cases hv with
  | scalar hv =>
    cases hv with
    | bool => simp [Value.equals]
    | single hn => simp [Value.equals, Value.order?, Binary64.order?_self hn]
    | double hn => simp [Value.equals, Value.order?, Binary64.order?_self hn]
    | _ => simp [Value.equals, Value.order?]
  | enumeration _ => simp [Value.equals, Value.order?]
  | custom _ => cases hb

theorem TypeInfo.same_self (info : TypeInfo κ) : info.same info = true := by
  cases he : info.element with
  | value type => cases type <;> simp [same, he, ValueType.same]
  | record name => simp [same, he]

theorem Comparison.same_self [CustomValue κ] {comparison : Comparison κ}
    (hv : comparison.value.equals comparison.value = true) :
    comparison.same comparison = true := by
  simp [same, hv, TypeInfo.same_self]

theorem Condition.sameAll_self [CustomValue κ] {children : List (Condition κ)}
    (h : ∀ child ∈ children, child.same child = true) : sameAll children children = true := by
  induction children with
  | nil => rfl
  | cons child rest ih =>
    rw [sameAll, Bool.and_eq_true]
    exact ⟨h child List.mem_cons_self, ih fun sibling hs => h sibling (List.mem_cons_of_mem child hs)⟩

theorem Condition.same_self [CustomValue κ] {condition : Condition κ}
    (h : ∀ comparison ∈ condition.leaves, comparison.value.equals comparison.value = true) :
    condition.same condition = true := by
  induction condition with
  | leaf comparison =>
    rw [same]
    exact Comparison.same_self (h comparison (mem_leaves_leaf.mpr rfl))
  | group connective children ih =>
    have hchild := forall_leaves_group.mp h
    have hall : sameAll children children = true :=
      sameAll_self fun child hc => ih child hc (hchild child hc)
    simp [same, hall]

-- No property has a type that callers bring along.
def Shape.IsBuiltIn : Shape κ → Prop
  | schemas family => family.IsBuiltIn
  | hints types => ∀ name type, types.find? name = some type → type.isBuiltIn = true
  | custom resolver => ∀ path info type, resolver.resolve path = .ok info →
      info.valueType? = some type → type.isBuiltIn = true

theorem Shape.isBuiltIn_hints {types : Table (ValueType κ)}
    (h : ∀ entry ∈ types.entries, entry.2.isBuiltIn = true) : (hints types).IsBuiltIn :=
  fun name type hf => h (name, type) (Table.mem_of_find? hf)

section BuiltIn

variable [CustomValue κ]

theorem Shape.isBuiltIn_of_resolve {shape : Shape κ} (hb : shape.IsBuiltIn) {path : Path}
    {info : TypeInfo κ} (hr : shape.resolve path = .ok info) {type : ValueType κ}
    (ht : info.valueType? = some type) : type.isBuiltIn = true := by
  cases shape with
  | schemas family =>
    -- where a path leads among the schemas shows without any record
    have hnone : ∀ record ∈ ([] : List (Record κ)), family.Conforms family.root record := by simp
    obtain ⟨owner, name, property, _, hp, rfl, _⟩ :=
      SchemaFamily.walk_eq_ok hr hnone path.dotted
    exact hb owner name property hp type (SchemaFamily.kind_of_valueType? ht)
  | hints types =>
    cases hr
    cases ht
    cases hf : types.find? path.dotted with
    | none => rfl
    | some declared => exact hb path.dotted declared hf
  | custom resolver => exact hb path info type hr ht

theorem Language.equals_self_of_parse {language : Language κ} (hb : language.shape.IsBuiltIn)
    {text : Text} {condition : Condition κ} (hp : language.parse text = .ok condition)
    {comparison : Comparison κ} (hc : comparison ∈ condition.leaves) :
    comparison.value.equals comparison.value = true := by
  obtain ⟨path, _, _, _, hr, ht⟩ := resolved_of_parse hp hc
  rcases target_eq_some ht with ⟨_, _, _, size, _, hv⟩ | ⟨_, type, htype, hread, _⟩
  · simp [hv, Value.equals, Value.order?]
  · have hbuilt : type.isBuiltIn = true := Shape.isBuiltIn_of_resolve hb hr htype
    exact ValueType.equals_self_of_admits hbuilt (ValueType.admits_of_read? hbuilt hread)

-- What has been read is equal to itself.
theorem Language.same_self_of_parse {language : Language κ} (hb : language.shape.IsBuiltIn)
    {text : Text} {condition : Condition κ} (hp : language.parse text = .ok condition) :
    condition.same condition = true :=
  Condition.same_self fun _ hc => equals_self_of_parse hb hp hc

end BuiltIn

end RecordFilter
