import RecordFilter.Proofs.Equality
import RecordFilter.Proofs.Interchange

namespace RecordFilter

variable {κ : Type}

-- Only custom types are told apart by less than all they consist of.
theorem ValueType.eq_of_same {type other : ValueType κ} (hb : type.isBuiltIn = true)
    (h : type.same other = true) : type = other := by
  cases type with
  | scalar type =>
    cases other with
    | scalar other => rw [of_decide_eq_true h]
    | enumeration other => cases h
    | custom other => cases h
  | enumeration type =>
    cases other with
    | scalar other => cases h
    | enumeration other => rw [of_decide_eq_true h]
    | custom other => cases h
  | custom type => cases hb

theorem TypeInfo.eq_of_same {info other : TypeInfo κ}
    (hb : ∀ type, info.valueType? = some type → type.isBuiltIn = true)
    (h : info.same other = true) : info = other := by
  obtain ⟨element, collection⟩ := info
  obtain ⟨otherElement, otherCollection⟩ := other
  rw [same, Bool.and_eq_true, beq_iff_eq] at h
  obtain ⟨rfl, h⟩ := h
  cases element with
  | value type =>
    cases otherElement with
    | value other => rw [ValueType.eq_of_same (hb type rfl) h]
    | record name => cases h
  | record name =>
    cases otherElement with
    | value other => cases h
    | record other => rw [of_decide_eq_true h]

theorem SchemaFamily.isBuiltIn_ofHints {hints : Table (ValueType κ)}
    (h : (Shape.hints hints).IsBuiltIn) : (ofHints hints).IsBuiltIn := by
  intro schema name property hp type ht
  rw [property?_ofHints] at hp
  obtain ⟨hinted, hf, rfl⟩ := Option.map_eq_some_iff.mp hp
  cases ht
  exact h name type hf

namespace Comparison

-- What the literal is read as: a number for a size check, and else a value of the declared type.
def target? (comparison : Comparison κ) : Option (Value κ) :=
  if comparison.sizeCheck then (Text.unsignedOf? .w64 comparison.literal).map .unsigned
  else comparison.read? comparison.literal

-- A comparison with what its literal is read as, of a type that callers need not bring along.
structure IsRead (comparison : Comparison κ) : Prop where
  value : comparison.target? = some comparison.value
  isBuiltIn : ∀ type, comparison.typeInfo.valueType? = some type → type.isBuiltIn = true

variable [CustomValue κ]

-- Equal values need not be the same. But those of equal comparisons are read from one literal, as
-- values of one type and by the same formats.
theorem eq_of_same {comparison other : Comparison κ} (hc : comparison.IsRead) (ho : other.IsRead)
    (h : comparison.same other = true) : comparison = other := by
  simp only [same, Bool.and_eq_true, decide_eq_true_eq, and_assoc] at h
  obtain ⟨hproperty, hname, hcomparator, -, hinfo, hliteral, hsize, hwildcard, hformats⟩ := h
  have hinfo : comparison.typeInfo = other.typeInfo := TypeInfo.eq_of_same hc.isBuiltIn hinfo
  have htarget : comparison.target? = other.target? := by
    rw [target?, target?, read?, read?, hinfo, hliteral, hsize, hformats]
  have hvalue : comparison.value = other.value := by
    rw [hc.value, ho.value] at htarget
    exact Option.some.inj htarget
  cases comparison
  cases other
  congr

end Comparison

namespace Condition

variable [CustomValue κ]

theorem eq_of_sameAll {children others : List (Condition κ)}
    (hchild : ∀ child ∈ children, ∀ other ∈ others, child.same other = true → child = other)
    (h : sameAll children others = true) : children = others := by
  induction children generalizing others with
  | nil =>
    cases others with
    | nil => rfl
    | cons other others => cases h
  | cons child rest ih =>
    cases others with
    | nil => cases h
    | cons other others =>
      rw [sameAll, Bool.and_eq_true] at h
      have hfirst : child = other := hchild child List.mem_cons_self other List.mem_cons_self h.1
      have hrest : rest = others := by
        refine ih (fun sibling hs cousin hc => ?_) h.2
        exact hchild sibling (List.mem_cons_of_mem child hs) cousin (List.mem_cons_of_mem other hc)
      rw [hfirst, hrest]

theorem eq_of_same {condition other : Condition κ}
    (hc : ∀ comparison ∈ condition.leaves, comparison.IsRead)
    (ho : ∀ comparison ∈ other.leaves, comparison.IsRead) (h : condition.same other = true) :
    condition = other := by
  induction condition generalizing other with
  | leaf comparison =>
    cases other with
    | leaf another =>
      rw [same] at h
      rw [Comparison.eq_of_same (hc comparison (mem_leaves_leaf.mpr rfl))
        (ho another (mem_leaves_leaf.mpr rfl)) h]
    | group connective children => cases h
  | group connective children ih =>
    cases other with
    | leaf another => cases h
    | group otherConnective others =>
      rw [same, Bool.and_eq_true, decide_eq_true_eq] at h
      have hchildren := forall_leaves_group.mp hc
      have hothers := forall_leaves_group.mp ho
      have hall : children = others := eq_of_sameAll (fun child hm another hn hs =>
        ih child hm (hchildren child hm) (hothers another hn) hs) h.2
      rw [h.1, hall]

-- The conditions that texts are read as, in any languages without custom types.
def IsParsed (condition : Condition κ) : Prop :=
  ∃ (language : Language κ) (text : Text), language.shape.IsBuiltIn ∧
    language.parse text = .ok condition

end Condition

theorem Language.isRead_of_parse [CustomValue κ] {language : Language κ} (hb : language.shape.IsBuiltIn)
    {text : Text} {condition : Condition κ} (hp : language.parse text = .ok condition)
    {comparison : Comparison κ} (hc : comparison ∈ condition.leaves) : comparison.IsRead := by
  obtain ⟨path, _, hsize, hformats, hresolve, htarget⟩ := resolved_of_parse hp hc
  refine ⟨?_, fun type ht => Shape.isBuiltIn_of_resolve hb hresolve ht⟩
  rw [Comparison.target?, Comparison.read?, hsize, hformats]
  rcases target_eq_some htarget with ⟨hcount, _, _, size, hread, hvalue⟩ |
    ⟨hcount, type, htype, hread, _⟩
  · simp [hcount, hread, hvalue]
  · simp [hcount, htype, hread]

namespace Value

variable [CustomValue κ]

theorem equals_nan : (float Binary64.nan : Value κ).equals (float Binary64.nan) = false := rfl

-- The integer above 2^53 has no floating-point number of its own.
theorem equals_rounded :
    (integer 9007199254740993 : Value κ).equals (float (Binary64.ofInt 9007199254740992)) = true ∧
      (float (Binary64.ofInt 9007199254740992) : Value κ).equals (integer 9007199254740992) = true ∧
      (integer 9007199254740993 : Value κ).equals (integer 9007199254740992) = false := by
  have hrounded : (Binary64.ofInt 9007199254740993).order? (Binary64.ofInt 9007199254740992) =
      some .eq := by decide +kernel
  have hexact : (Binary64.ofInt 9007199254740992).order? (Binary64.ofInt 9007199254740992) =
      some .eq := by decide +kernel
  simp [equals, order?, hrounded, hexact]

end Value

namespace Condition

variable [CustomValue κ]

-- Equal filters are one and the same, whatever languages they were written in.
theorem IsParsed.same_iff_eq {condition other : Condition κ} (hc : condition.IsParsed)
    (ho : other.IsParsed) : condition.same other = true ↔ condition = other := by
  obtain ⟨language, text, hb, hp⟩ := hc
  obtain ⟨another, written, hbuilt, hparse⟩ := ho
  constructor
  · exact eq_of_same (fun _ hl => Language.isRead_of_parse hb hp hl)
      (fun _ hl => Language.isRead_of_parse hbuilt hparse hl)
  · rintro rfl
    exact Language.same_self_of_parse hb hp

-- Equality of filters is an equivalence, and equal filters are met by the same records and fail
-- with the same faults. Equality of values is none: it is not reflexive, and not transitive either,
-- so that values equal to each other need not be equal to the same live values.
theorem same_equivalence :
    Equivalence (fun condition other : { condition : Condition κ // condition.IsParsed } =>
        condition.val.same other.val = true) ∧
      (∀ condition other : { condition : Condition κ // condition.IsParsed },
        condition.val.same other.val = true →
          ∀ record : Record κ, condition.val.isMet record = other.val.isMet record) ∧
      (∃ value : Value κ, value.equals value = false) ∧
      ∃ value other live : Value κ, value.equals other = true ∧ other.equals live = true ∧
        value.equals live = false := by
  have hsame : ∀ condition other : { condition : Condition κ // condition.IsParsed },
      condition.val.same other.val = true ↔ condition.val = other.val :=
    fun condition other => condition.property.same_iff_eq other.property
  refine ⟨⟨?_, ?_, ?_⟩, ?_, ⟨_, Value.equals_nan⟩, ⟨_, _, _, Value.equals_rounded⟩⟩
  · intro condition
    exact (hsame condition condition).mpr rfl
  · intro condition other h
    exact (hsame other condition).mpr ((hsame condition other).mp h).symm
  · intro condition other third h hn
    have hthird : condition.val = third.val :=
      ((hsame condition other).mp h).trans ((hsame other third).mp hn)
    exact (hsame condition third).mpr hthird
  · intro condition other h record
    rw [(hsame condition other).mp h]

-- A bag with a hint and a schema that declares the same type give equal filters, each of which
-- takes the other's place.
theorem same_equivalence_isAdult :
    let hints : Table (ValueType Empty) :=
      { entries := [("age".toList, .scalar (.signed .w32))], nodup := by decide }
    let bags : Language Empty := .forBags Regex.isSmall { typeHints := hints, singleEquals := true }
    let records : Language Empty := .forSchemas Regex.isSmall (.ofHints hints) {}
    ∃ condition other, bags.parse "(age=gt=18)".toList = .ok condition ∧
      records.parse "age=gt=18".toList = .ok other ∧ condition.same other = true ∧
      other.same condition = true ∧
      ∀ record : Record Empty, condition.isMet record = other.isMet record := by
  intro hints bags records
  have hbag : bags.parse "(age=gt=18)".toList = .ok (.leaf Language.isAdult) := rfl
  have hrecord : records.parse "age=gt=18".toList = .ok (.leaf Language.isAdult) := rfl
  have hhints : (Shape.hints hints).IsBuiltIn := Shape.isBuiltIn_hints (by decide)
  let condition : { condition : Condition Empty // condition.IsParsed } :=
    ⟨_, bags, _, hhints, hbag⟩
  let other : { condition : Condition Empty // condition.IsParsed } :=
    ⟨_, records, _, SchemaFamily.isBuiltIn_ofHints hhints, hrecord⟩
  have hsame : condition.val.same other.val = true := rfl
  exact ⟨_, _, hbag, hrecord, hsame, same_equivalence.1.symm (x := condition) (y := other) hsame,
    same_equivalence.2.1 condition other hsame⟩

end Condition

end RecordFilter
