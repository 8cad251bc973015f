import Mathlib.Data.List.Basic
import RecordFilter.Proofs.Parsing
import RecordFilter.Proofs.Typing

namespace RecordFilter

variable {κ : Type}

namespace SchemaFamily

theorem kind_of_valueType? {family : SchemaFamily κ} {property : Property κ family.size}
    {type : ValueType κ} (h : (family.typeInfo property).valueType? = some type) :
    property.kind = .value type := by
  obtain ⟨kind, collection⟩ := property
  cases kind with
  | value declared =>
    cases h
    rfl
  | record nested => cases h

variable (family : SchemaFamily κ)

-- No schema declares a property of a type that callers bring along.
def IsBuiltIn : Prop :=
  ∀ schema name property, family.property? schema name = some property →
    ∀ type, property.kind = .value type → type.isBuiltIn = true

variable [CustomValue κ]

mutual

-- A record that answers every declared name with a field that suits the declaration.
inductive Conforms : Fin family.size → Record κ → Prop where
  | mk {schema : Fin family.size} {record : Record κ}
    (answers : ∀ name property, family.property? schema name = some property →
      record.field? name ≠ none)
    (suits : ∀ name property field, family.property? schema name = some property →
      record.field? name = some field → Suits property field) :
    Conforms schema record

-- Any field may be absent.
inductive Suits : Property κ family.size → Field κ → Prop where
  | null {property : Property κ family.size} : Suits property .null
  | value {type : ValueType κ} {value : Value κ} (hv : type.Admits value) :
    Suits ⟨.value type, false⟩ (.value value)
  | values {type : ValueType κ} {values : List (Value κ)} (hv : ∀ value ∈ values, type.Admits value) :
    Suits ⟨.value type, true⟩ (.values values)
  | record {schema : Fin family.size} {record : Record κ} (hr : Conforms schema record) :
    Suits ⟨.record schema, false⟩ (.record record)
  | records {schema : Fin family.size} {records : List (Record κ)}
    (hr : ∀ record ∈ records, Conforms schema record) :
    Suits ⟨.record schema, true⟩ (.records records)

end

variable {family}

-- Conformance has to be checked for the entries of the schema only.
theorem conforms_of_entries {schema : Fin family.size} {record : Record κ}
    (h : ∀ entry ∈ (family.schema schema).properties.entries, ∃ field,
      record.field? entry.1 = some field ∧ family.Suits entry.2 field) :
    family.Conforms schema record := by
  refine ⟨fun name property hp hn => ?_, fun name property field hp hf => ?_⟩
  · obtain ⟨field, hf, _⟩ := h (name, property) (Table.mem_of_find? hp)
    cases hn.symm.trans hf
  · obtain ⟨other, ho, hs⟩ := h (name, property) (Table.mem_of_find? hp)
    cases hf.symm.trans ho
    exact hs

theorem Conforms.field_eq_ok {schema : Fin family.size} {record : Record κ}
    (h : family.Conforms schema record) {name : Text} {property : Property κ family.size}
    (hp : family.property? schema name = some property) (path : Text) :
    ∃ field, record.field path name = .ok field ∧ family.Suits property field := by
  obtain ⟨answers, suits⟩ := h
  obtain ⟨field, hf⟩ := Option.ne_none_iff_exists'.mp (answers name property hp)
  exact ⟨field, by simp [Record.field, hf], suits name property field hp hf⟩

theorem Conforms.descend_eq_ok {schema nested : Fin family.size} {record : Record κ}
    (h : family.Conforms schema record) {segment : Text} {property : Property κ family.size}
    (hp : family.property? schema segment = some property) (hk : property.kind = .record nested)
    (path : Text) :
    ∃ below, record.descend path segment = .ok below ∧
      ∀ record ∈ below, family.Conforms nested record := by
  obtain ⟨field, hf, hs⟩ := h.field_eq_ok hp path
  rw [Record.descend, hf, Outcome.ok_bind]
  cases hs with
  | null => exact ⟨[], rfl, by simp⟩
  | value _ => cases hk
  | values _ => cases hk
  | record hr =>
    cases hk
    exact ⟨_, rfl, by simpa using hr⟩
  | records hr =>
    cases hk
    exact ⟨_, rfl, hr⟩

-- A path that the schemas know leads through every conforming record. The walk keeps all
-- records that it has reached so far in conformance with the schema that it has reached.
theorem walk_eq_ok {declared : Text} {schema : Fin family.size} {segments : List Text}
    {info : TypeInfo κ} (h : family.walk declared schema segments = .ok info)
    {frontier : List (Record κ)} (hf : ∀ record ∈ frontier, family.Conforms schema record)
    (path : Text) :
    ∃ owner name property fields, family.property? owner name = some property ∧
      info = family.typeInfo property ∧ Record.walk path segments frontier = .ok fields ∧
      ∀ field ∈ fields, family.Suits property field ∧ field.isNull = false := by
  induction segments generalizing schema frontier with
  | nil => cases h
  | cons segment rest ih =>
    cases rest with
    | nil =>
      rw [walk] at h
      split at h
      · next property hp =>
        cases h
        obtain ⟨fields, hfields, hs⟩ := Outcome.exists_mapM_eq_ok
          fun record hm => (hf record hm).field_eq_ok hp path
        refine ⟨schema, segment, property, _, hp, rfl, by rw [Record.walk, hfields]; rfl, ?_⟩
        intro field hm
        obtain ⟨hm, hn⟩ := List.mem_filter.mp hm
        exact ⟨hs field hm, by simpa using hn⟩
      · cases h
    | cons next rest =>
      rw [walk] at h
      · split at h
        · cases h
        · next property hp =>
          split at h
          · next nested hk =>
            obtain ⟨below, hb, hc⟩ := Outcome.exists_mapM_eq_ok
              fun record hm => (hf record hm).descend_eq_ok hp hk path
            have hall : ∀ record ∈ below.flatten, family.Conforms nested record := by
              intro record hm
              obtain ⟨records, hr, hm⟩ := List.mem_flatten.mp hm
              exact hc records hr record hm
            rw [Record.walk, hb, Outcome.ok_bind]
            · exact ih h hall
            · simp
          · cases h
      · simp

end SchemaFamily

namespace Comparison

variable [CustomValue κ] {family : SchemaFamily κ} {property : Property κ family.size} {type : ValueType κ}
  {comparison : Comparison κ}

-- Truth values have no order, but a filter may still ask for one.
def OrdersBool (comparison : Comparison κ) : Prop :=
  comparison.sizeCheck = false ∧ comparison.comparator.isOrdering = true ∧
    comparison.typeInfo.valueType? = some (.scalar .bool)

theorem elements_eq_ok (comparison : Comparison κ) {field : Field κ}
    (hs : family.Suits property field) (hk : property.kind = .value type) :
    ∃ values, comparison.elements field = .ok values ∧ ∀ value ∈ values, type.Admits value := by
  cases hs with
  | null => exact ⟨[], rfl, by simp⟩
  | value hv =>
    cases hk
    exact ⟨_, rfl, by simpa using hv⟩
  | values hv =>
    cases hk
    exact ⟨_, rfl, hv⟩
  | record _ => cases hk
  | records _ => cases hk

theorem sizeOrdering_eq_ok {field : Field κ} (hs : family.Suits property field)
    (hn : field.isNull = false) (hc : property.collection = true) {size : Nat}
    (hv : comparison.value = .unsigned size) :
    ∃ ordering, comparison.sizeOrdering field = .ok ordering := by
  cases hs with
  | null => cases hn
  | value _ => cases hc
  | record _ => cases hc
  | values _ => exact ⟨_, by rw [sizeOrdering, hv]; rfl⟩
  | records _ => exact ⟨_, by rw [sizeOrdering, hv]; rfl⟩

theorem sizesHold_eq_ok {fields : List (Field κ)}
    (hs : ∀ field ∈ fields, family.Suits property field ∧ field.isNull = false)
    (hc : property.collection = true) {size : Nat} (hv : comparison.value = .unsigned size) :
    ∃ met, comparison.sizesHold fields = .ok met := by
  have hsized : ∀ field ∈ fields, ∃ ordering,
      comparison.sizeOrdering field = .ok ordering ∧ True := by
    intro field hm
    obtain ⟨ordering, ho⟩ := sizeOrdering_eq_ok (hs field hm).1 (hs field hm).2 hc hv
    exact ⟨ordering, ho, trivial⟩
  obtain ⟨orderings, ho, _⟩ := Outcome.exists_mapM_eq_ok hsized
  rw [sizesHold, ho, Outcome.ok_bind]
  split
  · exact ⟨_, rfl⟩
  · split
    · exact ⟨_, rfl⟩
    · exact ⟨_, rfl⟩

-- The only fault of asking values of a type for a comparator.
def IsUnordered (comparison : Comparison κ) (type : ValueType κ) (comparator : Comparator)
    (fault : Fault) : Prop :=
  comparator.isOrdering = true ∧ type = .scalar .bool ∧
    fault = .unordered comparison.comparator "bool".toList

section Typed

variable (hb : type.isBuiltIn = true) (ht : comparison.typeInfo.valueType? = some type)
  (hl : type.Admits comparison.value)
include hb ht hl

theorem matchesElement_faultsIn (comparator : Comparator) {live : Value κ}
    (hv : type.Admits live) :
    Outcome.FaultsIn (comparison.IsUnordered type comparator)
      (comparison.matchesElement comparator live) := by
  have hs : ∀ text, live = .string text → type.isString = true := by
    rintro text rfl
    exact ValueType.isString_of_admits hv
  rw [matchesElement, typed_eq_self ht hs, Outcome.ok_bind]
  split
  · exact Outcome.faultsIn_ok _
  · rw [compareTyped, ValueType.comparable_of_admits hv hl]
    by_cases ho : comparator.isOrdering = true
    · rcases ValueType.ordered_of_admits hb hv hl with
        ⟨hbool, hordered, hname⟩ | ⟨hordered, horder⟩
      · intro fault hf
        refine ⟨ho, hbool, ?_⟩
        simp only [ho, hordered, hname] at hf
        cases hf
        rfl
      · obtain ⟨ordering, horder⟩ := Option.isSome_iff_exists.mp horder
        simpa [ho, hordered, horder] using Outcome.faultsIn_ok _
    · simpa [ho] using Outcome.faultsIn_ok _

theorem holdsForAny_faultsIn {elements : List (Value κ)}
    (hv : ∀ live ∈ elements, type.Admits live) :
    Outcome.FaultsIn (comparison.IsUnordered type comparison.comparator)
      (comparison.holdsForAny elements) := by
  have hmatch := fun comparator => Outcome.faultsIn_anyM fun live hm =>
    matchesElement_faultsIn hb ht hl comparator (hv live hm)
  rw [holdsForAny]
  split
  · -- inequality asks for equality, which takes no order
    apply Outcome.faultsIn_bind
    · intro fault hf
      exact absurd (hmatch .equals fault hf).1 (by decide)
    · exact fun found _ => Outcome.faultsIn_ok _
  · exact hmatch comparison.comparator

theorem valuesHold_faultsIn {fields : List (Field κ)}
    (hs : ∀ field ∈ fields, family.Suits property field) (hk : property.kind = .value type) :
    Outcome.FaultsIn (comparison.IsUnordered type comparison.comparator)
      (comparison.valuesHold fields) := by
  obtain ⟨elements, he, hv⟩ := Outcome.exists_mapM_eq_ok
    fun field hm => elements_eq_ok comparison (hs field hm) hk
  rw [valuesHold, he, Outcome.ok_bind]
  split
  · exact Outcome.faultsIn_ok false
  · apply holdsForAny_faultsIn hb ht hl
    intro live hm
    obtain ⟨values, hvalues, hm⟩ := List.mem_flatten.mp hm
    exact hv values hvalues live hm

end Typed

end Comparison

namespace Language

variable [CustomValue κ] {builds : Regex → Bool} {family : SchemaFamily κ} {settings : Settings κ}

theorem holds_faultsIn {text : Text} {condition : Condition κ}
    (hp : (forSchemas builds family settings).parse text = .ok condition) (hb : family.IsBuiltIn)
    {record : Record κ} (hflat : record.isFlat = false)
    (hr : family.Conforms family.root record) {comparison : Comparison κ}
    (hc : comparison ∈ condition.leaves) :
    Outcome.FaultsIn (fun fault => comparison.OrdersBool ∧
      fault = .unordered comparison.comparator "bool".toList) (comparison.holds record) := by
  obtain ⟨path, hproperty, hsize, hformats, hresolve, htarget⟩ := resolved_of_parse hp hc
  have hroot : ∀ live ∈ [record], family.Conforms family.root live := by simpa using hr
  obtain ⟨owner, name, property, fields, hdeclared, hinfo, hwalk, hs⟩ :=
    SchemaFamily.walk_eq_ok hresolve hroot path.dotted
  have hlive : record.resolve comparison.property = .ok fields := by
    rw [Record.resolve, hflat, hproperty, Path.split_dotted]
    exact hwalk
  rw [Comparison.holds, hlive, Outcome.ok_bind, hsize]
  rcases target_eq_some htarget with ⟨hcount, hcollection, -, size, -, hv⟩ |
    ⟨hcount, type, htype, hread, -⟩
  · rw [if_pos hcount]
    rw [hinfo] at hcollection
    obtain ⟨met, hm⟩ := Comparison.sizesHold_eq_ok hs hcollection hv
    rw [hm]
    exact Outcome.faultsIn_ok met
  · have hk : property.kind = .value type := by
      rw [hinfo] at htype
      exact SchemaFamily.kind_of_valueType? htype
    have hbuilt := hb owner name property hdeclared type hk
    rw [if_neg (by simp [hcount])]
    intro fault hf
    obtain ⟨ho, rfl, hfault⟩ := Comparison.valuesHold_faultsIn hbuilt htype
      (ValueType.admits_of_read? hbuilt hread) (fun field hm => (hs field hm).1) hk fault hf
    exact ⟨⟨hsize.trans hcount, ho, htype⟩, hfault⟩

-- A filter that has been read against schemas of built-in types goes through on every
-- record that conforms to them. It can only fail to order truth values.
theorem isMet_of_conforms {text : Text} {condition : Condition κ}
    (hp : (forSchemas builds family settings).parse text = .ok condition) (hb : family.IsBuiltIn)
    {record : Record κ} (hflat : record.isFlat = false)
    (hr : family.Conforms family.root record) :
    (∃ met, condition.isMet record = .ok met) ∨
      ∃ comparison ∈ condition.leaves, comparison.OrdersBool ∧
        condition.isMet record = .error (.unordered comparison.comparator "bool".toList) := by
  have hfaults : Outcome.FaultsIn (fun fault => ∃ comparison ∈ condition.leaves,
      comparison.OrdersBool ∧ fault = .unordered comparison.comparator "bool".toList)
      (condition.isMet record) :=
    Condition.faultsIn_isMet fun comparison hc fault hf =>
      ⟨comparison, hc, holds_faultsIn hp hb hflat hr hc fault hf⟩
  cases hm : condition.isMet record with
  | ok met => exact .inl ⟨met, rfl⟩
  | error fault =>
    obtain ⟨comparison, hc, ho, rfl⟩ := hfaults fault hm
    exact .inr ⟨comparison, hc, ho, rfl⟩

-- People with children of the same kind.
def kinship : SchemaFamily Empty where
  size := 1
  schema _ :=
    { name := "person".toList
      properties :=
        { entries := [("alive".toList, ⟨.value (.scalar .bool), false⟩),
            ("children".toList, ⟨.record 0, true⟩)]
          nodup := by decide } }
  root := 0

theorem isBuiltIn_kinship : kinship.IsBuiltIn := by
  intro schema name property hp type ht
  rcases List.mem_pair.mp (Table.mem_of_find? hp) with h | h
  · cases h
    cases ht
    rfl
  · cases h
    cases ht

def person (children : List (Record Empty)) : Record Empty :=
  .mk false fun name =>
    if name = "alive".toList then some (.value (.bool true)) else some (.records children)

theorem conforms_person {children : List (Record Empty)}
    (hc : ∀ child ∈ children, kinship.Conforms kinship.root child) :
    kinship.Conforms kinship.root (person children) := by
  apply SchemaFamily.conforms_of_entries
  intro entry he
  rcases List.mem_pair.mp he with rfl | rfl
  · exact ⟨_, rfl, .value (.scalar .bool)⟩
  · exact ⟨_, rfl, .records hc⟩

-- What `children.alive==true` asks for.
def childAlive : Comparison Empty where
  property := "children.alive".toList
  name := "children.alive".toList
  comparator := .equals
  value := .bool true
  typeInfo := .scalar (.scalar .bool)
  literal := "true".toList
  sizeCheck := false
  wildcard := none
  formats := {}

theorem isMet_of_conforms_kinship :
    (forSchemas Regex.isSmall kinship {}).parse "children.alive==true".toList = .ok (.leaf childAlive) ∧
      kinship.Conforms kinship.root (person [person []]) ∧
      ∃ met, (Condition.leaf childAlive).isMet (person [person []]) = .ok met := by
  have hp : (forSchemas Regex.isSmall kinship {}).parse "children.alive==true".toList =
      .ok (.leaf childAlive) := rfl
  have hr : kinship.Conforms kinship.root (person [person []]) :=
    conforms_person (by simpa using conforms_person (by simp))
  refine ⟨hp, hr, (isMet_of_conforms hp isBuiltIn_kinship rfl hr).resolve_right ?_⟩
  rintro ⟨comparison, hc, ho, _⟩
  rw [Condition.mem_leaves_leaf.mp hc] at ho
  exact absurd ho.2.1 (by decide)

end Language

end RecordFilter
