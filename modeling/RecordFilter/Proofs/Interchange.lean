import RecordFilter.Proofs.Parsing
import RecordFilter.Proofs.Typing

namespace RecordFilter

variable {κ : Type}

namespace SchemaFamily

-- The root schema declares single values only, and the hints give just their types.
structure HintedBy (family : SchemaFamily κ) (hints : Table (ValueType κ)) : Prop where
  isSingle : ∀ name property, family.property? family.root name = some property →
    ∃ type, property = ⟨.value type, false⟩
  hint_iff : ∀ name type, hints.find? name = some type ↔
    family.property? family.root name = some ⟨.value type, false⟩

-- A field as the text of a bag, if there is one, gives it.
inductive Reads (formats : Formats) (type : ValueType κ) : Option Text → Field κ → Prop where
  | absent : Reads formats type none .null
  | present {text : Text} {value : Value κ} (hr : type.read? formats text = some value) :
    Reads formats type (some text) (.value value)

-- A record that answers all declared names with what the texts of a bag are read as.
def Mirrors (family : SchemaFamily κ) (formats : Formats) (bag : Bag) (record : Record κ) : Prop :=
  ∀ name type, family.property? family.root name = some ⟨.value type, false⟩ →
    ∃ field, record.field? name = some field ∧ Reads formats type (bag.find? name) field

theorem nodup_names_single (size : Nat) (hints : Table (ValueType κ)) :
    ((hints.entries.map fun entry =>
      (entry.1, (⟨.value entry.2, false⟩ : Property κ size))).map Prod.fst).Nodup := by
  rw [List.map_map]
  exact hints.nodup

-- The one schema that declares each hint as a single value.
def ofHints (hints : Table (ValueType κ)) : SchemaFamily κ where
  size := 1
  schema _ :=
    { name := []
      properties :=
        { entries := hints.entries.map fun entry => (entry.1, ⟨.value entry.2, false⟩)
          nodup := nodup_names_single 1 hints } }
  root := ⟨0, Nat.zero_lt_one⟩

theorem property?_ofHints (hints : Table (ValueType κ)) (schema : Fin (ofHints hints).size)
    (name : Text) :
    (ofHints hints).property? schema name =
      (hints.find? name).map fun type => ⟨.value type, false⟩ := by
  simp only [property?, ofHints, Table.find?]
  induction hints.entries with
  | nil => rfl
  | cons entry rest ih =>
    rw [List.map_cons, List.lookup_cons, List.lookup_cons, ih]
    split <;> rfl

theorem hintedBy_ofHints (hints : Table (ValueType κ)) : (ofHints hints).HintedBy hints where
  isSingle name property hp := by
    rw [property?_ofHints] at hp
    obtain ⟨type, _, rfl⟩ := Option.map_eq_some_iff.mp hp
    exact ⟨type, rfl⟩
  hint_iff name type := by
    rw [property?_ofHints, Option.map_eq_some_iff]
    constructor
    · exact fun h => ⟨type, h, rfl⟩
    · rintro ⟨other, ho, he⟩
      cases he
      exact ho

variable {family : SchemaFamily κ} {hints : Table (ValueType κ)}

-- Without nested records every path that the schema knows is a single name, which is also
-- the name that a bag is asked for.
theorem resolve_eq_ok (h : family.HintedBy hints) {path : Path} {info : TypeInfo κ}
    (hr : family.resolve path = .ok info) :
    ∃ type, path.segments = [path.dotted] ∧
      family.property? family.root path.dotted = some ⟨.value type, false⟩ ∧
      info = .scalar type := by
  rw [resolve] at hr
  match hs : path.segments with
  | [] => exact absurd hs path.segments_ne_nil
  | [name] =>
    have hd : path.dotted = name := by rw [Path.dotted, hs, Text.join]
    rw [hs, walk] at hr
    split at hr
    · next property hp =>
      obtain ⟨type, rfl⟩ := h.isSingle name property hp
      cases hr
      exact ⟨type, by rw [hd], by rw [hd, hp], rfl⟩
    · cases hr
  | segment :: next :: rest =>
    rw [hs, walk] at hr
    · split at hr
      · cases hr
      · next property hp =>
        obtain ⟨type, rfl⟩ := h.isSingle segment property hp
        cases hr
    · simp

theorem resolve_hints_eq_ok (h : family.HintedBy hints) {path : Path} {info : TypeInfo κ}
    (hr : family.resolve path = .ok info) : (Shape.hints hints).resolve path = .ok info := by
  obtain ⟨type, _, hp, rfl⟩ := resolve_eq_ok h hr
  rw [Shape.resolve, (h.hint_iff path.dotted type).mpr hp]
  rfl

end SchemaFamily

-- A single name is answered in the same way by flat and by other records.
theorem Record.resolve_eq_ok {record : Record κ} {name : Text} {field : Field κ}
    (hs : Text.split '.' name = [name]) (hf : record.field? name = some field) :
    record.resolve name = .ok (if field.isNull then [] else [field]) := by
  have hfield : record.field name name = .ok field := by rw [Record.field, hf]
  rw [resolve]
  split
  · rw [hfield, Outcome.ok_bind]
  · rw [hs, walk, List.mapM_cons, hfield]
    cases field <;> rfl

namespace Comparison

variable [CustomValue κ] {comparison : Comparison κ} {type : ValueType κ}

theorem matchesElement_string (ht : comparison.typeInfo.valueType? = some type) {text : Text}
    {value : Value κ} (hr : type.read? comparison.formats text = some value)
    (comparator : Comparator) :
    comparison.matchesElement comparator (.string text) =
      comparison.matchesElement comparator value := by
  have hvalue : comparison.typed value = .ok value := by
    apply typed_eq_self ht
    rintro other rfl
    exact ValueType.isString_of_read? hr
  -- what is declared as text is not read at all, but reading would not change it either
  have htext : comparison.typed (.string text) = .ok value := by
    by_cases hs : type.isString = true
    · rw [ValueType.read?_of_isString hs] at hr
      cases hr
      exact hvalue
    · simp only [typed, ht, hr, if_neg hs]
  rw [matchesElement, matchesElement, htext, hvalue]

theorem valuesHold_string (ht : comparison.typeInfo.valueType? = some type) {text : Text}
    {value : Value κ} (hr : type.read? comparison.formats text = some value) :
    comparison.valuesHold [.value (.string text)] = comparison.valuesHold [.value value] := by
  have hmatch := matchesElement_string ht hr
  have hholds : comparison.holdsForAny [.string text] = comparison.holdsForAny [value] := by
    simp only [holdsForAny, List.anyM_cons, hmatch]
  exact hholds

end Comparison

namespace Language

variable {builds : Regex → Bool} {family : SchemaFamily κ} {settings : Settings κ}

theorem comparison?_forBags (h : family.HintedBy settings.typeHints) (member : Text)
    (result : Option (Comparison κ))
    (hc : (forSchemas builds family settings).comparison? member = .ok result) :
    (forBags builds settings).comparison? member = .ok result := by
  have hcompare : ∀ written comparator literal,
      (forSchemas builds family settings).compare? written comparator literal = .ok result →
      (forBags builds settings).compare? written comparator literal = .ok result := by
    intro written comparator literal hw
    obtain ⟨path, hp, hw⟩ := Outcome.bind_eq_ok_iff.mp hw
    obtain ⟨info, hi, hw⟩ := Outcome.bind_eq_ok_iff.mp hw
    refine Outcome.bind_eq_ok_iff.mpr ⟨path, hp, Outcome.bind_eq_ok_iff.mpr ⟨info, ?_, hw⟩⟩
    exact SchemaFamily.resolve_hints_eq_ok h hi
  have hs : (forSchemas builds family settings).singleEquals = (forBags builds settings).singleEquals := rfl
  rw [comparison?, hs] at hc
  rw [comparison?]
  split at hc
  · cases hc
  · next term ht =>
    split at hc
    · cases hc
    · next hv =>
      obtain ⟨written, hw, hc⟩ := Outcome.bind_eq_ok_iff.mp hc
      simp only [hv]
      exact Outcome.bind_eq_ok_iff.mpr ⟨written, hw, hcompare written _ _ hc⟩

variable [CustomValue κ]

theorem holds_toRecord (h : family.HintedBy settings.typeHints) {bag : Bag} {record : Record κ}
    (hm : family.Mirrors settings.formats bag record)
    {text : Text} {condition : Condition κ}
    (hp : (forSchemas builds family settings).parse text = .ok condition) {comparison : Comparison κ}
    (hc : comparison ∈ condition.leaves) :
    comparison.holds bag.toRecord = comparison.holds record := by
  obtain ⟨path, hproperty, hsize, hformats, hresolve, htarget⟩ := resolved_of_parse hp hc
  obtain ⟨type, hsegments, hdeclared, hinfo⟩ := SchemaFamily.resolve_eq_ok h hresolve
  obtain ⟨field, hfield, hreads⟩ := hm path.dotted type hdeclared
  have hsplit : Text.split '.' path.dotted = [path.dotted] := by rw [path.split_dotted, hsegments]
  have htype : comparison.typeInfo.valueType? = some type := by rw [hinfo]; rfl
  have hcount : comparison.sizeCheck = false := by
    rcases target_eq_some htarget with ⟨_, hcollection, _⟩ | ⟨hcount, _⟩
    · rw [hinfo] at hcollection
      cases hcollection
    · rw [hsize, hcount]
  have hread : record.resolve path.dotted = _ := Record.resolve_eq_ok hsplit hfield
  cases hb : bag.find? path.dotted with
  | none =>
    rw [hb] at hreads
    cases hreads
    have hbag : (bag.toRecord : Record κ).field? path.dotted = some .null := by
      simp [Bag.toRecord, Record.field?, hb]
    rw [Comparison.holds, Comparison.holds, hproperty, Record.resolve_eq_ok hsplit hbag, hread]
  | some stored =>
    rw [hb] at hreads
    cases hreads with
    | present hr =>
      have hbag : (bag.toRecord : Record κ).field? path.dotted =
          some (.value (.string stored)) := by
        simp [Bag.toRecord, Record.field?, hb]
      have hvalues := Comparison.valuesHold_string htype (by rwa [hformats])
      rw [Comparison.holds, Comparison.holds, hproperty, Record.resolve_eq_ok hsplit hbag, hread]
      simpa [Field.isNull, hcount] using hvalues

-- A bag with hints can stand in for a record with a schema of single values. A filter that
-- is read against the schema is read in the same way from the hints, and asks the same of
-- the texts of the bag as of the values that they are read as.
theorem parse_forBags (h : family.HintedBy settings.typeHints) {bag : Bag} {record : Record κ}
    (hm : family.Mirrors settings.formats bag record)
    {text : Text} {condition : Condition κ}
    (hp : (forSchemas builds family settings).parse text = .ok condition) :
    (forBags builds settings).parse text = .ok condition ∧
      condition.isMet bag.toRecord = condition.isMet record :=
  ⟨parse_mono (comparison?_forBags h) hp,
    Condition.isMet_congr fun _ hc => holds_toRecord h hm hp hc⟩

-- What `age=gt=18` asks for.
def isAdult : Comparison Empty where
  property := "age".toList
  name := "age".toList
  comparator := .greaterThan
  value := .integer 18
  typeInfo := .scalar (.scalar (.signed .w32))
  literal := "18".toList
  sizeCheck := false
  wildcard := none
  formats := {}

theorem parse_forBags_isAdult :
    let settings : Settings Empty :=
      { typeHints := { entries := [("age".toList, .scalar (.signed .w32))], nodup := by decide } }
    let bag : Bag := { entries := [("age".toList, "21".toList)], nodup := by decide }
    let record : Record Empty := .mk false fun _ => some (.value (.integer 21))
    (forSchemas Regex.isSmall (.ofHints settings.typeHints) settings).parse "age=gt=18".toList =
        .ok (.leaf isAdult) ∧
      (forBags Regex.isSmall settings).parse "age=gt=18".toList = .ok (.leaf isAdult) ∧
      (Condition.leaf isAdult).isMet bag.toRecord = (Condition.leaf isAdult).isMet record := by
  intro settings bag record
  have hp : (forSchemas Regex.isSmall (.ofHints settings.typeHints) settings).parse "age=gt=18".toList =
      .ok (.leaf isAdult) := rfl
  have hm : (SchemaFamily.ofHints settings.typeHints).Mirrors settings.formats bag record := by
    intro name type hn
    rw [SchemaFamily.property?_ofHints] at hn
    obtain ⟨declared, hd, he⟩ := Option.map_eq_some_iff.mp hn
    cases List.mem_singleton.mp (Table.mem_of_find? hd)
    cases he
    exact ⟨_, rfl, .present rfl⟩
  exact ⟨hp, parse_forBags (SchemaFamily.hintedBy_ofHints settings.typeHints) hm hp⟩

end Language

end RecordFilter
