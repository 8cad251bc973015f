import RecordFilter.Proofs.Equality
import RecordFilter.Proofs.Interchange

namespace RecordFilter

variable {κ : Type}

-- A bag looks only at the name that the whole path makes.
theorem Bag.resolve_toRecord (bag : Bag) (path : Text) :
    (bag.toRecord : Record κ).resolve path =
      .ok ((bag.find? path).toList.map fun text => .value (.string text)) := by
  cases hf : bag.find? path with
  | none => simp [Record.resolve, toRecord, Record.isFlat, Record.field, Record.field?, hf, Field.isNull]
  | some text => simp [Record.resolve, toRecord, Record.isFlat, Record.field, Record.field?, hf, Field.isNull]

variable [CustomValue κ]

namespace Comparison

variable {comparison : Comparison κ} {type : ValueType κ} {stored : Text}

theorem matchesElement_of_unreadable (ht : comparison.typeInfo.valueType? = some type)
    (hr : type.read? comparison.formats stored = none) (comparator : Comparator) :
    comparison.matchesElement comparator (.string stored) =
      .error (.mismatch comparison.property (.unreadable stored type.name)) := by
  have hs : type.isString ≠ true := by
    intro hs
    rw [ValueType.read?_of_isString hs] at hr
    cases hr
  simp [matchesElement, typed, ht, hr, hs]

theorem valuesHold_of_unreadable (ht : comparison.typeInfo.valueType? = some type)
    (hr : type.read? comparison.formats stored = none) :
    comparison.valuesHold [.value (.string stored)] =
      .error (.mismatch comparison.property (.unreadable stored type.name)) := by
  have hmatch := matchesElement_of_unreadable ht hr
  have hholds : comparison.holdsForAny [.string stored] =
      .error (.mismatch comparison.property (.unreadable stored type.name)) := by
    simp [holdsForAny, hmatch]
  exact hholds

-- How a comparison goes wrong on a text that a bag has for its property.
def FailsOn (comparison : Comparison κ) (stored : Text) (fault : Fault) : Prop :=
  (∃ type, comparison.typeInfo.valueType? = some type ∧ comparison.read? stored = none ∧
      fault = .mismatch comparison.property (.unreadable stored type.name)) ∨
    (comparison.OrdersBool ∧ fault = .unordered comparison.comparator "bool".toList)

-- A text that cannot be read is the fault, and a text that can be read is as good as its value.
theorem valuesHold_string_faultsIn (hb : type.isBuiltIn = true)
    (ht : comparison.typeInfo.valueType? = some type) (hl : type.Admits comparison.value)
    (hs : comparison.sizeCheck = false) (stored : Text) :
    Outcome.FaultsIn (comparison.FailsOn stored)
      (comparison.valuesHold [.value (.string stored)]) := by
  cases hr : type.read? comparison.formats stored with
  | none =>
    rw [valuesHold_of_unreadable ht hr]
    rintro fault ⟨⟩
    exact .inl ⟨type, ht, by rw [read?, ht]; exact hr, rfl⟩
  | some value =>
    have hv : ∀ live ∈ [value], type.Admits live :=
      List.forall_mem_singleton.mpr (ValueType.admits_of_read? hb hr)
    rw [valuesHold_string ht hr]
    intro fault hf
    obtain ⟨ho, rfl, hfault⟩ := holdsForAny_faultsIn hb ht hl hv fault hf
    exact .inr ⟨⟨hs, ho, ht⟩, hfault⟩

theorem holds_toRecord_congr {bag other : Bag}
    (h : bag.find? comparison.property = other.find? comparison.property) :
    comparison.holds bag.toRecord = comparison.holds other.toRecord := by
  rw [holds, holds, Bag.resolve_toRecord, Bag.resolve_toRecord, h]

end Comparison

namespace Language

variable {builds : Regex → Bool} {settings : Settings κ} {text : Text} {condition : Condition κ}

theorem holds_bag_faultsIn (hb : (forBags builds settings).shape.IsBuiltIn)
    (hp : (forBags builds settings).parse text = .ok condition) {comparison : Comparison κ}
    (hc : comparison ∈ condition.leaves) (bag : Bag) :
    Outcome.FaultsIn (fun fault => ∃ stored, bag.find? comparison.property = some stored ∧
      comparison.FailsOn stored fault) (comparison.holds bag.toRecord) := by
  obtain ⟨path, _, hsize, _, hresolve, htarget⟩ := resolved_of_parse hp hc
  rw [Comparison.holds, Bag.resolve_toRecord, Outcome.ok_bind]
  rcases target_eq_some htarget with ⟨_, hcollection, _⟩ | ⟨hcount, type, htype, hread, _⟩
  · -- a bag has no collections
    have hinfo : TypeInfo.scalar _ = comparison.typeInfo := Except.ok.inj hresolve
    rw [← hinfo] at hcollection
    cases hcollection
  · have hvalue : comparison.sizeCheck = false := hsize.trans hcount
    have hbuilt : type.isBuiltIn = true := Shape.isBuiltIn_of_resolve hb hresolve htype
    rw [if_neg (by simp [hvalue])]
    cases hf : bag.find? comparison.property with
    | none => exact Outcome.faultsIn_ok false
    | some stored =>
      intro fault he
      exact ⟨stored, rfl, Comparison.valuesHold_string_faultsIn hbuilt htype
        (ValueType.admits_of_read? hbuilt hread) hvalue stored fault he⟩

-- A filter fails on a bag only where a text of the bag cannot be read as what it is declared as, or
-- where truth values are to be ordered. Names that the filter does not mention have no effect.
theorem isMet_toRecord (hb : (forBags builds settings).shape.IsBuiltIn)
    (hp : (forBags builds settings).parse text = .ok condition) (bag : Bag) :
    ((∀ comparison ∈ condition.leaves, ∀ stored, bag.find? comparison.property = some stored →
        comparison.read? stored ≠ none ∧ ¬comparison.OrdersBool) →
      ∃ met, condition.isMet bag.toRecord = .ok met) ∧
    (∀ fault, condition.isMet bag.toRecord = .error fault →
      (∃ comparison ∈ condition.leaves, ∃ stored, bag.find? comparison.property = some stored ∧
        comparison.FailsOn stored fault) ∧ ∀ path, fault ≠ .unresolvable path) ∧
    ∀ other : Bag,
      (∀ comparison ∈ condition.leaves,
        bag.find? comparison.property = other.find? comparison.property) →
      condition.isMet bag.toRecord = condition.isMet other.toRecord := by
  have hfaults : Outcome.FaultsIn (fun fault => ∃ comparison ∈ condition.leaves, ∃ stored,
      bag.find? comparison.property = some stored ∧ comparison.FailsOn stored fault)
      (condition.isMet bag.toRecord) :=
    Condition.faultsIn_isMet fun comparison hc fault hf =>
      ⟨comparison, hc, holds_bag_faultsIn hb hp hc bag fault hf⟩
  refine ⟨fun hgood => ?_, fun fault hf => ⟨hfaults fault hf, ?_⟩, fun other hagree => ?_⟩
  · cases hm : condition.isMet bag.toRecord with
    | ok met => exact ⟨met, rfl⟩
    | error fault =>
      obtain ⟨comparison, hc, stored, hs, hfails⟩ := hfaults fault hm
      obtain ⟨hread, hordered⟩ := hgood comparison hc stored hs
      rcases hfails with ⟨_, _, hunread, _⟩ | ⟨ho, _⟩
      · exact absurd hunread hread
      · exact absurd ho hordered
  · rintro path rfl
    obtain ⟨_, _, _, _, ⟨_, _, _, he⟩ | ⟨_, he⟩⟩ := hfaults _ hf
    · cases he
    · cases he
  · exact Condition.isMet_congr fun comparison hc =>
      Comparison.holds_toRecord_congr (hagree comparison hc)

theorem isMet_toRecord_isAdult :
    let settings : Settings Empty :=
      { typeHints := { entries := [("age".toList, .scalar (.signed .w32))], nodup := by decide } }
    let adult : Bag :=
      { entries := [("age".toList, "21".toList), ("name".toList, "Ann".toList)]
        nodup := by decide }
    let nameless : Bag := { entries := [("age".toList, "21".toList)], nodup := by decide }
    let unclear : Bag := { entries := [("age".toList, "old".toList)], nodup := by decide }
    (forBags Regex.isSmall settings).parse "age=gt=18".toList = .ok (.leaf isAdult) ∧
      (∃ met, (Condition.leaf isAdult).isMet adult.toRecord = .ok met) ∧
      (Condition.leaf isAdult).isMet adult.toRecord =
        (Condition.leaf isAdult).isMet nameless.toRecord ∧
      ∃ comparison ∈ (Condition.leaf isAdult).leaves, ∃ stored,
        unclear.find? comparison.property = some stored ∧ comparison.FailsOn stored
          (.mismatch "age".toList (.unreadable "old".toList "i32".toList)) := by
  intro settings adult nameless unclear
  have hb : (forBags Regex.isSmall settings).shape.IsBuiltIn := Shape.isBuiltIn_hints (by decide)
  have hp : (forBags Regex.isSmall settings).parse "age=gt=18".toList = .ok (.leaf isAdult) := rfl
  have hleaf : (Condition.leaf isAdult).leaves = [isAdult] := rfl
  have hgood : ∀ comparison ∈ (Condition.leaf isAdult).leaves, ∀ stored,
      adult.find? comparison.property = some stored →
        comparison.read? stored ≠ none ∧ ¬comparison.OrdersBool := by
    rw [hleaf, List.forall_mem_singleton]
    rintro stored ⟨⟩
    exact ⟨nofun, fun ho => nomatch ho.2.2⟩
  have hagree : ∀ comparison ∈ (Condition.leaf isAdult).leaves,
      adult.find? comparison.property = nameless.find? comparison.property := by
    rw [hleaf, List.forall_mem_singleton]
    rfl
  have hfault : (Condition.leaf isAdult).isMet unclear.toRecord =
      .error (.mismatch "age".toList (.unreadable "old".toList "i32".toList)) := rfl
  exact ⟨hp, (isMet_toRecord hb hp adult).1 hgood,
    (isMet_toRecord hb hp adult).2.2 nameless hagree,
    ((isMet_toRecord hb hp unclear).2.1 _ hfault).1⟩

end Language

end RecordFilter
