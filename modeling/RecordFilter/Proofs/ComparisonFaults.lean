import RecordFilter.Proofs.Parsing

namespace RecordFilter

open Outcome

-- The faults that the text of a comparison can have. Those of the grammar and of literals quote a
-- piece of the text.
inductive Fault.OfComparison (text : Text) : Fault → Prop where
  | notAComparison : OfComparison text (.notAComparison text)
  | invalidPath {quoted : Text} (hq : quoted <:+: text) : OfComparison text (.invalidPath quoted)
  | resolution {fault : Fault} (hf : fault.category = .resolution) : OfComparison text fault
  | unreadable {quoted typeName : Text} (hq : quoted <:+: text) :
    OfComparison text (.unreadable quoted typeName)

namespace Path

theorem ofDotted_faultsIn (text : Text) (sizeCheck : Bool) :
    FaultsIn (fun fault => fault = .invalidPath text) (ofDotted text sizeCheck) := by
  rw [ofDotted]
  split
  · exact faultsIn_ok _
  · exact faultsIn_error rfl

theorem infix_of_counted? {text inner : Text} (h : counted? text = some inner) : inner <:+: text := by
  obtain ⟨rest, hl, ht⟩ := Option.bind_eq_some_iff.mp h
  rw [Text.dropLead?_eq_some_iff] at hl
  rw [Text.dropTail?_eq_some_iff] at ht
  rw [hl, ht, ← List.append_assoc]
  exact List.infix_append countOpen inner [')']

theorem ofText_faultsIn (text : Text) :
    FaultsIn (fun fault => ∃ quoted, quoted <:+: text ∧ fault = .invalidPath quoted)
      (ofText text) := by
  rw [ofText]
  split
  · next inner hi =>
    exact (ofDotted_faultsIn inner true).mono fun _ hf => ⟨inner, infix_of_counted? hi, hf⟩
  · exact (ofDotted_faultsIn text false).mono fun _ hf => ⟨text, List.infix_refl text, hf⟩

end Path

variable {κ : Type}

theorem SchemaFamily.walk_faultsIn (family : SchemaFamily κ) (path : Text)
    (schema : Fin family.size) {segments : List Text} (hne : segments ≠ []) :
    FaultsIn (fun fault => fault.category = .resolution) (family.walk path schema segments) := by
  induction segments generalizing schema with
  | nil => exact absurd rfl hne
  | cons segment rest ih =>
    cases rest with
    | nil =>
      rw [walk]
      split
      · exact faultsIn_ok _
      · exact faultsIn_error rfl
    | cons next rest =>
      rw [walk]
      · split
        · exact faultsIn_error rfl
        · split
          · exact ih _ (by simp)
          · exact faultsIn_error rfl
      · simp

theorem Shape.resolve_faultsIn (shape : Shape κ) (path : Path) :
    FaultsIn (fun fault => fault.category = .resolution) (shape.resolve path) := by
  cases shape with
  | schemas family => exact family.walk_faultsIn path.dotted family.root path.segments_ne_nil
  | hints types => exact faultsIn_ok _
  | custom resolver => exact fun fault hf => resolver.category_eq hf

theorem ValueType.read_faultsIn (formats : Formats) (type : ValueType κ) (text : Text) :
    FaultsIn (fun fault => fault = .unreadable text type.name) (type.read formats text) := by
  rw [read]
  split
  · exact faultsIn_ok _
  · exact faultsIn_error rfl

theorem readSize_faultsIn (text : Text) :
    FaultsIn (fun fault => fault = .unreadable text "collection size".toList)
      (readSize text : Except Fault (Value κ)) := by
  rw [readSize]
  split
  · exact faultsIn_ok _
  · exact faultsIn_error rfl

namespace Language

variable (language : Language κ)

-- The target of an alias may be no path, but the fault is that of the alias.
theorem unalias_faultsIn (written : Path) :
    FaultsIn (fun fault => fault.category = .resolution) (language.unalias written) := by
  rw [unalias]
  split
  · exact faultsIn_ok _
  · split
    · exact faultsIn_ok _
    · exact faultsIn_error rfl

theorem wildcardFor_faultsIn (type : ValueType κ) (comparator : Comparator) (literal : Text) :
    FaultsIn (fun fault => fault = .unreadable literal "wildcard pattern".toList)
      (language.wildcardFor type comparator literal) := by
  rw [wildcardFor, Wildcard.ofLiteral_eq]
  split
  · split
    · exact faultsIn_ok _
    · exact faultsIn_error rfl
  · exact faultsIn_ok _

theorem target_faultsIn (path : Path) (info : TypeInfo κ) (comparator : Comparator)
    (literal : Text) :
    FaultsIn (fun fault => fault.category = .resolution ∨
        ∃ typeName, fault = .unreadable literal typeName)
      (language.target path info comparator literal) := by
  rw [target]
  split
  · split
    · refine faultsIn_bind ((readSize_faultsIn literal).mono fun _ hf => ?_)
        fun size _ => faultsIn_ok _
      exact .inr ⟨_, hf⟩
    · exact faultsIn_ok _
  · split
    · exact faultsIn_error (.inl rfl)
    · next type _ =>
      refine faultsIn_bind ((type.read_faultsIn language.formats literal).mono fun _ hf => ?_)
        fun value _ => ?_
      · exact .inr ⟨_, hf⟩
      · refine faultsIn_bind ((language.wildcardFor_faultsIn type comparator literal).mono
          fun _ hf => ?_) fun wildcard _ => faultsIn_ok _
        exact .inr ⟨_, hf⟩

theorem compare?_faultsIn (written : Path) (comparator : Comparator) (literal : Text) :
    FaultsIn (fun fault => fault.category = .resolution ∨
        ∃ typeName, fault = .unreadable literal typeName)
      (language.compare? written comparator literal) := by
  refine faultsIn_bind ((language.unalias_faultsIn written).mono fun _ => .inl) fun path _ => ?_
  refine faultsIn_bind ((language.shape.resolve_faultsIn path).mono fun _ => .inl) fun info _ => ?_
  exact faultsIn_bind (language.target_faultsIn path info comparator literal)
    fun _ _ => faultsIn_ok _

theorem comparison?_faultsIn (text : Text) :
    FaultsIn (Fault.OfComparison text) (language.comparison? text) := by
  rw [comparison?]
  split
  · exact faultsIn_error .notAComparison
  · next term ht =>
    have htext : term.name ++ term.token ++ term.value = text := Term.text_of_cut? ht
    have hname : term.name <:+: text := ⟨[], term.token ++ term.value, by simpa using htext⟩
    have hvalue : term.value <:+: text := ⟨term.name ++ term.token, [], by simpa using htext⟩
    split
    · exact faultsIn_error .notAComparison
    · refine faultsIn_bind ((Path.ofText_faultsIn term.name).mono ?_) fun written _ => ?_
      · rintro _ ⟨quoted, hq, rfl⟩
        exact .invalidPath (hq.trans hname)
      · refine (language.compare?_faultsIn written term.comparator term.value).mono ?_
        rintro _ (hf | ⟨typeName, rfl⟩)
        · exact .resolution hf
        · exact .unreadable hvalue

-- What has no brackets of its own around it is at fault only as a comparison.
theorem part?_faultsIn {language : Language κ} {allowed : Fault → Prop}
    {nested : Text → Nat → Except Fault (Option (Condition κ))} {part : Part}
    (hnested : ∀ inner, Expression.unwrapped? part.text = some inner →
      FaultsIn allowed (nested inner (part.start + 1)))
    (hcomparison : ∀ fault, Fault.OfComparison part.text fault → allowed fault) :
    FaultsIn allowed (language.part? nested part) := by
  rw [part?]
  split
  · next inner hi => exact hnested inner hi
  · split
    · exact faultsIn_error (hcomparison _ .notAComparison)
    · exact faultsIn_bind ((language.comparison?_faultsIn part.text).mono hcomparison)
        fun comparison _ => faultsIn_ok _

end Language

end RecordFilter
