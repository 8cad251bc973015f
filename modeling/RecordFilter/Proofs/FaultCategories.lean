import RecordFilter.Proofs.BracketFaults
import RecordFilter.Proofs.Branches
import RecordFilter.Proofs.Decomposition
import RecordFilter.Proofs.Typing

namespace RecordFilter

open Outcome

-- The text that a fault of reading quotes. A fault of resolution names properties instead.
def Fault.quoted? : Fault → Option Text
  | unmatchedBrackets text | danglingOperator text | notAComparison text | invalidPath text
  | noConditions text | unreadable text _ => some text
  | _ => none

-- The faults that the reading of a text can have.
structure Fault.OfText (text : Text) (fault : Fault) : Prop where
  category : fault.category = .grammar ∨ fault.category = .resolution ∨ fault.category = .coercion
  quoted : ∀ quoted, fault.quoted? = some quoted → quoted <:+: text

namespace Fault

variable {text : Text} {fault : Fault}

theorem OfText.mono {piece : Text} (h : fault.OfText piece) (hp : piece <:+: text) :
    fault.OfText text :=
  ⟨h.category, fun quoted hq => (h.quoted quoted hq).trans hp⟩

theorem ofText_of_grammar (hc : fault.category = .grammar)
    (hq : ∀ quoted, fault.quoted? = some quoted → quoted <:+: text) : fault.OfText text :=
  ⟨.inl hc, hq⟩

theorem quoted?_of_resolution (hc : fault.category = .resolution) : fault.quoted? = none := by
  cases fault with
  | unknownProperty path segment => rfl
  | notNested path segment => rfl
  | notAValue path => rfl
  | invalidAlias name target => rfl
  | _ => cases hc

theorem OfComparison.ofText (h : fault.OfComparison text) : fault.OfText text := by
  cases h with
  | notAComparison => exact ofText_of_grammar rfl fun _ hq => by cases hq; exact List.infix_refl text
  | invalidPath hi => exact ofText_of_grammar rfl fun _ hq => by cases hq; exact hi
  | resolution hf =>
    refine ⟨.inr (.inl hf), fun quoted hq => ?_⟩
    rw [quoted?_of_resolution hf] at hq
    cases hq
  | unreadable hi => exact ⟨.inr (.inr rfl), fun _ hq => by cases hq; exact hi⟩

end Fault

namespace Expression

theorem infix_of_mem {expression : List Part} {part : Part} (hp : part ∈ expression) :
    part.text <:+: rejoin expression := by
  obtain ⟨before, behind, rfl⟩ := List.append_of_mem hp
  refine ⟨rejoin before, (part.connective.map Connective.symbol).toList ++ rejoin behind, ?_⟩
  simp [rejoin, Part.written]

theorem infix_of_danglingEnd? {expression : List Part} {ending : Text}
    (h : danglingEnd? expression = some ending) : ending <:+: rejoin expression := by
  obtain ⟨before, part, last, connective, rfl, hc, -, rfl⟩ := danglingEnd?_eq_some_iff.mp h
  refine ⟨rejoin before, last.written, ?_⟩
  simp [rejoin, Part.written, hc]

theorem infix_of_unwrapped? {text inner : Text} (h : unwrapped? text = some inner) :
    inner <:+: text := by
  obtain ⟨rfl, -⟩ := unwrapped?_eq_some_iff.mp h
  exact List.infix_append ['('] inner [')']

theorem rejoin_split {text : Text} {start : Nat} {expression : List Part}
    (h : split text start = .ok expression) : rejoin expression = text := by
  obtain ⟨-, rfl⟩ := split_eq_ok h
  rw [rejoin_parts, rejoin_cut]

theorem split_ofText (text : Text) (start : Nat) :
    FaultsIn (Fault.OfText text) (split text start) := by
  by_cases hn : Nested text
  · rw [split_of_nested hn]
    split
    · exact faultsIn_error (Fault.ofText_of_grammar rfl nofun)
    · split
      · next ending hd =>
        have hi := infix_of_danglingEnd? hd
        rw [rejoin_parts, rejoin_cut] at hi
        exact faultsIn_error (Fault.ofText_of_grammar rfl fun _ hq => by cases hq; exact hi)
      · exact faultsIn_ok _
  · have hb : balance 0 start text ≠ .even := fun h => hn (balance_eq_even_iff.mp h)
    rw [split_of_uneven hb]
    split
    · exact faultsIn_error (Fault.ofText_of_grammar rfl nofun)
    · exact faultsIn_error (Fault.ofText_of_grammar rfl fun _ hq => by
        cases hq
        exact List.infix_refl text)

end Expression

variable {κ : Type}

namespace Language

variable (language : Language κ)

-- Every text in brackets is a piece of the text that they stand in, however deep. So the induction
-- follows the brackets inwards.
theorem expression?_ofText (levels : Nat) (text : Text) (start : Nat) :
    FaultsIn (Fault.OfText text) (language.expression? levels text start) := by
  induction levels generalizing text start with
  | zero => exact faultsIn_error (Fault.ofText_of_grammar rfl nofun)
  | succ levels ih =>
    refine faultsIn_bind (Expression.split_ofText text start) fun expression hs => ?_
    have htext := Expression.rejoin_split hs
    refine faultsIn_bind (faultsIn_groups? fun part hp => ?_) fun _ _ => faultsIn_ok _
    have hpart : part.text <:+: text := htext ▸ Expression.infix_of_mem hp
    refine part?_faultsIn (fun inner hi => ?_) fun fault hf => hf.ofText.mono hpart
    exact (ih inner (part.start + 1)).mono fun fault hf =>
      hf.mono ((Expression.infix_of_unwrapped? hi).trans hpart)

theorem parse_ofText (text : Text) : FaultsIn (Fault.OfText text) (language.parse text) := by
  refine faultsIn_bind (language.expression?_ofText _ text 0) fun result _ => ?_
  cases result with
  | some condition => exact faultsIn_ok condition
  | none =>
    exact faultsIn_error (Fault.ofText_of_grammar rfl fun _ hq => by
      cases hq
      exact List.infix_refl text)

end Language

def Fault.OfEvaluation (fault : Fault) : Prop := fault.category = .evaluation

namespace Record

theorem IsBlocked.ofEvaluation {path : Text} {fault : Fault} (h : IsBlocked path fault) :
    fault.OfEvaluation := by
  rcases h with rfl | ⟨segment, -, rfl⟩ <;> rfl

theorem resolve_ofEvaluation (record : Record κ) (path : Text) :
    FaultsIn Fault.OfEvaluation (record.resolve path) := by
  rw [resolve]
  split
  · refine faultsIn_bind ((field_isBlocked path record path).mono fun fault => ?_)
      fun field _ => faultsIn_ok _
    exact IsBlocked.ofEvaluation
  · exact (walk_isBlocked (fun segment hs => hs) _).mono fun fault => IsBlocked.ofEvaluation

end Record

namespace Comparison

variable (comparison : Comparison κ)

-- A text that cannot be read as a literal would be is no fault of coercion here.
theorem typed_ofEvaluation (live : Value κ) :
    FaultsIn Fault.OfEvaluation (comparison.typed live) := by
  rw [typed.eq_def]
  split
  · split
    · exact faultsIn_ok _
    · split
      · exact faultsIn_ok _
      · exact faultsIn_error rfl
  · exact faultsIn_ok _

theorem elements_ofEvaluation (field : Field κ) :
    FaultsIn Fault.OfEvaluation (comparison.elements field) := by
  cases field with
  | null => exact faultsIn_ok _
  | value value => exact faultsIn_ok _
  | values values => exact faultsIn_ok _
  | record record => exact faultsIn_error rfl
  | records records => exact faultsIn_error rfl

variable [CustomValue κ]

theorem compareTyped_ofEvaluation (comparator : Comparator) (live : Value κ) :
    FaultsIn Fault.OfEvaluation (comparison.compareTyped comparator live) := by
  rw [compareTyped]
  split
  · exact faultsIn_error rfl
  · split
    · exact faultsIn_ok _
    · split
      · exact faultsIn_error rfl
      · split
        · exact faultsIn_ok _
        · exact faultsIn_error rfl

theorem matchesElement_ofEvaluation (comparator : Comparator) (live : Value κ) :
    FaultsIn Fault.OfEvaluation (comparison.matchesElement comparator live) := by
  refine faultsIn_bind (comparison.typed_ofEvaluation live) fun value _ => ?_
  split
  · exact faultsIn_ok _
  · exact comparison.compareTyped_ofEvaluation comparator _

theorem holdsForAny_ofEvaluation (elements : List (Value κ)) :
    FaultsIn Fault.OfEvaluation (comparison.holdsForAny elements) := by
  rw [holdsForAny]
  split
  · exact faultsIn_bind (faultsIn_anyM fun live _ => comparison.matchesElement_ofEvaluation .equals live)
      fun found _ => faultsIn_ok _
  · exact faultsIn_anyM fun live _ => comparison.matchesElement_ofEvaluation comparison.comparator live

theorem valuesHold_ofEvaluation (fields : List (Field κ)) :
    FaultsIn Fault.OfEvaluation (comparison.valuesHold fields) := by
  refine faultsIn_bind (faultsIn_mapM fun field _ => comparison.elements_ofEvaluation field)
    fun elements _ => ?_
  split
  · exact faultsIn_ok false
  · exact comparison.holdsForAny_ofEvaluation elements.flatten

theorem sizeOrdering_ofEvaluation (field : Field κ) :
    FaultsIn Fault.OfEvaluation (comparison.sizeOrdering field) := by
  cases field with
  | values elements | records elements =>
    rw [sizeOrdering, ok_bind]
    dsimp only
    split
    · exact faultsIn_ok _
    · exact faultsIn_error rfl
  | _ => exact faultsIn_error rfl

theorem sizesHold_ofEvaluation (fields : List (Field κ)) :
    FaultsIn Fault.OfEvaluation (comparison.sizesHold fields) := by
  refine faultsIn_bind (faultsIn_mapM fun field _ => comparison.sizeOrdering_ofEvaluation field)
    fun orderings _ => ?_
  split
  · exact faultsIn_ok false
  · split
    · exact faultsIn_ok _
    · exact faultsIn_ok _

theorem holds_ofEvaluation (record : Record κ) :
    FaultsIn Fault.OfEvaluation (comparison.holds record) := by
  refine faultsIn_bind (record.resolve_ofEvaluation comparison.property) fun fields _ => ?_
  split
  · exact comparison.sizesHold_ofEvaluation fields
  · exact comparison.valuesHold_ofEvaluation fields

end Comparison

namespace Language

variable [CustomValue κ]

-- Reading fails in the grammar, in a name or in a literal, and quotes nothing but pieces of the
-- text. Evaluation has faults of its own kind only, whatever the condition and the record are.
theorem faults_disciplined (language : Language κ) (text : Text) :
    (∀ fault, language.parse text = .error fault →
      (fault.category = .grammar ∨ fault.category = .resolution ∨ fault.category = .coercion) ∧
        ∀ quoted, fault.quoted? = some quoted → quoted <:+: text) ∧
    ∀ (condition : Condition κ) (record : Record κ) fault,
      condition.isMet record = .error fault → fault.category = .evaluation := by
  refine ⟨fun fault hf => ?_, fun condition record fault hf => ?_⟩
  · obtain ⟨hcategory, hquoted⟩ := language.parse_ofText text fault hf
    exact ⟨hcategory, hquoted⟩
  · have hleaves : ∀ comparison ∈ condition.leaves,
        FaultsIn Fault.OfEvaluation (comparison.holds record) :=
      fun comparison _ => comparison.holds_ofEvaluation record
    exact Condition.faultsIn_isMet hleaves fault hf

-- The record knows no name at all.
theorem faults_disciplined_brackets :
    let language : Language Empty := .forBags Regex.isSmall {}
    let text : Text := "a==1,(b==é;(c==é,d==é;))".toList
    let fault : Fault := .danglingOperator "d==é;".toList
    let mute : Record Empty := .mk false fun _ => none
    language.parse text = .error fault ∧
      (fault.category = .grammar ∨ fault.category = .resolution ∨ fault.category = .coercion) ∧
      "d==é;".toList <:+: text ∧
      ∃ condition, language.parse "a==1".toList = .ok condition ∧
        condition.isMet mute = .error (.unresolvable ['a']) ∧
        (Fault.unresolvable ['a']).category = .evaluation := by
  intro language text fault mute
  have hf : language.parse text = .error fault := rfl
  obtain ⟨condition, hp, hmute⟩ : ∃ condition, language.parse "a==1".toList = .ok condition ∧
      condition.isMet mute = .error (.unresolvable ['a']) := ⟨_, rfl, rfl⟩
  obtain ⟨hreading, hevaluation⟩ := faults_disciplined language text
  obtain ⟨hcategory, hquoted⟩ := hreading fault hf
  exact ⟨hf, hcategory, hquoted _ rfl, condition, hp, hmute, hevaluation condition mute _ hmute⟩

end Language

end RecordFilter
