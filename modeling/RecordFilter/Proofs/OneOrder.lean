import RecordFilter.Proofs.Decomposition
import RecordFilter.Proofs.Duality
import RecordFilter.Proofs.Equality
import RecordFilter.Proofs.Interchange
import RecordFilter.Proofs.RoundTrip
import RecordFilter.Proofs.ValueOrder

namespace RecordFilter

variable {κ : Type}

-- The live values that a field at the end of a path holds.
def Field.elements : Field κ → List (Value κ)
  | .null | .record _ | .records _ => []
  | .value live => [live]
  | .values live => live

-- The size of the collection that a field holds.
def Field.sizes : Field κ → List Nat
  | .null | .value _ | .record _ => []
  | .values live => [live.length]
  | .records live => [live.length]

-- How many elements of a record are at the end of a path, or how many collections if their sizes are
-- asked for.
def Record.reached (record : Record κ) (path : Path) : Except Fault Nat := do
  let fields ← record.resolve path.dotted
  .ok (if path.sizeCheck then (fields.flatMap Field.sizes).length
    else (fields.flatMap Field.elements).length)

-- Answers to all comparisons of so many elements with one literal, as a single order gives them.
structure FollowsOrder (answer : Comparator → Bool) (reached : Nat) : Prop where
  greaterOrEquals : answer .greaterOrEquals = (answer .greaterThan || answer .equals)
  lessOrEquals : answer .lessOrEquals = (answer .lessThan || answer .equals)
  total : 0 < reached → answer .greaterOrEquals = true ∨ answer .lessThan = true
  trichotomy : reached = 1 →
    ∃! comparator, comparator ∈ [.lessThan, .equals, .greaterThan] ∧ answer comparator = true

theorem Comparator.existsUnique_accepts (ordering : Ordering) :
    ∃! comparator, comparator ∈ [lessThan, equals, greaterThan] ∧
      comparator.accepts ordering = true := by
  cases ordering with
  | lt =>
    refine ⟨lessThan, by decide, ?_⟩
    rintro comparator ⟨hm, ha⟩
    cases comparator <;> simp_all [accepts]
  | eq =>
    refine ⟨equals, by decide, ?_⟩
    rintro comparator ⟨hm, ha⟩
    cases comparator <;> simp_all [accepts]
  | gt =>
    refine ⟨greaterThan, by decide, ?_⟩
    rintro comparator ⟨hm, ha⟩
    cases comparator <;> simp_all [accepts]

section Search

variable {α : Type} {judge : Comparator → α → Except Fault Bool} {item : α} {items : List α}

-- All comparisons of an item go by its order, but for inequality, which is answered by the search
-- for an equal item.
def GoesBy (judge : Comparator → α → Except Fault Bool) (item : α) (ordering : Ordering) : Prop :=
  ∀ comparator, comparator ≠ .notEquals →
    judge comparator item = .ok (comparator.accepts ordering)

-- An item has an order as soon as one comparison that needs it has an answer.
def IsOrderly (judge : Comparator → α → Except Fault Bool) (item : α) : Prop :=
  ∀ comparator found, comparator.isOrdering = true → judge comparator item = .ok found →
    ∃ ordering, GoesBy judge item ordering

theorem GoesBy.anyM_cons {ordering : Ordering} (h : GoesBy judge item ordering)
    {comparator : Comparator} (hn : comparator ≠ .notEquals) :
    (item :: items).anyM (judge comparator) =
      if comparator.accepts ordering = true then .ok true else items.anyM (judge comparator) := by
  rw [List.anyM_cons, h comparator hn]
  cases comparator.accepts ordering <;> rfl

theorem IsOrderly.exists_goesBy (h : IsOrderly judge item) {comparator : Comparator}
    (ho : comparator.isOrdering = true) {found : Bool}
    (hf : (item :: items).anyM (judge comparator) = .ok found) :
    ∃ ordering, GoesBy judge item ordering := by
  rw [List.anyM_cons] at hf
  obtain ⟨first, hfirst, -⟩ := Outcome.bind_eq_ok_iff.mp hf
  exact h comparator first ho hfirst

-- The three searches may stop at different items. But an item at which one of them stops decides the
-- disjunction, and behind any other item all three go on.
theorem anyM_or {either first second : Comparator} (hitems : ∀ item ∈ items, IsOrderly judge item)
    (hf : first.isOrdering = true) (he : either ≠ .notEquals) (hs : second ≠ .notEquals)
    (haccepts : ∀ ordering,
      either.accepts ordering = (first.accepts ordering || second.accepts ordering))
    {a b c : Bool} (ha : items.anyM (judge either) = .ok a)
    (hb : items.anyM (judge first) = .ok b) (hc : items.anyM (judge second) = .ok c) :
    a = (b || c) := by
  have hn : first ≠ .notEquals := by
    rintro rfl
    cases hf
  induction items with
  | nil =>
    cases ha
    cases hb
    cases hc
    rfl
  | cons item rest ih =>
    obtain ⟨hitem, hrest⟩ := List.forall_mem_cons.mp hitems
    obtain ⟨ordering, hgoes⟩ := hitem.exists_goesBy hf hb
    rw [hgoes.anyM_cons he, haccepts ordering] at ha
    rw [hgoes.anyM_cons hn] at hb
    rw [hgoes.anyM_cons hs] at hc
    cases hfirst : first.accepts ordering with
    | true =>
      simp only [hfirst, Bool.true_or, if_true] at ha hb
      cases ha
      cases hb
      rfl
    | false =>
      cases hsecond : second.accepts ordering with
      | true =>
        simp only [hfirst, hsecond, Bool.or_true, if_true] at ha hc
        cases ha
        cases hc
        exact (Bool.or_true b).symm
      | false =>
        simp only [hfirst, hsecond, Bool.or_false, Bool.false_eq_true, if_false] at ha hb hc
        exact ih hrest ha hb hc

-- Whatever an ordered search finds among the items, so long as all searches have an answer.
theorem followsOrder_of_anyM {answer : Comparator → Bool}
    (hitems : ∀ item ∈ items, IsOrderly judge item)
    (hanswer : ∀ comparator, comparator ≠ .notEquals →
      items.anyM (judge comparator) = .ok (answer comparator)) :
    FollowsOrder answer items.length := by
  have hge := hanswer .greaterOrEquals (by decide)
  have hgt := hanswer .greaterThan (by decide)
  have hle := hanswer .lessOrEquals (by decide)
  have hlt := hanswer .lessThan (by decide)
  have heq := hanswer .equals (by decide)
  refine ⟨?_, ?_, fun hreached => ?_, fun hreached => ?_⟩
  · refine anyM_or hitems rfl (by decide) (by decide) (fun ordering => ?_) hge hgt heq
    cases ordering <;> rfl
  · refine anyM_or hitems rfl (by decide) (by decide) (fun ordering => ?_) hle hlt heq
    cases ordering <;> rfl
  · obtain ⟨item, rest, rfl⟩ := List.exists_cons_of_length_pos hreached
    obtain ⟨ordering, hgoes⟩ := (hitems item List.mem_cons_self).exists_goesBy rfl hge
    rw [hgoes.anyM_cons (by decide)] at hge hlt
    cases ordering with
    | lt => exact .inr (Except.ok.inj hlt).symm
    | eq | gt => exact .inl (Except.ok.inj hge).symm
  · obtain ⟨item, rfl⟩ := List.length_eq_one_iff.mp hreached
    obtain ⟨ordering, hgoes⟩ := (hitems item List.mem_cons_self).exists_goesBy rfl hge
    have hall : ∀ comparator, comparator ≠ .notEquals →
        answer comparator = comparator.accepts ordering := by
      intro comparator hn
      have h := hanswer comparator hn
      rw [hgoes.anyM_cons hn] at h
      cases ha : comparator.accepts ordering <;> rw [ha] at h <;> exact (Except.ok.inj h).symm
    refine (existsUnique_congr fun comparator => and_congr_right fun hm => ?_).mpr
      (Comparator.existsUnique_accepts ordering)
    rw [hall comparator]
    rintro rfl
    simp at hm

end Search

namespace Comparison

variable {comparison : Comparison κ}

def withComparator (comparison : Comparison κ) (comparator : Comparator) : Comparison κ :=
  { comparison with comparator }

-- What the comparisons of one path with one literal of a built-in type have in common.
structure IsPlain (comparison : Comparison κ) : Prop where
  wildcard : comparison.wildcard = none
  isCustom : comparison.value.isCustom = false

theorem elements_eq_of_ok {field : Field κ} {elements : List (Value κ)}
    (h : comparison.elements field = .ok elements) : elements = field.elements := by
  cases field <;> cases h <;> rfl

theorem flatten_of_mapM_elements {fields : List (Field κ)} {elements : List (List (Value κ))}
    (h : fields.mapM comparison.elements = .ok elements) :
    elements.flatten = fields.flatMap Field.elements := by
  induction fields generalizing elements with
  | nil =>
    cases h
    rfl
  | cons field rest ih =>
    rw [List.mapM_cons] at h
    obtain ⟨first, hf, h⟩ := Outcome.bind_eq_ok_iff.mp h
    obtain ⟨others, ho, h⟩ := Outcome.bind_eq_ok_iff.mp h
    cases h
    rw [List.flatten_cons, List.flatMap_cons, ih ho, elements_eq_of_ok hf]

end Comparison

namespace Value

variable [CustomValue κ] {live target : Value κ}

theorem isCustom_of_comparable (hc : live.comparable target = true)
    (ht : target.isCustom = false) : live.isCustom = false := by
  cases live with
  | custom live => cases target <;> first | cases hc | cases ht
  | _ => rfl

-- Apart from truth values and custom values, equality is a matter of the order.
theorem equals_eq_order? (ho : live.isOrdered = true) (hc : live.isCustom = false) :
    live.equals target = (live.order? target == some .eq) := by
  cases live with
  | bool live => cases ho
  | custom live => cases hc
  | _ => rfl

end Value

namespace Comparison

variable {comparison : Comparison κ} [CustomValue κ]

theorem matchesElement_of_plain (hp : comparison.IsPlain) (comparator : Comparator)
    (live : Value κ) :
    (comparison.withComparator comparator).matchesElement comparator live =
      comparison.typed live >>= (comparison.withComparator comparator).compareTyped comparator := by
  have hw : (comparison.withComparator comparator).wildcard = none := hp.wildcard
  rw [matchesElement, hw]
  rfl

theorem order_of_compareTyped {comparator : Comparator} (ho : comparator.isOrdering = true)
    {live : Value κ} {found : Bool}
    (h : (comparison.withComparator comparator).compareTyped comparator live = .ok found) :
    live.comparable comparison.value = true ∧ live.isOrdered = true ∧
      ∃ ordering, live.order? comparison.value = some ordering := by
  rw [compareTyped] at h
  split at h
  · cases h
  · next hc =>
    split at h
    · cases h
    · next hordered =>
      split at h
      · next ordering horder => exact ⟨not_not.mp hc, not_not.mp hordered, ordering, horder⟩
      · cases h

theorem compareTyped_of_order (hp : comparison.IsPlain) {live : Value κ}
    (hc : live.comparable comparison.value = true) (ho : live.isOrdered = true)
    {ordering : Ordering} (h : live.order? comparison.value = some ordering)
    {comparator : Comparator} (hn : comparator ≠ .notEquals) :
    (comparison.withComparator comparator).compareTyped comparator live =
      .ok (comparator.accepts ordering) := by
  have hv : (comparison.withComparator comparator).value = comparison.value := rfl
  have hequals : live.equals comparison.value = (ordering == .eq) := by
    rw [Value.equals_eq_order? ho (Value.isCustom_of_comparable hc hp.isCustom), h]
    rfl
  cases comparator with
  | equals => simp [compareTyped, hv, hc, hequals, Comparator.isOrdering, Comparator.accepts]
  | notEquals => exact absurd rfl hn
  | _ => simp [compareTyped, hv, hc, ho, h, Comparator.isOrdering]

theorem isOrderly_matchesElement (hp : comparison.IsPlain) (live : Value κ) :
    IsOrderly (fun comparator => (comparison.withComparator comparator).matchesElement comparator)
      live := by
  intro comparator found ho h
  dsimp only at h
  rw [matchesElement_of_plain hp] at h
  obtain ⟨typed, ht, h⟩ := Outcome.bind_eq_ok_iff.mp h
  obtain ⟨hc, hordered, ordering, horder⟩ := order_of_compareTyped ho h
  refine ⟨ordering, fun other hn => ?_⟩
  dsimp only
  rw [matchesElement_of_plain hp, ht, Outcome.ok_bind]
  exact compareTyped_of_order hp hc hordered horder hn

theorem anyM_of_valuesHold {comparator : Comparator} (hn : comparator ≠ .notEquals)
    {fields : List (Field κ)} {found : Bool}
    (h : (comparison.withComparator comparator).valuesHold fields = .ok found) :
    (fields.flatMap Field.elements).anyM
      ((comparison.withComparator comparator).matchesElement comparator) = .ok found := by
  obtain ⟨elements, he, h⟩ := Outcome.bind_eq_ok_iff.mp h
  rw [← flatten_of_mapM_elements he]
  cases fields with
  | nil =>
    cases he
    exact h
  | cons field rest =>
    have hcomparator : (comparison.withComparator comparator).comparator ≠ .notEquals := hn
    rw [if_neg (by simp), holdsForAny, if_neg hcomparator] at h
    exact h

theorem sizeOrdering_eq_of_ok {size : Nat} (hv : comparison.value = .unsigned size)
    {field : Field κ} {ordering : Ordering} (h : comparison.sizeOrdering field = .ok ordering) :
    [ordering] = field.sizes.map fun length => compare length size := by
  have hordering : ∀ length : Nat, (Value.unsigned length : Value κ).order? comparison.value =
      some (compare length size) := fun length => by rw [hv]; rfl
  cases field with
  | values live =>
    simp only [sizeOrdering, hordering, Outcome.ok_bind] at h
    cases h
    rfl
  | records live =>
    simp only [sizeOrdering, hordering, Outcome.ok_bind] at h
    cases h
    rfl
  | null | value live | record live => cases h

theorem orderings_of_mapM_sizeOrdering {size : Nat} (hv : comparison.value = .unsigned size)
    {fields : List (Field κ)} {orderings : List Ordering}
    (h : fields.mapM comparison.sizeOrdering = .ok orderings) :
    orderings = (fields.flatMap Field.sizes).map fun length => compare length size := by
  induction fields generalizing orderings with
  | nil =>
    cases h
    rfl
  | cons field rest ih =>
    rw [List.mapM_cons] at h
    obtain ⟨first, hf, h⟩ := Outcome.bind_eq_ok_iff.mp h
    obtain ⟨others, ho, h⟩ := Outcome.bind_eq_ok_iff.mp h
    cases h
    rw [List.flatMap_cons, List.map_append, ← sizeOrdering_eq_of_ok hv hf, ← ih ho]
    rfl

theorem anyM_of_sizesHold {size : Nat} (hv : comparison.value = .unsigned size)
    {comparator : Comparator} (hn : comparator ≠ .notEquals) {fields : List (Field κ)} {found : Bool}
    (h : (comparison.withComparator comparator).sizesHold fields = .ok found) :
    (fields.flatMap Field.sizes).anyM (fun length =>
      (.ok (comparator.accepts (compare length size)) : Except Fault Bool)) = .ok found := by
  obtain ⟨orderings, ho, h⟩ := Outcome.bind_eq_ok_iff.mp h
  have hv' : (comparison.withComparator comparator).value = .unsigned size := hv
  have hmap := orderings_of_mapM_sizeOrdering hv' ho
  have hany : (fields.flatMap Field.sizes).anyM (fun length =>
      (.ok (comparator.accepts (compare length size)) : Except Fault Bool)) =
        .ok (orderings.any comparator.accepts) := by
    rw [hmap, List.any_map]
    exact List.anyM_pure
  rw [hany]
  cases orderings with
  | nil => exact h
  | cons ordering rest =>
    have hcomparator : (comparison.withComparator comparator).comparator ≠ .notEquals := hn
    rw [if_neg (by simp), if_neg hcomparator] at h
    exact h

-- The comparisons of a path with a literal by all comparators answer as one order does.
theorem followsOrder_of_holds (hp : comparison.IsPlain) (hs : comparison.HasSize)
    {record : Record κ} {answer : Comparator → Bool}
    (h : ∀ comparator, (comparison.withComparator comparator).holds record =
      .ok (answer comparator)) :
    ∃ fields, record.resolve comparison.property = .ok fields ∧
      FollowsOrder answer (if comparison.sizeCheck then (fields.flatMap Field.sizes).length
        else (fields.flatMap Field.elements).length) := by
  obtain ⟨fields, hfields, -⟩ := Outcome.bind_eq_ok_iff.mp (h .equals)
  have hanswer : ∀ comparator,
      (if comparison.sizeCheck then (comparison.withComparator comparator).sizesHold fields
        else (comparison.withComparator comparator).valuesHold fields) = .ok (answer comparator) := by
    intro comparator
    obtain ⟨others, hothers, hholds⟩ := Outcome.bind_eq_ok_iff.mp (h comparator)
    cases hfields.symm.trans hothers
    exact hholds
  refine ⟨fields, hfields, ?_⟩
  cases hcount : comparison.sizeCheck with
  | true =>
    obtain ⟨size, hv⟩ := hs hcount
    simp only [hcount, if_true] at hanswer ⊢
    refine followsOrder_of_anyM (fun length _ comparator found _ _ => ?_) fun comparator hn =>
      anyM_of_sizesHold hv hn (hanswer comparator)
    exact ⟨compare length size, fun other _ => rfl⟩
  | false =>
    simp only [hcount, Bool.false_eq_true, if_false] at hanswer ⊢
    exact followsOrder_of_anyM (fun live _ => isOrderly_matchesElement hp live) fun comparator hn =>
      anyM_of_valuesHold hn (hanswer comparator)

end Comparison

theorem Term.nested_iff (path : Path) (comparator : Comparator) (literal : Text) :
    Expression.Nested (path.text ++ comparator.token ++ literal) ↔ Expression.Nested literal := by
  have hpath : Expression.Nested path.text := Expression.Member.nested path.depthAfter?_text
  have htoken : Expression.Nested comparator.token :=
    Expression.Member.nested (Term.depthAfter?_token (Term.mem_tokens false comparator))
  rw [Expression.Nested] at hpath htoken
  simp [Expression.Nested, Expression.depthAfter?_append, hpath, htoken]

namespace Language

variable {language : Language κ} {written : Path} {comparator : Comparator} {literal : Text}

theorem member_of_parse (hno : ¬Expression.HasOuterConnective literal) {condition : Condition κ}
    (hp : language.parse (written.text ++ comparator.token ++ literal) = .ok condition) :
    Expression.Member (written.text ++ comparator.token ++ literal) := by
  obtain ⟨expression, hsplit, -⟩ := Outcome.bind_eq_ok_iff.mp (expression?_of_parse hp)
  have hnested : Expression.Nested literal :=
    (Term.nested_iff written comparator literal).mp (Expression.split_eq_ok hsplit).1
  refine (Term.member_iff written (Term.mem_tokens false comparator) literal).mpr ?_
  exact Expression.member_iff_balanced.mpr ⟨Expression.nested_iff_balanced.mp hnested, hno⟩

-- A member without a bracket at its beginning is a single comparison.
theorem comparison?_of_parse {text : Text} (hm : Expression.Member text)
    (hv : Expression.Visible text) (hb : text.head? ≠ some '(') {condition : Condition κ}
    (hp : language.parse text = .ok condition) :
    ∃ comparison, language.comparison? text = .ok (some comparison) ∧
      condition = .leaf comparison := by
  rw [parse_eq_readPlainly, readPlainly_member language _ hm hv,
    readMember_comparison language _ hb] at hp
  cases hc : language.comparison? text with
  | error fault =>
    rw [hc] at hp
    cases hp
  | ok comparison =>
    rw [hc] at hp
    cases comparison with
    | none => cases hp
    | some comparison =>
      cases hp
      exact ⟨comparison, rfl, rfl⟩

theorem compare?_of_comparison? {comparison : Option (Comparison κ)}
    (h : language.comparison? (written.text ++ comparator.token ++ literal) = .ok comparison) :
    language.compare? written comparator literal = .ok comparison := by
  rw [comparison?, Term.ofText?_written] at h
  dsimp only at h
  split at h
  · cases h
  · rwa [Path.ofText_text, Outcome.ok_bind] at h

theorem wildcardFor_of_not_mem (hstar : '*' ∉ literal) (type : ValueType κ)
    (comparator : Comparator) : language.wildcardFor type comparator literal = .ok none :=
  if_neg fun h => hstar (by simpa [Wildcard.isPattern] using h.2.2)

-- Without a pattern, the target does not depend on the comparator.
theorem target_of_not_mem (hstar : '*' ∉ literal) (path : Path) (info : TypeInfo κ)
    (comparator other : Comparator) :
    language.target path info comparator literal = language.target path info other literal := by
  simp only [target, wildcardFor_of_not_mem hstar]

theorem compare?_withComparator (hstar : '*' ∉ literal) {comparison : Comparison κ}
    (h : language.compare? written comparator literal = .ok (some comparison))
    (other : Comparator) :
    language.compare? written other literal = .ok (some (comparison.withComparator other)) := by
  obtain ⟨path, info, value, wildcard, hpath, hinfo, htarget, rfl⟩ := compare?_eq_some h
  rw [target_of_not_mem hstar path info comparator other] at htarget
  rw [compare?, hpath, Outcome.ok_bind, hinfo, Outcome.ok_bind, htarget]
  rfl

variable [CustomValue κ]

theorem isPlain_of_compare? (hb : language.shape.IsBuiltIn) (hstar : '*' ∉ literal)
    {comparison : Comparison κ}
    (h : language.compare? written comparator literal = .ok (some comparison)) :
    comparison.IsPlain := by
  obtain ⟨path, info, value, wildcard, -, hinfo, htarget, rfl⟩ := compare?_eq_some h
  rcases target_eq_some htarget with ⟨-, -, rfl, size, -, rfl⟩ | ⟨-, type, htype, hread, hw⟩
  · exact ⟨rfl, rfl⟩
  · have hbuilt : type.isBuiltIn = true := Shape.isBuiltIn_of_resolve hb hinfo htype
    rw [wildcardFor_of_not_mem hstar] at hw
    cases hw
    refine ⟨rfl, ?_⟩
    cases ValueType.admits_of_read? hbuilt hread with
    | scalar hv => cases hv <;> rfl
    | enumeration hv => rfl
    | custom hv => cases hbuilt

-- What the comparisons of a path with a literal say about a record, provided that each can be read
-- and has an answer.
def Answers (language : Language κ) (written : Path) (literal : Text) (record : Record κ)
    (answer : Comparator → Bool) : Prop :=
  ∀ comparator, ∃ comparison,
    language.comparison? (written.text ++ comparator.token ++ literal) = .ok (some comparison) ∧
      comparison.holds record = .ok (answer comparator)

-- Whole filters are such comparisons where no connective of the literal divides their texts.
theorem answers_of_parse (hno : ¬Expression.HasOuterConnective literal) {record : Record κ}
    {answer : Comparator → Bool}
    (h : ∀ comparator, ∃ condition,
      language.parse (written.text ++ comparator.token ++ literal) = .ok condition ∧
        condition.isMet record = .ok (answer comparator)) :
    language.Answers written literal record answer := by
  intro comparator
  obtain ⟨condition, hp, hmet⟩ := h comparator
  obtain ⟨c, rest, htext, hgraphic, hbracket⟩ := written.text_eq_cons
  have hvisible : Expression.Visible (written.text ++ comparator.token ++ literal) :=
    ⟨c, by simp [htext], Text.isBlank_of_isGraphic hgraphic⟩
  have hhead : (written.text ++ comparator.token ++ literal).head? ≠ some '(' := by
    simp [htext, hbracket]
  obtain ⟨comparison, hread, rfl⟩ := comparison?_of_parse (member_of_parse hno hp) hvisible hhead hp
  exact ⟨comparison, hread, hmet⟩

-- Equality and order are evaluated in different ways, and by searches that stop at different
-- elements. But where all comparisons of a path with a literal have answers, these agree with one
-- order of the elements.
theorem followsOrder_of_answers (hb : language.shape.IsBuiltIn) (hstar : '*' ∉ literal)
    {record : Record κ} {answer : Comparator → Bool}
    (h : language.Answers written literal record answer) :
    ∃ path reached, language.unalias written = .ok path ∧ record.reached path = .ok reached ∧
      FollowsOrder answer reached := by
  obtain ⟨comparison, hread, -⟩ := h .equals
  have hcompare := compare?_of_comparison? hread
  have hplain : comparison.IsPlain := isPlain_of_compare? hb hstar hcompare
  have hholds : ∀ comparator, (comparison.withComparator comparator).holds record =
      .ok (answer comparator) := by
    intro comparator
    obtain ⟨other, hother, hholds⟩ := h comparator
    have hsame := (compare?_withComparator hstar hcompare comparator).symm.trans
      (compare?_of_comparison? hother)
    cases hsame
    exact hholds
  obtain ⟨fields, hfields, hfollows⟩ :=
    Comparison.followsOrder_of_holds hplain (Comparison.hasSize_of_compare? hcompare) hholds
  obtain ⟨path, info, value, wildcard, hpath, -, -, rfl⟩ := compare?_eq_some hcompare
  refine ⟨path, _, hpath, ?_, hfollows⟩
  rw [Record.reached, hfields]
  rfl

theorem followsOrder_of_answers_ages :
    let settings : Settings Empty :=
      { typeHints := { entries := [("age".toList, .scalar (.signed .w32))], nodup := by decide } }
    let age : Path := ⟨["age".toList], false, by decide, by decide⟩
    let record : Record Empty := .mk true fun _ => some (.values [.integer 20, .unsigned 16])
    let answer : Comparator → Bool := fun comparator => comparator != .equals
    (forBags Regex.isSmall settings).shape.IsBuiltIn ∧ '*' ∉ "18".toList ∧
      (forBags Regex.isSmall settings).Answers age "18".toList record answer ∧
      ∃ path reached, (forBags Regex.isSmall settings).unalias age = .ok path ∧
        record.reached path = .ok reached ∧ FollowsOrder answer reached := by
  intro settings age record answer
  have hb : (forBags Regex.isSmall settings).shape.IsBuiltIn := Shape.isBuiltIn_hints (by decide)
  have hstar : '*' ∉ "18".toList := by decide
  have hanswers : (forBags Regex.isSmall settings).Answers age "18".toList record answer := by
    intro comparator
    refine ⟨Language.isAdult.withComparator comparator, ?_, ?_⟩
    · cases comparator <;> rfl
    · cases comparator <;> rfl
  exact ⟨hb, hstar, hanswers, followsOrder_of_answers hb hstar hanswers⟩

end Language

end RecordFilter
