import RecordFilter.Proofs.Equality
import RecordFilter.Proofs.RoundTrip

namespace RecordFilter

variable {κ : Type}

namespace Condition

-- Every group has two children at least.
inductive IsProper : Condition κ → Prop where
  | leaf {comparison : Comparison κ} : IsProper (.leaf comparison)
  | group {connective : Connective} {children : List (Condition κ)}
    (htwo : 2 ≤ children.length) (hall : ∀ child ∈ children, IsProper child) :
    IsProper (.group connective children)

-- All groups lie on so many levels, the root being the first of them.
def Within (levels : Nat) (condition : Condition κ) : Prop :=
  ∀ level ∈ condition.groupLevels, level < levels

variable {connective : Connective} {children : List (Condition κ)} {condition : Condition κ}

theorem compose_of_two_le (connective : Connective) (htwo : 2 ≤ children.length) :
    compose connective children = some (group connective children) := by
  match children, htwo with
  | first :: second :: rest, _ => rfl

theorem compose_cases (h : compose connective children = some condition) :
    children = [condition] ∨
      (2 ≤ children.length ∧ condition = group connective children) := by
  match children, h with
  | [only], h =>
    cases h
    exact .inl rfl
  | first :: second :: rest, h =>
    cases h
    exact .inr ⟨by simp, rfl⟩

theorem isProper_of_compose (h : ∀ child ∈ children, child.IsProper)
    (hc : compose connective children = some condition) : condition.IsProper := by
  rcases compose_cases hc with rfl | ⟨htwo, rfl⟩
  · exact h condition (by simp)
  · exact .group htwo h

-- A group lies one level above its children.
theorem within_of_compose {levels : Nat} (h : ∀ child ∈ children, child.Within levels)
    (hc : compose connective children = some condition) : condition.Within (levels + 1) := by
  rcases compose_cases hc with rfl | ⟨_, rfl⟩
  · intro level hl
    exact Nat.lt_succ_of_lt (h condition (by simp) level hl)
  · exact forall_groupLevels_group.mpr h

theorem IsProper.isFilled (h : condition.IsProper) : condition.isFilled = true := by
  induction h with
  | leaf => rfl
  | group htwo _ ih =>
    have hne := List.ne_nil_of_length_pos (Nat.lt_of_lt_of_le Nat.zero_lt_two htwo)
    exact isFilled_group.mpr ⟨hne, ih⟩

theorem IsProper.collapsed_eq (h : condition.IsProper) : condition.collapsed = condition := by
  induction h with
  | leaf => rfl
  | @group connective children htwo _ ih =>
    have hne := List.ne_nil_of_length_pos (Nat.lt_of_lt_of_le Nat.zero_lt_two htwo)
    have hmap : children.map collapsed = children :=
      (List.map_congr_left ih).trans (List.map_id children)
    have hcollapsed := compose_map_collapsed connective hne
    rw [hmap, compose_of_two_le connective htwo] at hcollapsed
    exact (Option.some.inj hcollapsed).symm

end Condition

namespace Language

variable {language : Language κ}

-- One pair of brackets holds two levels of groups at most, the disjunction and its conjunctions.
theorem proper_of_expression? {levels : Nat} {text : Text} {start : Nat}
    {condition : Condition κ}
    (h : language.expression? levels text start = .ok (some condition)) :
    condition.IsProper ∧ condition.Within (2 * levels) := by
  induction levels generalizing text start condition with
  | zero => cases h
  | succ levels ih =>
    obtain ⟨expression, hs, hrest⟩ := Outcome.bind_eq_ok_iff.mp h
    obtain ⟨groups, hg, hcompose⟩ := Outcome.bind_eq_ok_iff.mp hrest
    have hread : ∀ part ∈ expression, ∀ condition,
        language.part? (language.expression? levels) part = .ok (some condition) →
          condition.IsProper ∧ condition.Within (2 * levels) := by
      intro part _ condition hr
      rcases part?_eq_ok hr with ⟨inner, -, hi⟩ | ⟨found, -, he⟩
      · exact ih hi
      · obtain ⟨comparison, -, rfl⟩ := Option.map_eq_some_iff.mp he.symm
        exact ⟨.leaf, by simp [Condition.Within, Condition.groupLevels]⟩
    have hgroups : ∀ group ∈ groups, group.IsProper ∧ group.Within (2 * levels + 1) := by
      refine forall_of_groups? (fun members group hm hc => ?_) hread (by simp) hg
      exact ⟨Condition.isProper_of_compose (fun member hin => (hm member hin).1) hc,
        Condition.within_of_compose (fun member hin => (hm member hin).2) hc⟩
    have hc : Condition.compose .or groups = some condition := Except.ok.inj hcompose
    exact ⟨Condition.isProper_of_compose (fun group hin => (hgroups group hin).1) hc,
      Condition.within_of_compose (fun group hin => (hgroups group hin).2) hc⟩

theorem rereads_of_parse {text : Text} {condition : Condition κ}
    (hp : language.parse text = .ok condition) {comparison : Comparison κ}
    (hc : comparison ∈ condition.leaves) : language.Rereads comparison := by
  obtain ⟨member, hmember, hread⟩ := leaf_of_parse hp hc
  exact rereads_of_comparison? hmember hread

-- The written form has a pair of brackets for every group below the root.
theorem parse_written_of_proper {condition : Condition κ}
    (hl : ∀ comparison ∈ condition.leaves, language.Rereads comparison)
    (hproper : condition.IsProper) :
    language.parse condition.written =
      if ∀ level ∈ condition.groupLevels, level ≤ nestingLimit then .ok condition
      else .error (.nestingTooDeep nestingLimit) := by
  have hread := readPlainly_written language.singleEquals nestingLimit hl hproper.isFilled
  rw [hproper.collapsed_eq] at hread
  rw [parse, expression?_zero_eq_readPlainly, hread]
  simp only [Nat.lt_succ_iff]
  split
  · rfl
  · rfl

-- What has been read is written as a text that is read as an equal condition, unless the text
-- needs more brackets than may be nested. It never does if no more than 31 pairs of brackets
-- were nested in the first place.
theorem parse_written_of_parse [CustomValue κ] (hb : language.shape.IsBuiltIn) {text : Text}
    {condition : Condition κ} (hp : language.parse text = .ok condition) :
    condition.same condition = true ∧
      language.parse condition.written =
        (if ∀ level ∈ condition.groupLevels, level ≤ nestingLimit then .ok condition
        else .error (.nestingTooDeep nestingLimit)) ∧
      ∀ levels ≤ 32, language.expression? levels text 0 = .ok (some condition) →
        language.parse condition.written = .ok condition := by
  have hproper := (proper_of_expression? (expression?_of_parse hp)).1
  have hwritten := parse_written_of_proper (fun _ hc => rereads_of_parse hp hc) hproper
  refine ⟨same_self_of_parse hb hp, hwritten, fun levels hlevels hshallow => ?_⟩
  have hwithin := (proper_of_expression? hshallow).2
  rw [hwritten, if_pos]
  intro level hm
  have hlevel := hwithin level hm
  rw [nestingLimit]
  omega

-- A filter with so many brackets one inside the other. Only the innermost ones hold both
-- connectives.
def nestedText : Nat → Text
  | 0 => "a==1;a==1,a==1".toList
  | brackets + 1 => Text.join ';' ["a==1".toList, '(' :: nestedText brackets ++ [')']]

def nestedCondition : Nat → Condition Empty
  | 0 =>
    let isOne : Condition Empty := .leaf (.isText ['a'] ['1'])
    .group .or [.group .and [isOne, isOne], isOne]
  | brackets + 1 => .group .and [.leaf (.isText ['a'] ['1']), nestedCondition brackets]

theorem member_nestedText {brackets : Nat} (hn : Expression.Nested (nestedText brackets)) :
    ∀ member ∈ ["a==1".toList, '(' :: nestedText brackets ++ [')']], Expression.Member member := by
  rw [List.forall_mem_cons, List.forall_mem_singleton]
  exact ⟨rfl, hn.member_wrapped⟩

theorem nested_nestedText (brackets : Nat) : Expression.Nested (nestedText brackets) := by
  induction brackets with
  | zero => decide
  | succ brackets ih =>
    have hjoin : Expression.Nested (Text.join Connective.and.symbol
        ["a==1".toList, '(' :: nestedText brackets ++ [')']]) :=
      Expression.nested_join (member_nestedText ih)
    exact hjoin

theorem readPlainly_nestedText (levels brackets : Nat) :
    (forBags Regex.isSmall {} : Language Empty).readPlainly (levels + brackets + 1) (nestedText brackets) =
      .ok (some (nestedCondition brackets)) := by
  induction brackets with
  | zero => rfl
  | succ brackets ih =>
    have hn := nested_nestedText brackets
    have hvisible : ∀ member ∈ ["a==1".toList, '(' :: nestedText brackets ++ [')']],
        Expression.Visible member := by
      rw [List.forall_mem_cons, List.forall_mem_singleton]
      exact ⟨⟨'a', by decide, rfl⟩, ⟨'(', by simp, rfl⟩⟩
    have hjoin := readPlainly_join (forBags Regex.isSmall {} : Language Empty) (levels + brackets + 1) .and
      (member_nestedText hn) hvisible
    rw [List.mapM_cons, List.mapM_cons, List.mapM_nil, readMember_wrapped _ _ hn, ih] at hjoin
    exact hjoin

theorem mem_groupLevels_nestedCondition (brackets : Nat) :
    brackets + 1 ∈ (nestedCondition brackets).groupLevels := by
  induction brackets with
  | zero => decide
  | succ brackets ih =>
    rw [nestedCondition, Condition.groupLevels]
    refine List.mem_cons_of_mem _ (List.mem_map_of_mem ?_)
    exact Condition.mem_groupLevelsAll.mpr ⟨_, by simp, ih⟩

theorem parse_nestedText {brackets : Nat} (hb : brackets ≤ nestingLimit) :
    (forBags Regex.isSmall {} : Language Empty).parse (nestedText brackets) =
      .ok (nestedCondition brackets) := by
  obtain ⟨levels, hl⟩ := Nat.exists_eq_add_of_le' hb
  rw [parse, expression?_zero_eq_readPlainly, hl, readPlainly_nestedText]
  rfl

theorem isBuiltIn_forBags : (forBags Regex.isSmall {} : Language Empty).shape.IsBuiltIn :=
  fun _ _ h => nomatch h

theorem parse_written_of_parse_nestedText :
    let language : Language Empty := .forBags Regex.isSmall {}
    let condition := nestedCondition 63
    language.parse (nestedText 63) = .ok condition ∧ condition.same condition = true ∧
      language.parse condition.written = .ok condition := by
  intro language condition
  have hp : language.parse (nestedText 63) = .ok condition := parse_nestedText (by decide)
  obtain ⟨hsame, hwritten, _⟩ := parse_written_of_parse isBuiltIn_forBags hp
  rw [if_pos (by decide +kernel)] at hwritten
  exact ⟨hp, hsame, hwritten⟩

-- With 64 pairs of brackets the filter can still be read. The pair that is written around the
-- innermost conjunction is one too many.
theorem parse_written_nestedText :
    let language : Language Empty := .forBags Regex.isSmall {}
    let condition := nestedCondition 64
    language.shape.IsBuiltIn ∧ language.parse (nestedText 64) = .ok condition ∧
      language.parse condition.written = .error (.nestingTooDeep 64) := by
  intro language condition
  have hp : language.parse (nestedText 64) = .ok condition := parse_nestedText (by decide)
  have hproper := (proper_of_expression? (expression?_of_parse hp)).1
  refine ⟨isBuiltIn_forBags, hp, ?_⟩
  rw [parse_written_of_proper (fun _ hc => rereads_of_parse hp hc) hproper, if_neg]
  · rfl
  · intro h
    have hlevel : 64 + 1 ≤ 64 := h _ (mem_groupLevels_nestedCondition 64)
    omega

end Language

end RecordFilter
