import RecordFilter.Condition.Written
import RecordFilter.Proofs.Parsing
import RecordFilter.Proofs.Precedence

namespace RecordFilter

variable {κ : Type}

namespace Condition

mutual

-- Every group has a child.
def isFilled : Condition κ → Bool
  | leaf _ => true
  | group _ children => !children.isEmpty && areAllFilled children

def areAllFilled : List (Condition κ) → Bool
  | [] => true
  | child :: rest => child.isFilled && areAllFilled rest

end

mutual

-- How many levels each group lies below the root.
def groupLevels : Condition κ → List Nat
  | leaf _ => []
  | group _ children => 0 :: (groupLevelsAll children).map (· + 1)

def groupLevelsAll : List (Condition κ) → List Nat
  | [] => []
  | child :: rest => child.groupLevels ++ groupLevelsAll rest

end

mutual

-- The condition with every group of a single child replaced by that child.
def collapsed : Condition κ → Condition κ
  | leaf comparison => leaf comparison
  | group connective children =>
    match collapsedAll children with
    | [child] => child
    | collapsed => group connective collapsed

def collapsedAll : List (Condition κ) → List (Condition κ)
  | [] => []
  | child :: rest => child.collapsed :: collapsedAll rest

end

theorem areAllFilled_iff {children : List (Condition κ)} :
    areAllFilled children = true ↔ ∀ child ∈ children, child.isFilled = true := by
  induction children with
  | nil => simp [areAllFilled]
  | cons child rest ih => simp [areAllFilled, ih]

theorem isFilled_group {connective : Connective} {children : List (Condition κ)} :
    (group connective children).isFilled = true ↔
      children ≠ [] ∧ ∀ child ∈ children, child.isFilled = true := by
  rw [isFilled, Bool.and_eq_true, areAllFilled_iff]
  simp

theorem mem_groupLevelsAll {children : List (Condition κ)} {level : Nat} :
    level ∈ groupLevelsAll children ↔ ∃ child ∈ children, level ∈ child.groupLevels := by
  induction children with
  | nil => simp [groupLevelsAll]
  | cons child rest ih => simp [groupLevelsAll, ih]

-- The groups of a group are its own and those of its children, one level further down.
theorem forall_groupLevels_group {connective : Connective} {children : List (Condition κ)}
    {limit : Nat} :
    (∀ level ∈ (group connective children).groupLevels, level < limit + 1) ↔
      ∀ child ∈ children, ∀ level ∈ child.groupLevels, level < limit := by
  simp only [groupLevels, List.mem_cons, List.mem_map, mem_groupLevelsAll]
  constructor
  · intro h child hc level hl
    have hs := h (level + 1) (.inr ⟨level, ⟨child, hc, hl⟩, rfl⟩)
    omega
  · rintro h level (rfl | ⟨inner, ⟨child, hc, hl⟩, rfl⟩)
    · omega
    · have hi := h child hc inner hl
      omega

theorem collapsedAll_eq_map (children : List (Condition κ)) :
    collapsedAll children = children.map collapsed := by
  induction children with
  | nil => rfl
  | cons child rest ih => simp [collapsedAll, ih]

theorem bracketedAll_eq_map (children : List (Condition κ)) :
    bracketedAll children = children.map bracketed := by
  induction children with
  | nil => rfl
  | cons child rest ih => simp [bracketedAll, ih]

theorem nested_bracketedAll {connective : Connective} {children : List (Condition κ)}
    (hne : children ≠ []) (hm : ∀ child ∈ children, Expression.Member child.bracketed) :
    Expression.Nested (Text.join connective.symbol (bracketedAll children)) := by
  rw [bracketedAll_eq_map]
  match children, hne with
  | first :: rest, _ =>
    rw [List.map_cons]
    exact Expression.nested_join (by simpa using hm)

theorem compose_map_collapsed (connective : Connective) {children : List (Condition κ)}
    (hne : children ≠ []) :
    compose connective (children.map collapsed) = some (group connective children).collapsed := by
  rw [collapsed, collapsedAll_eq_map]
  match children, hne with
  | [child], _ => rfl
  | first :: second :: rest, _ => rfl

end Condition

-- A comparison whose written form is read as that comparison.
structure Language.Rereads (language : Language κ) (comparison : Comparison κ) : Prop where
  member : Expression.Member comparison.written
  visible : Expression.Visible comparison.written
  head : comparison.written.head? ≠ some '('
  read : ∀ singleEquals, { language with singleEquals := singleEquals }.comparison?
    comparison.written = .ok (some comparison)

theorem Text.isBlank_of_isGraphic {c : Char} (hc : isGraphic c = true) : isBlank c = false := by
  simp only [isGraphic, Bool.and_eq_true, decide_eq_true_eq] at hc
  simp only [isBlank, Bool.or_eq_false_iff, Bool.and_eq_false_iff, decide_eq_false_iff_not,
    beq_eq_false_iff_ne]
  omega

namespace Language

variable {language : Language κ}

-- What a language has once read, it reads again from its written form. The name is the one
-- that was written before, so that an alias is replaced by the same path again.
theorem rereads_of_comparison? {member : Text} {comparison : Comparison κ}
    (hm : Expression.Member member) (h : language.comparison? member = .ok (some comparison)) :
    language.Rereads comparison := by
  obtain ⟨written, token, comparator, literal, rfl, ht, hl, hc⟩ := comparison?_eq_ok h
  obtain ⟨path, info, value, wildcard, hp, hi, htarget, rfl⟩ := compare?_eq_some hc
  have hw : Path.wrapped written.dotted path.sizeCheck = written.text := by
    rw [sizeCheck_of_unalias hp, Path.text]
  have hliteral : Expression.Member literal := (Term.member_iff written ht literal).mp hm
  have htoken := Term.mem_tokens language.singleEquals comparator
  obtain ⟨c, rest, htext, hgraphic, hb⟩ := written.text_eq_cons
  refine ⟨?_, ?_, ?_, fun singleEquals => ?_⟩
  · simp only [Comparison.written, hw]
    exact (Term.member_iff written htoken literal).mpr hliteral
  · refine ⟨c, ?_, Text.isBlank_of_isGraphic hgraphic⟩
    simp [Comparison.written, hw, htext]
  · simp [Comparison.written, hw, htext, hb]
  · simp only [Comparison.written, hw]
    rw [comparison?_written language singleEquals written comparator hl, hc]

-- The text of any condition is a member of the expressions it is written into.
theorem member_bracketed {condition : Condition κ}
    (hl : ∀ comparison ∈ condition.leaves, language.Rereads comparison)
    (hf : condition.isFilled = true) :
    Expression.Member condition.bracketed ∧ Expression.Visible condition.bracketed := by
  induction condition with
  | leaf comparison =>
    have h := hl comparison (by simp)
    exact ⟨h.member, h.visible⟩
  | group connective children ih =>
    obtain ⟨hne, hfilled⟩ := Condition.isFilled_group.mp hf
    have hchild : ∀ child ∈ children, Expression.Member child.bracketed := fun child hc =>
      (ih child hc (Condition.forall_leaves_group.mp hl child hc) (hfilled child hc)).1
    rw [Condition.bracketed]
    exact ⟨(Condition.nested_bracketedAll hne hchild).member_wrapped, '(', by simp, rfl⟩

theorem readPlainly_group (language : Language κ) {levels : Nat} {connective : Connective}
    {children : List (Condition κ)} (hne : children ≠ [])
    (hmember : ∀ child ∈ children,
      Expression.Member child.bracketed ∧ Expression.Visible child.bracketed)
    (hread : ∀ child ∈ children,
      language.readMember (language.readPlainly levels) child.bracketed =
        if ∀ level ∈ child.groupLevels, level < levels then .ok (some child.collapsed)
        else .error (.nestingTooDeep nestingLimit)) :
    language.readPlainly (levels + 1)
        (Text.join connective.symbol (Condition.bracketedAll children)) =
      if ∀ level ∈ (Condition.group connective children).groupLevels, level < levels + 1 then
        .ok (some (Condition.group connective children).collapsed)
      else .error (.nestingTooDeep nestingLimit) := by
  have hc := Condition.compose_map_collapsed connective hne
  match children, hne with
  | first :: rest, _ =>
    rw [Condition.bracketedAll_eq_map, List.map_cons,
      readPlainly_join language levels connective
        (by simpa using fun child hc => (hmember child hc).1)
        (by simpa using fun child hc => (hmember child hc).2),
      ← List.map_cons, List.mapM_map,
      Outcome.mapM_eq_ite (f := language.readMember (language.readPlainly levels) ∘ _) hread]
    by_cases hd : ∀ child ∈ first :: rest, ∀ level ∈ child.groupLevels, level < levels
    · have hs : ((first :: rest).map fun child => some child.collapsed).reduceOption =
          (first :: rest).map Condition.collapsed := by
        simp [List.reduceOption, List.filterMap_map]
      rw [if_pos hd, if_pos (Condition.forall_groupLevels_group.mpr hd), Outcome.ok_bind, hs, hc]
    · rw [if_neg hd, if_neg fun h => hd (Condition.forall_groupLevels_group.mp h)]
      rfl

-- A written condition is read as far as the levels of brackets reach. The induction follows
-- the brackets inwards.
theorem readMember_bracketed (singleEquals : Bool) (levels : Nat) {condition : Condition κ}
    (hl : ∀ comparison ∈ condition.leaves, language.Rereads comparison)
    (hf : condition.isFilled = true) :
    let other := { language with singleEquals := singleEquals }
    other.readMember (other.readPlainly levels) condition.bracketed =
      if ∀ level ∈ condition.groupLevels, level < levels then .ok (some condition.collapsed)
      else .error (.nestingTooDeep nestingLimit) := by
  intro other
  induction condition generalizing levels with
  | leaf comparison =>
    have h := hl comparison (by simp)
    rw [Condition.bracketed, readMember_comparison other _ h.head, h.read singleEquals]
    simp [Condition.groupLevels, Condition.collapsed]
  | group connective children ih =>
    obtain ⟨hne, hfilled⟩ := Condition.isFilled_group.mp hf
    have hchild := Condition.forall_leaves_group.mp hl
    have hmember := fun child hc => member_bracketed (hchild child hc) (hfilled child hc)
    rw [Condition.bracketed, readMember_wrapped other _
      (Condition.nested_bracketedAll hne fun child hc => (hmember child hc).1)]
    cases levels with
    | zero =>
      rw [if_neg fun h => absurd (h 0 (by simp [Condition.groupLevels])) (by omega)]
      rfl
    | succ levels =>
      exact readPlainly_group other hne hmember fun child hc =>
        ih child hc levels (hchild child hc) (hfilled child hc)

theorem readPlainly_written (singleEquals : Bool) (levels : Nat) {condition : Condition κ}
    (hl : ∀ comparison ∈ condition.leaves, language.Rereads comparison)
    (hf : condition.isFilled = true) :
    { language with singleEquals := singleEquals }.readPlainly (levels + 1) condition.written =
      if ∀ level ∈ condition.groupLevels, level < levels + 1 then .ok (some condition.collapsed)
      else .error (.nestingTooDeep nestingLimit) := by
  cases condition with
  | leaf comparison =>
    have h := hl comparison (by simp)
    rw [Condition.written, readPlainly_member _ _ h.member h.visible,
      readMember_comparison _ _ h.head, h.read singleEquals, if_pos (by simp [Condition.groupLevels])]
    rfl
  | group connective children =>
    obtain ⟨hne, hfilled⟩ := Condition.isFilled_group.mp hf
    have hchild := Condition.forall_leaves_group.mp hl
    exact readPlainly_group _ hne
      (fun child hc => member_bracketed (hchild child hc) (hfilled child hc))
      (fun child hc => readMember_bracketed singleEquals levels (hchild child hc) (hfilled child hc))

-- Writing and reading are inverse to each other, up to groups of a single child, which have
-- no written form of their own. The comparisons may come from any filters of the language,
-- and be put together in any way that leaves no group empty. A group too deep for the
-- brackets is the only fault there can be.
theorem parse_written (language : Language κ) (singleEquals : Bool) (condition : Condition κ)
    (hleaves : ∀ comparison ∈ condition.leaves, ∃ text parsed,
      language.parse text = .ok parsed ∧ comparison ∈ parsed.leaves)
    (hfilled : condition.isFilled = true) :
    { language with singleEquals := singleEquals }.parse condition.written =
      if ∀ level ∈ condition.groupLevels, level ≤ nestingLimit then .ok condition.collapsed
      else .error (.nestingTooDeep nestingLimit) := by
  have hl : ∀ comparison ∈ condition.leaves, language.Rereads comparison := by
    intro comparison hc
    obtain ⟨text, parsed, hp, hm⟩ := hleaves comparison hc
    obtain ⟨member, hmember, hread⟩ := leaf_of_parse hp hm
    exact rereads_of_comparison? hmember hread
  rw [parse, expression?_zero_eq_readPlainly, readPlainly_written singleEquals nestingLimit hl hfilled]
  simp only [Nat.lt_succ_iff]
  split
  · rfl
  · rfl

theorem parse_written_nested :
    let legacy : Language Empty := .forBags Regex.isSmall { singleEquals := true }
    let leaf : Condition Empty := .leaf (.isText ['a'] "(;)".toList)
    let condition : Condition Empty := .group .and [.group .and [leaf, .group .or [leaf]]]
    legacy.parse "a=(;)".toList = .ok leaf ∧
      { legacy with singleEquals := false }.parse condition.written =
        .ok (.group .and [leaf, leaf]) := by
  intro legacy leaf condition
  have hp : legacy.parse "a=(;)".toList = .ok leaf := rfl
  refine ⟨hp, (parse_written legacy false condition (fun comparison hc => ?_) rfl).trans ?_⟩
  · exact ⟨_, _, hp, by simpa [condition, leaf, Condition.leaves, Condition.leavesAll] using hc⟩
  · rw [if_pos (by decide)]
    rfl

end Language

end RecordFilter
