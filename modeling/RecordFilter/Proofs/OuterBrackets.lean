import RecordFilter.Proofs.Interchange
import RecordFilter.Proofs.Precedence

namespace RecordFilter

namespace Expression

theorem exists_of_mem_modifyHead {c : Char} {pieces : List Text} {piece : Text}
    (h : piece ∈ pieces.modifyHead (c :: ·)) :
    ∃ other ∈ pieces, piece = other ∨ piece = c :: other := by
  cases pieces with
  | nil => cases h
  | cons first more =>
    rcases List.mem_cons.mp h with rfl | hm
    · exact ⟨first, List.mem_cons_self, .inr rfl⟩
    · exact ⟨piece, List.mem_cons_of_mem first hm, .inl rfl⟩

theorem length_le_of_mem_cutAt {separator : Char} {depth : Nat} {text piece : Text}
    (h : piece ∈ cutAt separator depth text) : piece.length ≤ text.length := by
  induction text generalizing depth piece with
  | nil =>
    have hp : piece = [] := List.mem_singleton.mp h
    simp [hp]
  | cons c rest ih =>
    by_cases hc : depth = 0 ∧ c = separator
    · obtain ⟨rfl, rfl⟩ := hc
      rw [cutAt_separator, List.mem_cons] at h
      rcases h with rfl | h
      · exact Nat.zero_le _
      · exact Nat.le_succ_of_le (ih h)
    · rw [cutAt_cons rest hc] at h
      obtain ⟨other, ho, he⟩ := exists_of_mem_modifyHead h
      have hle : other.length ≤ rest.length := ih ho
      rcases he with rfl | rfl
      · exact Nat.le_succ_of_le hle
      · exact Nat.succ_le_succ hle

theorem cutAt_ne_nil (separator : Char) (depth : Nat) (text : Text) :
    cutAt separator depth text ≠ [] := by
  induction text generalizing depth with
  | nil => exact List.cons_ne_nil _ _
  | cons c rest ih =>
    by_cases hc : depth = 0 ∧ c = separator
    · obtain ⟨rfl, rfl⟩ := hc
      rw [cutAt_separator]
      exact List.cons_ne_nil _ _
    · rw [cutAt_cons rest hc, ne_eq, List.modifyHead_eq_nil_iff]
      exact ih _

-- The members of an expression on its outermost level of brackets.
def members (text : Text) : List Text := (cutAt ',' 0 text).flatMap (cutAt ';' 0)

theorem length_le_of_mem_members {text member : Text} (h : member ∈ members text) :
    member.length ≤ text.length := by
  obtain ⟨alternative, ha, hm⟩ := List.mem_flatMap.mp h
  exact Nat.le_trans (length_le_of_mem_cutAt hm) (length_le_of_mem_cutAt ha)

theorem exists_mem_members (text : Text) : ∃ member, member ∈ members text := by
  obtain ⟨alternative, ha⟩ := List.exists_mem_of_ne_nil _ (cutAt_ne_nil ',' 0 text)
  obtain ⟨member, hm⟩ := List.exists_mem_of_ne_nil _ (cutAt_ne_nil ';' 0 alternative)
  exact ⟨member, List.mem_flatMap.mpr ⟨alternative, ha, hm⟩⟩

theorem Wrapped.length_inside_lt {text : Text} (h : Wrapped text) :
    (inside text).length < text.length := by
  have hne : text ≠ [] := by
    rintro rfl
    cases h.1
  have hpos : 0 < text.length := List.length_pos_iff.mpr hne
  simp only [inside, List.length_dropLast, List.length_tail]
  omega

-- For each term of an expression, how many pairs of brackets around it wrap whole members.
-- The brackets of a literal and those of a count do not.
def termDepths (text : Text) : List Nat :=
  (members text).attach.flatMap fun member =>
    if h : Wrapped member.val then (termDepths (inside member.val)).map (· + 1) else [0]
termination_by text.length
decreasing_by
  exact Nat.lt_of_lt_of_le h.length_inside_lt (length_le_of_mem_members member.property)

theorem termDepths_eq (text : Text) :
    termDepths text = (members text).flatMap fun member =>
      if Wrapped member then (termDepths (inside member)).map (· + 1) else [0] := by
  rw [termDepths]
  simp

-- Every expression has a term. The induction follows the brackets inwards.
theorem termDepths_ne_nil (text : Text) : termDepths text ≠ [] := by
  induction text using termDepths.induct with
  | case1 text ih =>
    obtain ⟨member, hm⟩ := exists_mem_members text
    have hmember : (if Wrapped member then (termDepths (inside member)).map (· + 1) else [0]) ≠ [] := by
      by_cases hw : Wrapped member
      · rw [if_pos hw, ne_eq, List.map_eq_nil_iff]
        exact ih ⟨member, hm⟩ hw
      · rw [if_neg hw]
        exact List.cons_ne_nil 0 []
    rw [termDepths_eq, ne_eq, List.flatMap_eq_nil_iff]
    exact fun h => hmember (h member hm)

-- The largest of these numbers.
def nesting (text : Text) : Nat := (termDepths text).max (termDepths_ne_nil text)

theorem nesting_lt_iff {text : Text} {levels : Nat} :
    nesting text < levels ↔ ∀ depth ∈ termDepths text, depth < levels := by
  constructor
  · intro h depth hd
    have hle : depth ≤ nesting text := List.le_max_of_mem hd
    omega
  · intro h
    exact h (nesting text) (List.max_mem (termDepths_ne_nil text))

-- Only what is in brackets adds to the nesting.
theorem nesting_lt_succ_iff {text : Text} {levels : Nat} :
    nesting text < levels + 1 ↔
      ∀ member ∈ members text, Wrapped member → nesting (inside member) < levels := by
  rw [nesting_lt_iff, termDepths_eq, List.forall_mem_flatMap]
  refine forall₂_congr fun member _ => ?_
  by_cases hw : Wrapped member
  · simp [hw, nesting_lt_iff]
  · simp [hw]

example : nesting "count(tags)==(1),((name==(x);(id==2)))".toList = 3 := by decide +kernel

-- The text in so many pairs of brackets.
def wrap (pairs : Nat) (text : Text) : Text :=
  List.replicate pairs '(' ++ text ++ List.replicate pairs ')'

theorem wrap_succ (pairs : Nat) (text : Text) :
    wrap (pairs + 1) text = '(' :: wrap pairs text ++ [')'] := by
  rw [wrap, wrap, List.replicate_succ, List.replicate_succ' (a := ')')]
  simp

theorem nested_wrap {text : Text} (hn : Nested text) (pairs : Nat) : Nested (wrap pairs text) := by
  induction pairs with
  | zero => simpa [wrap] using hn
  | succ pairs ih =>
    rw [wrap_succ]
    exact ih.member_wrapped.nested

end Expression

namespace Language

variable {κ : Type} {language : Language κ}

theorem readConjunction_guarded {read other : Text → Except Fault (Option (Condition κ))}
    {p : Text → Prop} [DecidablePred p] {fault : Fault} {members : List Text}
    {result : Option (Condition κ)}
    (hother : ∀ member ∈ members, ∀ result, read member = .ok result →
      other member = if p member then .ok result else .error fault)
    (h : readConjunction read members = .ok result) :
    readConjunction other members =
      if ∀ member ∈ members, p member then .ok result else .error fault := by
  obtain ⟨conditions, hc, h⟩ := Outcome.bind_eq_ok_iff.mp h
  rw [readConjunction, Outcome.mapM_guarded hother hc]
  by_cases hp : ∀ member ∈ members, p member
  · rw [if_pos hp, if_pos hp]
    exact h
  · rw [if_neg hp, if_neg hp]
    rfl

theorem readTwoLevels_guarded {read other : Text → Except Fault (Option (Condition κ))}
    {p : Text → Prop} [DecidablePred p] {fault : Fault} {text : Text}
    {result : Option (Condition κ)}
    (hother : ∀ member ∈ Expression.members text, ∀ result, read member = .ok result →
      other member = if p member then .ok result else .error fault)
    (h : readTwoLevels read text = .ok result) :
    readTwoLevels other text =
      if ∀ member ∈ Expression.members text, p member then .ok result else .error fault := by
  obtain ⟨alternatives, ha, h⟩ := Outcome.bind_eq_ok_iff.mp h
  have halternative : ∀ alternative ∈ Expression.cutAt ',' 0 text, ∀ found,
      readConjunction read (Expression.cutAt ';' 0 alternative) = .ok found →
        readConjunction other (Expression.cutAt ';' 0 alternative) =
          if ∀ member ∈ Expression.cutAt ';' 0 alternative, p member then .ok found
          else .error fault := fun alternative hm _ hf =>
    readConjunction_guarded
      (fun member h => hother member (List.mem_flatMap.mpr ⟨alternative, hm, h⟩)) hf
  rw [readTwoLevels, Outcome.mapM_guarded halternative ha]
  simp only [Expression.members, List.forall_mem_flatMap]
  by_cases hp : ∀ alternative ∈ Expression.cutAt ',' 0 text,
      ∀ member ∈ Expression.cutAt ';' 0 alternative, p member
  · rw [if_pos hp, if_pos hp]
    exact h
  · rw [if_neg hp, if_neg hp]
    rfl

-- A text that is read at all is read with as many levels of brackets as it is nested, and with
-- fewer levels there is no other fault.
theorem readPlainly_of_ok {levels : Nat} {text : Text} {result : Option (Condition κ)}
    (h : language.readPlainly levels text = .ok result) (allowed : Nat) :
    language.readPlainly allowed text =
      if Expression.nesting text < allowed then .ok result
      else .error (.nestingTooDeep nestingLimit) := by
  induction levels generalizing text result allowed with
  | zero => cases h
  | succ levels ih =>
    cases allowed with
    | zero => rfl
    | succ allowed =>
      obtain ⟨expression, hs, h⟩ := Outcome.bind_eq_ok_iff.mp h
      rw [readPlainly, hs, Outcome.ok_bind]
      simp only [Expression.nesting_lt_succ_iff]
      refine readTwoLevels_guarded (fun member _ found hf => ?_) h
      rw [readMember] at hf ⊢
      by_cases hw : Expression.Wrapped member
      · rw [if_pos hw] at hf ⊢
        simpa [hw] using ih hf allowed
      · rw [if_neg hw] at hf ⊢
        simpa [hw] using hf

theorem readPlainly_wrap {text : Text} (hn : Expression.Nested text) (levels pairs : Nat) :
    language.readPlainly levels (Expression.wrap pairs text) =
      language.readPlainly (levels - pairs) text := by
  induction pairs generalizing levels with
  | zero => simp [Expression.wrap]
  | succ pairs ih =>
    cases levels with
    | zero => rw [Nat.zero_sub, readPlainly, readPlainly]
    | succ levels =>
      have hinner : Expression.Nested (Expression.wrap pairs text) := Expression.nested_wrap hn pairs
      have hvisible : Expression.Visible ('(' :: Expression.wrap pairs text ++ [')']) :=
        ⟨'(', List.mem_cons_self, rfl⟩
      rw [Expression.wrap_succ, readPlainly_member language levels hinner.member_wrapped hvisible,
        readMember_wrapped language _ hinner, ih, Nat.add_sub_add_right]

-- Brackets around a whole filter change nothing as long as brackets are not nested too deep.
theorem parse_wrap {text : Text} {condition : Condition κ}
    (h : language.parse text = .ok condition) (pairs : Nat) :
    language.parse (Expression.wrap pairs text) =
      if pairs + Expression.nesting text ≤ nestingLimit then .ok condition
      else .error (.nestingTooDeep nestingLimit) := by
  have hexpression : language.expression? (nestingLimit + 1) text 0 = .ok (some condition) :=
    expression?_of_parse h
  have hnested : Expression.Nested text := by
    obtain ⟨expression, hs, _⟩ := Outcome.bind_eq_ok_iff.mp hexpression
    exact (Expression.split_eq_ok hs).1
  rw [expression?_zero_eq_readPlainly] at hexpression
  have hwrap : language.readPlainly (nestingLimit + 1) (Expression.wrap pairs text) =
      language.readPlainly (nestingLimit + 1 - pairs) text := readPlainly_wrap hnested _ pairs
  rw [readPlainly_of_ok hexpression] at hwrap
  rw [parse, expression?_zero_eq_readPlainly, hwrap]
  by_cases hd : pairs + Expression.nesting text ≤ nestingLimit
  · rw [if_pos (by omega), if_pos hd, Outcome.ok_bind]
  · rw [if_neg (by omega), if_neg hd, Outcome.error_bind]

theorem parse_wrap_isAdult :
    let settings : Settings Empty :=
      { typeHints := { entries := [("age".toList, .scalar (.signed .w32))], nodup := by decide } }
    let language : Language Empty := .forBags Regex.isSmall settings
    let text : Text := "(age=gt=18);((age=gt=18))".toList
    let condition : Condition Empty := .group .and [.leaf isAdult, .leaf isAdult]
    Expression.nesting text = 2 ∧ language.parse text = .ok condition ∧
      language.parse (Expression.wrap 62 text) = .ok condition ∧
      language.parse (Expression.wrap 63 text) = .error (.nestingTooDeep nestingLimit) := by
  intro settings language text condition
  have hnesting : Expression.nesting text = 2 := by decide +kernel
  have hp : language.parse text = .ok condition := by rfl
  refine ⟨hnesting, hp, ?_, ?_⟩
  · rw [parse_wrap hp 62, hnesting]
    rfl
  · rw [parse_wrap hp 63, hnesting]
    rfl

end Language

end RecordFilter
