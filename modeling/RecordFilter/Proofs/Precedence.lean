import Mathlib.Data.List.ReduceOption
import RecordFilter.Language
import RecordFilter.Proofs.Outcome
import RecordFilter.Proofs.Splitting

namespace RecordFilter

namespace Expression

-- Cuts a text at a separator wherever no bracket is open, so that there is one piece more
-- than there are such separators.
def cutAt (separator : Char) : Nat → Text → List Text
  | _, [] => [[]]
  | depth, c :: rest =>
    if depth = 0 ∧ c = separator then [] :: cutAt separator 0 rest
    else
      let inner := if c = '(' then depth + 1 else if c = ')' then depth - 1 else depth
      (cutAt separator inner rest).modifyHead (c :: ·)

def inside (text : Text) : Text := text.tail.dropLast

-- The text begins with a bracket that is closed by its last character.
def Wrapped (text : Text) : Prop :=
  text.head? = some '(' ∧ text.getLast? = some ')' ∧ Nested (inside text)

instance (text : Text) : Decidable (Wrapped text) :=
  inferInstanceAs (Decidable (_ ∧ _ ∧ _))

-- The texts of an expression by conjunctions: the first conjunction, and all others.
def conjunctions (first : Text) : List (Connective × Text) → List Text × List (List Text)
  | [] => ([first], [])
  | (.and, next) :: more => (first :: (conjunctions next more).1, (conjunctions next more).2)
  | (.or, next) :: more => ([first], (conjunctions next more).1 :: (conjunctions next more).2)

theorem conjunctions_cons (c : Char) (first : Text) (more : List (Connective × Text)) :
    conjunctions (c :: first) more =
      ((conjunctions first more).1.modifyHead (c :: ·), (conjunctions first more).2) := by
  match more with
  | [] => rfl
  | (.and, next) :: more => rfl
  | (.or, next) :: more => rfl

theorem conjunctions_and (first : Text) (rest : List Text) :
    conjunctions first (rest.map fun text => (.and, text)) = (first :: rest, []) := by
  induction rest generalizing first with
  | nil => rfl
  | cons next rest ih => simp [conjunctions, ih]

theorem conjunctions_or (first : Text) (rest : List Text) :
    conjunctions first (rest.map fun text => (.or, text)) =
      ([first], rest.map fun text => [text]) := by
  induction rest generalizing first with
  | nil => rfl
  | cons next rest ih => simp [conjunctions, ih]

theorem cutAt_separator (separator : Char) (rest : Text) :
    cutAt separator 0 (separator :: rest) = [] :: cutAt separator 0 rest := by
  simp [cutAt]

theorem cutAt_cons {separator c : Char} {depth : Nat} (rest : Text)
    (hc : ¬(depth = 0 ∧ c = separator)) :
    cutAt separator depth (c :: rest) =
      (cutAt separator (if c = '(' then depth + 1 else if c = ')' then depth - 1 else depth)
        rest).modifyHead (c :: ·) := by
  simp only [cutAt, hc, if_false]

-- Cutting twice, first at disjunctions and then at conjunctions, finds the same texts as
-- cutting once at both.
theorem cutAt_cutAt (depth : Nat) (text : Text) :
    ∃ first more, cutAt ',' depth text = first :: more ∧
      cutAt ';' depth first = (conjunctions (cut depth text).1 (cut depth text).2).1 ∧
      more.map (cutAt ';' 0) = (conjunctions (cut depth text).1 (cut depth text).2).2 := by
  induction text generalizing depth with
  | nil => exact ⟨[], [], rfl, by simp [cut_nil, cutAt, conjunctions], by simp [cut_nil, conjunctions]⟩
  | cons c rest ih =>
    -- only the two separators outside brackets have an effect of their own
    by_cases ha : depth = 0 ∧ c = ';'
    · obtain ⟨rfl, rfl⟩ := ha
      obtain ⟨first, more, hc, hf, hm⟩ := ih 0
      refine ⟨';' :: first, more, ?_, ?_, ?_⟩
      · rw [cutAt_cons rest (by decide)]
        simp [hc]
      · rw [show cut 0 (';' :: rest) = _ from cut_symbol .and rest, cutAt_separator, hf]
        rfl
      · rw [show cut 0 (';' :: rest) = _ from cut_symbol .and rest, hm]
        rfl
    by_cases ho : depth = 0 ∧ c = ','
    · obtain ⟨rfl, rfl⟩ := ho
      obtain ⟨first, more, hc, hf, hm⟩ := ih 0
      refine ⟨[], first :: more, ?_, ?_, ?_⟩
      · rw [cutAt_separator, hc]
      · rw [show cut 0 (',' :: rest) = _ from cut_symbol .or rest]
        rfl
      · rw [show cut 0 (',' :: rest) = _ from cut_symbol .or rest, List.map_cons, hf, hm]
        rfl
    · have hn : depth = 0 → Connective.ofSymbol? c = none := by
        rintro rfl
        simp only [true_and] at ha ho
        simp [Connective.ofSymbol?, Connective.symbol, ha, ho]
      obtain ⟨first, more, hc, hf, hm⟩ :=
        ih (if c = '(' then depth + 1 else if c = ')' then depth - 1 else depth)
      refine ⟨c :: first, more, ?_, ?_, ?_⟩
      · rw [cutAt_cons rest ho, hc]
        rfl
      · rw [cutAt_cons first ha, hf, cut_cons rest hn, conjunctions_cons]
      · rw [hm, cut_cons rest hn, conjunctions_cons]

theorem unwrapped?_eq (text : Text) :
    unwrapped? text = if Wrapped text then some (inside text) else none := by
  split
  · next hw =>
    obtain ⟨ho, hc, hn⟩ := hw
    refine unwrapped?_eq_some_iff.mpr ⟨?_, hn⟩
    obtain ⟨lead, rfl⟩ := List.getLast?_eq_some_iff.mp hc
    cases lead with
    | nil => simp at ho
    | cons c inner =>
      have hb : c = '(' := by simpa using ho
      simp [inside, hb]
  · next hw =>
    by_contra hne
    obtain ⟨inner, hi⟩ := Option.ne_none_iff_exists'.mp hne
    obtain ⟨rfl, hn⟩ := unwrapped?_eq_some_iff.mp hi
    exact hw ⟨rfl, List.getLast?_concat, by simpa [inside] using hn⟩

end Expression

namespace Language

variable {κ : Type}

def readConjunction (read : Text → Except Fault (Option (Condition κ))) (members : List Text) :
    Except Fault (Option (Condition κ)) := do
  let conditions ← members.mapM read
  .ok (Condition.compose .and conditions.reduceOption)

-- Reads a text in two steps. It is cut into alternatives, and each alternative into
-- members, which the given reader reads from left to right.
def readTwoLevels (read : Text → Except Fault (Option (Condition κ))) (text : Text) :
    Except Fault (Option (Condition κ)) := do
  let alternatives ← (Expression.cutAt ',' 0 text).mapM fun alternative =>
    readConjunction read (Expression.cutAt ';' 0 alternative)
  .ok (Condition.compose .or alternatives.reduceOption)

-- Reads a member: a wrapped one by its inner text, any other one as a comparison, which
-- no bracket begins.
def readMember (language : Language κ) (nested : Text → Except Fault (Option (Condition κ)))
    (member : Text) : Except Fault (Option (Condition κ)) :=
  if Expression.Wrapped member then nested (Expression.inside member)
  else if member.head? = some '(' then .error (.notAComparison member)
  else do
    let comparison ← language.comparison? member
    .ok (comparison.map .leaf)

-- The plain reading of an expression by the precedence of its connectives, with so many
-- levels of brackets left. Positions play no part in it.
def readPlainly (language : Language κ) : Nat → Text → Except Fault (Option (Condition κ))
  | 0, _ => .error (.nestingTooDeep nestingLimit)
  | levels + 1, text => do
    let _ ← Expression.split text 0
    readTwoLevels (language.readMember (language.readPlainly levels)) text

theorem reduceOption_cons {α : Type} (first : Option α) (rest : List (Option α)) :
    (first :: rest).reduceOption = first.toList ++ rest.reduceOption := by
  cases first <;> simp

-- The gathering of conditions part by part comes to reading conjunction by conjunction.
theorem groups?_parts {read : Part → Except Fault (Option (Condition κ))}
    {readText : Text → Except Fault (Option (Condition κ))} (start : Nat) (first : Text)
    (more : List (Connective × Text))
    (hread : ∀ part ∈ Expression.parts start first more, read part = readText part.text)
    (gathered : List (Condition κ)) :
    groups? read gathered (Expression.parts start first more) =
      (Expression.conjunctions first more).1.mapM readText >>= fun members =>
        (Expression.conjunctions first more).2.mapM (readConjunction readText) >>= fun groups =>
          .ok ((Condition.compose .and (gathered ++ members.reduceOption)).toList ++
            groups.reduceOption) := by
  induction more generalizing start first gathered with
  | nil =>
    have hf := hread _ (List.mem_singleton.mpr rfl)
    simp only [Expression.parts, groups?, hf, Expression.conjunctions, List.mapM_cons,
      List.mapM_nil, bind_assoc, pure_bind, List.reduceOption_singleton]
    simp
  | cons piece more ih =>
    obtain ⟨connective, next⟩ := piece
    have hf := hread _ List.mem_cons_self
    have hr := ih (start + first.length + 1) next fun part hp =>
      hread part (List.mem_cons_of_mem _ hp)
    simp only [Expression.parts, groups?, hf]
    cases connective with
    | and =>
      simp only [Expression.conjunctions, if_true, hr, List.mapM_cons, bind_assoc, pure_bind,
        reduceOption_cons, List.append_assoc]
    | or =>
      simp [Expression.conjunctions, hr, List.mapM_cons, readConjunction, reduceOption_cons]

theorem readTwoLevels_eq (read : Text → Except Fault (Option (Condition κ))) (text : Text) :
    readTwoLevels read text =
      ((Expression.conjunctions (Expression.cut 0 text).1 (Expression.cut 0 text).2).1 ::
        (Expression.conjunctions (Expression.cut 0 text).1 (Expression.cut 0 text).2).2).mapM
          (readConjunction read) >>= fun alternatives =>
        .ok (Condition.compose .or alternatives.reduceOption) := by
  obtain ⟨first, more, hc, hf, hm⟩ := Expression.cutAt_cutAt 0 text
  rw [readTwoLevels, hc, ← hf, ← hm, ← List.map_cons, List.mapM_map]
  rfl

theorem groups?_eq_readTwoLevels {read : Part → Except Fault (Option (Condition κ))}
    {readText : Text → Except Fault (Option (Condition κ))} {text : Text} (start : Nat)
    (hread : ∀ part ∈ Expression.parts start (Expression.cut 0 text).1 (Expression.cut 0 text).2,
      read part = readText part.text) :
    (groups? read [] (Expression.parts start (Expression.cut 0 text).1 (Expression.cut 0 text).2) >>=
      fun groups => .ok (Condition.compose .or groups)) = readTwoLevels readText text := by
  rw [groups?_parts start _ _ hread, readTwoLevels_eq, List.mapM_cons]
  simp [readConjunction, reduceOption_cons, bind_assoc]

theorem part?_eq_readMember (language : Language κ)
    {nested : Text → Nat → Except Fault (Option (Condition κ))}
    {readNested : Text → Except Fault (Option (Condition κ))}
    (hnested : ∀ inner start, Expression.Nested inner → nested inner start = readNested inner)
    (part : Part) : language.part? nested part = language.readMember readNested part.text := by
  rw [part?, readMember, Expression.unwrapped?_eq]
  by_cases hw : Expression.Wrapped part.text
  · simpa only [hw, if_true] using hnested _ (part.start + 1) hw.2.2
  · simp only [hw, if_false]

-- Where a nested text stands in a larger one has no effect on how it is read.
theorem expression?_eq_readPlainly (language : Language κ) (levels : Nat) (text : Text)
    (start : Nat) (hn : Expression.Nested text) :
    language.expression? levels text start = language.readPlainly levels text := by
  induction levels generalizing text start with
  | zero => rfl
  | succ levels ih =>
    have hread : ∀ part : Part, language.part? (language.expression? levels) part =
        language.readMember (language.readPlainly levels) part.text :=
      language.part?_eq_readMember fun inner start hi => ih inner start hi
    rw [expression?, readPlainly, Expression.split_of_nested hn start, Expression.split_of_nested hn 0]
    split
    · rfl
    · split
      · rfl
      · exact groups?_eq_readTwoLevels start fun part _ => hread part

theorem expression?_zero_eq_readPlainly (language : Language κ) (levels : Nat) (text : Text) :
    language.expression? levels text 0 = language.readPlainly levels text := by
  cases hs : Expression.split text 0 with
  | ok expression =>
    exact language.expression?_eq_readPlainly levels text 0 (Expression.split_eq_ok hs).1
  | error fault =>
    cases levels with
    | zero => rfl
    | succ levels => simp only [expression?, readPlainly, hs, Outcome.error_bind]

theorem readMember_wrapped (language : Language κ)
    (nested : Text → Except Fault (Option (Condition κ))) {inner : Text}
    (hn : Expression.Nested inner) :
    language.readMember nested ('(' :: inner ++ [')']) = nested inner := by
  have hi : Expression.inside ('(' :: inner ++ [')']) = inner := by simp [Expression.inside]
  have hw : Expression.Wrapped ('(' :: inner ++ [')']) :=
    ⟨rfl, List.getLast?_concat, by rw [hi]; exact hn⟩
  rw [readMember, if_pos hw, hi]

theorem readMember_comparison (language : Language κ)
    (nested : Text → Except Fault (Option (Condition κ))) {member : Text}
    (hb : member.head? ≠ some '(') :
    language.readMember nested member =
      language.comparison? member >>= fun comparison => .ok (comparison.map .leaf) := by
  have hw : ¬Expression.Wrapped member := fun h => hb h.1
  rw [readMember, if_neg hw, if_neg hb]

theorem compose_toList (connective : Connective) (condition : Option (Condition κ)) :
    Condition.compose connective condition.toList = condition := by
  cases condition <;> rfl

theorem readConjunction_singleton (read : Text → Except Fault (Option (Condition κ)))
    (member : Text) : readConjunction read [member] = read member := by
  rw [readConjunction, List.mapM_cons, List.mapM_nil]
  cases read member with
  | error fault => rfl
  | ok condition => cases condition <;> rfl

theorem readPlainly_join (language : Language κ) (levels : Nat) (connective : Connective)
    {first : Text} {rest : List Text} (hm : ∀ member ∈ first :: rest, Expression.Member member)
    (hv : ∀ member ∈ first :: rest, Expression.Visible member) :
    language.readPlainly (levels + 1) (Text.join connective.symbol (first :: rest)) =
      (first :: rest).mapM (language.readMember (language.readPlainly levels)) >>=
        fun conditions => .ok (Condition.compose connective conditions.reduceOption) := by
  obtain ⟨expression, hs⟩ : ∃ expression, Expression.split
      (Text.join connective.symbol (first :: rest)) 0 = .ok expression :=
    Expression.split_join hm hv 0
  rw [readPlainly, hs, Outcome.ok_bind, readTwoLevels_eq, Expression.cut_join hm]
  cases connective with
  | and =>
    rw [Expression.conjunctions_and, List.mapM_cons, readConjunction]
    simp [bind_assoc, List.reduceOption_singleton, compose_toList]
  | or =>
    have hr : readConjunction (language.readMember (language.readPlainly levels)) ∘
        (fun text => [text]) = language.readMember (language.readPlainly levels) :=
      funext fun member => readConjunction_singleton _ member
    rw [Expression.conjunctions_or, ← List.map_cons (f := fun text => [text]), List.mapM_map, hr]

-- A text that is a single member comes to that member.
theorem readPlainly_member (language : Language κ) (levels : Nat) {member : Text}
    (hm : Expression.Member member) (hv : Expression.Visible member) :
    language.readPlainly (levels + 1) member =
      language.readMember (language.readPlainly levels) member := by
  have hmember : ∀ only ∈ [member], Expression.Member only := by simpa using hm
  have hvisible : ∀ only ∈ [member], Expression.Visible only := by simpa using hv
  have hj := readPlainly_join language levels .and hmember hvisible
  rw [Text.join, List.mapM_cons, List.mapM_nil] at hj
  rw [hj]
  cases language.readMember (language.readPlainly levels) member with
  | error fault => rfl
  | ok condition => cases condition <;> rfl

-- The filter language has two levels of precedence: disjunctions of conjunctions. One pass
-- over the parts of a filter finds the same condition, or the same fault, as cutting it
-- first at disjunctions and then at conjunctions, on every level of brackets.
theorem parse_eq_readPlainly (language : Language κ) (text : Text) :
    language.parse text =
      match language.readPlainly (nestingLimit + 1) text with
      | .ok (some condition) => .ok condition
      | .ok none => .error (.noConditions text)
      | .error fault => .error fault := by
  rw [parse, expression?_zero_eq_readPlainly]
  cases language.readPlainly (nestingLimit + 1) text with
  | error fault => rfl
  | ok condition => cases condition <;> rfl

end Language

end RecordFilter
