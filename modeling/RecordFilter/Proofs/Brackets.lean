import RecordFilter.Expression

namespace RecordFilter.Expression

-- The number of open brackets behind a character that is read inside so many. There is
-- none behind a bracket that closes nothing, and none behind a barred character outside
-- all brackets.
def step? (barred : Char → Bool) (depth : Nat) (c : Char) : Option Nat :=
  if c = '(' then some (depth + 1)
  else if c = ')' then (if depth = 0 then none else some (depth - 1))
  else if depth = 0 ∧ barred c then none
  else some depth

def depthAfter? (barred : Char → Bool) (depth : Nat) (text : Text) : Option Nat :=
  text.foldlM (step? barred) depth

-- Every bracket of the text has its partner.
def Nested (text : Text) : Prop := depthAfter? (fun _ => false) 0 text = some 0

instance (text : Text) : Decidable (Nested text) :=
  inferInstanceAs (Decidable (depthAfter? (fun _ => false) 0 text = some 0))

def isConnective (c : Char) : Bool := (Connective.ofSymbol? c).isSome

-- The text is one part of an expression: it is nested, and all its connectives are in
-- brackets.
def Member (text : Text) : Prop := depthAfter? isConnective 0 text = some 0

section Depth

variable {barred other : Char → Bool} {depth after : Nat} {text : Text}

@[simp] theorem depthAfter?_nil : depthAfter? barred depth [] = some depth := rfl

@[simp] theorem depthAfter?_cons (c : Char) :
    depthAfter? barred depth (c :: text) =
      (step? barred depth c).bind fun next => depthAfter? barred next text := rfl

theorem depthAfter?_append (first second : Text) :
    depthAfter? barred depth (first ++ second) =
      (depthAfter? barred depth first).bind fun next => depthAfter? barred next second :=
  List.foldlM_append

@[simp] theorem step?_open : step? barred depth '(' = some (depth + 1) := rfl

@[simp] theorem step?_close : step? barred (depth + 1) ')' = some depth := rfl

-- Everything that a step can do.
theorem step?_cases {c : Char} (h : step? barred depth c = some after) :
    (c = '(' ∧ after = depth + 1) ∨ (c = ')' ∧ depth = after + 1) ∨
      (c ≠ '(' ∧ c ≠ ')' ∧ after = depth ∧ (depth = 0 → barred c = false)) := by
  simp only [step?] at h
  by_cases ho : c = '('
  · left
    simpa [ho, eq_comm] using h
  by_cases hc : c = ')'
  · right; left
    obtain ⟨hd, ha⟩ : depth ≠ 0 ∧ depth - 1 = after := by simpa [hc] using h
    exact ⟨hc, by omega⟩
  · right; right
    simp only [ho, hc, if_false] at h
    by_cases hb : depth = 0 ∧ barred c = true
    · simp [hb] at h
    · simp only [hb, if_false, Option.some.injEq] at h
      refine ⟨ho, hc, h.symm, fun hd => ?_⟩
      simpa [hd] using hb

-- Where nothing is barred, only a bracket that closes nothing stops the reading.
theorem step?_eq_none_iff {c : Char} :
    step? (fun _ => false) depth c = none ↔ c = ')' ∧ depth = 0 := by
  by_cases ho : c = '('
  · simp [ho]
  by_cases hc : c = ')'
  · simp [hc, step?]
  · simp [ho, hc, step?]

-- A translation of depths that every step respects is respected by whole texts.
theorem depthAfter?_map (translate : Nat → Nat)
    (hstep : ∀ depth c next, step? barred depth c = some next →
      step? other (translate depth) c = some (translate next))
    (h : depthAfter? barred depth text = some after) :
    depthAfter? other (translate depth) text = some (translate after) := by
  induction text generalizing depth with
  | nil => simpa using congrArg translate (Option.some.inj h)
  | cons c rest ih =>
    obtain ⟨next, hn, hr⟩ := Option.bind_eq_some_iff.mp h
    rw [depthAfter?_cons, hstep depth c next hn]
    exact ih hr

theorem depthAfter?_mono (hb : ∀ c, other c = true → barred c = true)
    (h : depthAfter? barred depth text = some after) :
    depthAfter? other depth text = some after := by
  refine depthAfter?_map id (fun depth c next hs => ?_) h
  rcases step?_cases hs with ⟨rfl, rfl⟩ | ⟨rfl, rfl⟩ | ⟨ho, hc, rfl, hn⟩
  · simp
  · simp
  · have hnot : ¬(next = 0 ∧ other c = true) := fun hd => by simpa [hn hd.1] using hb c hd.2
    simp [step?, ho, hc, hnot]

-- Nothing is barred inside one more pair of brackets.
theorem depthAfter?_inside (h : depthAfter? barred depth text = some after) :
    depthAfter? other (depth + 1) text = some (after + 1) := by
  refine depthAfter?_map (· + 1) (fun depth c next hs => ?_) h
  rcases step?_cases hs with ⟨rfl, rfl⟩ | ⟨rfl, rfl⟩ | ⟨ho, hc, rfl, _⟩
  · simp
  · simp
  · simp [step?, ho, hc]

theorem depthAfter?_of_plain
    (h : ∀ c ∈ text, c ≠ '(' ∧ c ≠ ')' ∧ barred c = false) :
    depthAfter? barred depth text = some depth := by
  induction text with
  | nil => rfl
  | cons c rest ih =>
    obtain ⟨ho, hc, hb⟩ := h c List.mem_cons_self
    have hs : step? barred depth c = some depth := by simp [step?, ho, hc, hb]
    rw [depthAfter?_cons, hs]
    exact ih fun other hm => h other (List.mem_cons_of_mem c hm)

theorem Member.nested (h : Member text) : Nested text :=
  depthAfter?_mono (by simp) h

-- A pair of brackets around a nested text makes it one part.
theorem Nested.member_wrapped (h : Nested text) : Member ('(' :: text ++ [')']) := by
  have hi : depthAfter? isConnective 1 text = some 1 := depthAfter?_inside h
  simp [Member, depthAfter?_append, hi]

end Depth

theorem balance_eq_even_iff {depth position : Nat} {text : Text} :
    balance depth position text = .even ↔ depthAfter? (fun _ => false) depth text = some 0 := by
  induction text generalizing depth position with
  | nil => cases depth <;> simp [balance]
  | cons c rest ih =>
    rw [balance.eq_def, depthAfter?_cons]
    by_cases ho : c = '('
    · simp [ho, ih]
    by_cases hc : c = ')'
    · subst hc
      cases depth with
      | zero => simp [step?]
      | succ depth => simpa using ih
    · simp [ho, hc, ih, step?]

theorem unwrapped?_eq_some_iff {text inner : Text} :
    unwrapped? text = some inner ↔ text = '(' :: inner ++ [')'] ∧ Nested inner := by
  simp only [unwrapped?, Option.filter_eq_some_iff, Option.bind_eq_some_iff,
    Text.dropLead?_eq_some_iff, Text.dropTail?_eq_some_iff, decide_eq_true_eq,
    balance_eq_even_iff, Nested]
  constructor
  · rintro ⟨⟨_, rfl, rfl⟩, hn⟩
    exact ⟨rfl, hn⟩
  · rintro ⟨rfl, hn⟩
    exact ⟨⟨inner ++ [')'], rfl, rfl⟩, hn⟩

theorem cut_nil (depth : Nat) : cut depth [] = ([], []) := by
  cases depth <;> rfl

theorem cut_symbol (connective : Connective) (rest : Text) :
    cut 0 (connective.symbol :: rest) =
      ([], (connective, (cut 0 rest).1) :: (cut 0 rest).2) := by
  cases connective <;> rfl

theorem cut_cons {depth : Nat} {c : Char} (rest : Text)
    (hc : depth = 0 → Connective.ofSymbol? c = none) :
    cut depth (c :: rest) =
      let inner := if c = '(' then depth + 1 else if c = ')' then depth - 1 else depth
      (c :: (cut inner rest).1, (cut inner rest).2) := by
  cases depth with
  | zero => simp [cut, hc rfl]
  | succ depth => simp [cut]

theorem cut_step {depth next : Nat} {c : Char} (rest : Text)
    (h : step? isConnective depth c = some next) :
    cut depth (c :: rest) = (c :: (cut next rest).1, (cut next rest).2) := by
  rcases step?_cases h with ⟨rfl, rfl⟩ | ⟨rfl, rfl⟩ | ⟨ho, hc, rfl, hn⟩
  · exact cut_cons rest fun _ => rfl
  · exact cut_cons rest fun _ => rfl
  · rw [cut_cons rest fun hd => by simpa [isConnective] using hn hd]
    simp [ho, hc]

-- Where the cutting stops at a character, that character is a connective outside all
-- brackets, unless it closes a bracket that is not open.
theorem step?_isConnective_eq_none {depth : Nat} {c : Char}
    (h : step? isConnective depth c = none) :
    depth = 0 ∧ (c = ')' ∨ ∃ connective : Connective, c = connective.symbol) := by
  by_cases ho : c = '('
  · simp [step?, ho] at h
  by_cases hc : c = ')'
  · simp only [step?, hc] at h
    exact ⟨by simpa using h, .inl hc⟩
  · simp only [step?, ho, hc, if_false] at h
    have hd : depth = 0 ∧ isConnective c = true := by simpa using h
    obtain ⟨connective, hs⟩ := Option.isSome_iff_exists.mp hd.2
    exact ⟨hd.1, .inr ⟨connective, Connective.symbol_of_ofSymbol? hs⟩⟩

theorem cut_append {depth next : Nat} {first : Text} (rest : Text)
    (h : depthAfter? isConnective depth first = some next) :
    cut depth (first ++ rest) = (first ++ (cut next rest).1, (cut next rest).2) := by
  induction first generalizing depth with
  | nil => cases h; rfl
  | cons c first ih =>
    obtain ⟨after, hs, hr⟩ := Option.bind_eq_some_iff.mp h
    rw [List.cons_append, cut_step _ hs, ih hr]
    rfl

theorem Member.cut_eq {text : Text} (h : Member text) : cut 0 text = (text, []) := by
  simpa [cut_nil] using cut_append [] h

-- All pieces that a nested text is cut into are members.
theorem cut_members {depth : Nat} {text : Text}
    (h : depthAfter? (fun _ => false) depth text = some 0) :
    depthAfter? isConnective depth (cut depth text).1 = some 0 ∧
      ∀ piece ∈ (cut depth text).2, Member piece.2 := by
  induction text generalizing depth with
  | nil =>
    cases h
    simp [cut_nil]
  | cons c rest ih =>
    obtain ⟨next, hs, hr⟩ := Option.bind_eq_some_iff.mp h
    cases hc : step? isConnective depth c with
    | some after =>
      have hn : after = next := by
        have h' : depthAfter? (fun _ => false) depth [c] = some after :=
          depthAfter?_mono (by simp) (show depthAfter? isConnective depth [c] = some after by simp [hc])
        simpa [hs] using h'.symm
      subst hn
      rw [cut_step rest hc]
      refine ⟨?_, (ih hr).2⟩
      rw [depthAfter?_cons, hc]
      exact (ih hr).1
    | none =>
      obtain ⟨rfl, rfl | ⟨connective, rfl⟩⟩ := step?_isConnective_eq_none hc
      · simp [step?] at hs
      · have hz : next = 0 := by cases connective <;> simpa [step?, Connective.symbol] using hs.symm
        subst hz
        rw [cut_symbol]
        refine ⟨rfl, fun piece hp => ?_⟩
        rcases List.mem_cons.mp hp with rfl | hp
        · exact (ih hr).1
        · exact (ih hr).2 piece hp

end RecordFilter.Expression
