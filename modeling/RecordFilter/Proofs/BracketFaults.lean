import RecordFilter.Proofs.ComparisonFaults

namespace RecordFilter

-- The faults that report the state of the brackets.
def Fault.isBracket : Fault → Bool
  | unexpectedClosingBracket _ | unmatchedBrackets _ => true
  | _ => false

namespace Expression

-- A closing bracket of a text that stands inside so many brackets, up to and with which more
-- brackets are closed than opened.
def ClosesNothing (depth : Nat) (text : Text) (position : Nat) : Prop :=
  text[position]? = some ')' ∧
    depth + (text.take (position + 1)).count '(' < (text.take (position + 1)).count ')'

instance (depth : Nat) (text : Text) (position : Nat) :
    Decidable (ClosesNothing depth text position) :=
  inferInstanceAs (Decidable (_ ∧ _))

-- The first of them.
def IsFirstStray (depth : Nat) (text : Text) (position : Nat) : Prop :=
  ClosesNothing depth text position ∧ ∀ earlier < position, ¬ClosesNothing depth text earlier

instance (depth : Nat) (text : Text) (position : Nat) :
    Decidable (IsFirstStray depth text position) :=
  inferInstanceAs (Decidable (_ ∧ _))

section Balance

variable {depth next : Nat} {c : Char} {rest text : Text}

theorem balance_nil (start : Nat) :
    balance depth start [] = if depth = 0 then .even else .unclosed := by
  cases depth <;> rfl

theorem balance_cons (depth start : Nat) (c : Char) (rest : Text) :
    balance depth start (c :: rest) =
      match step? (fun _ => false) depth c with
      | some next => balance next (start + 1) rest
      | none => .stray start := by
  rw [balance.eq_def]
  by_cases ho : c = '('
  · simp [ho]
  by_cases hc : c = ')'
  · subst hc
    cases depth <;> simp [step?]
  · simp [ho, hc, step?]

theorem closesNothing_cons_zero :
    ClosesNothing depth (c :: rest) 0 ↔ step? (fun _ => false) depth c = none := by
  rw [step?_eq_none_iff, ClosesNothing]
  constructor
  · rintro ⟨hc, hcount⟩
    have hc : c = ')' := by simpa using hc
    subst hc
    simp at hcount
    exact ⟨rfl, hcount⟩
  · rintro ⟨rfl, rfl⟩
    simp

-- One character further on, a text stands inside as many brackets as that character has left open.
theorem closesNothing_cons_succ (hs : step? (fun _ => false) depth c = some next)
    (position : Nat) :
    ClosesNothing depth (c :: rest) (position + 1) ↔ ClosesNothing next rest position := by
  simp only [ClosesNothing, List.getElem?_cons_succ, List.take_succ_cons, List.count_cons]
  rcases step?_cases hs with ⟨rfl, rfl⟩ | ⟨rfl, rfl⟩ | ⟨ho, hc, rfl, _⟩
  · simp
    omega
  · simp
    omega
  · simp [ho, hc]

theorem isFirstStray_cons_succ (hs : step? (fun _ => false) depth c = some next)
    (position : Nat) :
    IsFirstStray depth (c :: rest) (position + 1) ↔ IsFirstStray next rest position := by
  have hzero : ¬ClosesNothing depth (c :: rest) 0 := by
    rw [closesNothing_cons_zero, hs]
    exact Option.some_ne_none next
  rw [IsFirstStray, IsFirstStray, closesNothing_cons_succ hs]
  refine and_congr_right fun _ => ⟨fun h earlier he => ?_, fun h earlier he => ?_⟩
  · exact mt (closesNothing_cons_succ hs earlier).mpr (h (earlier + 1) (by omega))
  · cases earlier with
    | zero => exact hzero
    | succ earlier => exact mt (closesNothing_cons_succ hs earlier).mp (h earlier (by omega))

theorem balance_eq_stray_iff (depth start : Nat) (text : Text) (position : Nat) :
    balance depth start text = .stray position ↔
      ∃ index, position = start + index ∧ IsFirstStray depth text index := by
  induction text generalizing depth start with
  | nil =>
    have hnone : ∀ index, ¬IsFirstStray depth [] index := fun index h => by simpa using h.1.1
    rw [balance_nil]
    split <;> simp [hnone]
  | cons c rest ih =>
    rw [balance_cons]
    cases hs : step? (fun _ => false) depth c with
    | none =>
      have hfirst : IsFirstStray depth (c :: rest) 0 :=
        ⟨closesNothing_cons_zero.mpr hs, fun earlier he => absurd he (Nat.not_lt_zero earlier)⟩
      constructor
      · rintro ⟨⟩
        exact ⟨0, rfl, hfirst⟩
      · rintro ⟨index, rfl, hindex⟩
        -- no bracket before the first one closes nothing
        have hz : index = 0 := by
          by_contra hne
          exact hindex.2 0 (by omega) hfirst.1
        rw [hz]
        rfl
    | some next =>
      show balance next (start + 1) rest = _ ↔ _
      rw [ih]
      constructor
      · rintro ⟨index, rfl, hindex⟩
        exact ⟨index + 1, by omega, (isFirstStray_cons_succ hs index).mpr hindex⟩
      · rintro ⟨index, rfl, hindex⟩
        cases index with
        | zero =>
          rw [IsFirstStray, closesNothing_cons_zero, hs] at hindex
          cases hindex.1
        | succ index =>
          exact ⟨index, by omega, (isFirstStray_cons_succ hs index).mp hindex⟩

theorem balance_eq_unclosed_iff (depth start : Nat) (text : Text) :
    balance depth start text = .unclosed ↔
      (∀ position, ¬ClosesNothing depth text position) ∧
        text.count ')' < depth + text.count '(' := by
  induction text generalizing depth start with
  | nil =>
    have hnone : ∀ position, ¬ClosesNothing depth [] position := fun position h => by
      simpa using h.1
    rw [balance_nil]
    cases depth <;> simp [hnone]
  | cons c rest ih =>
    rw [balance_cons]
    cases hs : step? (fun _ => false) depth c with
    | none =>
      constructor
      · rintro ⟨⟩
      · rintro ⟨hnone, _⟩
        exact absurd (closesNothing_cons_zero.mpr hs) (hnone 0)
    | some next =>
      show balance next (start + 1) rest = _ ↔ _
      have hcount : (c :: rest).count ')' < depth + (c :: rest).count '(' ↔
          rest.count ')' < next + rest.count '(' := by
        simp only [List.count_cons]
        rcases step?_cases hs with ⟨rfl, rfl⟩ | ⟨rfl, rfl⟩ | ⟨ho, hc, rfl, _⟩
        · simp
          omega
        · simp
          omega
        · simp [ho, hc]
      rw [ih, hcount]
      refine and_congr_left fun _ => ⟨fun h position => ?_, fun h position => ?_⟩
      · cases position with
        | zero =>
          rw [closesNothing_cons_zero, hs]
          exact Option.some_ne_none next
        | succ position => exact mt (closesNothing_cons_succ hs position).mp (h position)
      · exact mt (closesNothing_cons_succ hs position).mpr (h (position + 1))

end Balance

-- Nothing that shows no ink has a bracket in it.
theorem nested_of_onlyBlank {text : Text} (hb : Text.onlyBlank text = true) : Nested text := by
  refine depthAfter?_of_plain fun c hc => ?_
  have hblank : Text.isBlank c = true := List.all_eq_true.mp hb c hc
  refine ⟨?_, ?_, rfl⟩
  · rintro rfl
    cases hblank
  · rintro rfl
    cases hblank

theorem split_of_uneven {text : Text} {start : Nat} (hb : balance 0 start text ≠ .even) :
    split text start = match balance 0 start text with
      | .stray position => .error (.unexpectedClosingBracket position)
      | _ => .error (.unmatchedBrackets text) := by
  have hvisible : Text.onlyBlank text ≠ true := fun h =>
    hb (balance_eq_even_iff.mpr (nested_of_onlyBlank h))
  rw [split, if_neg hvisible]
  cases hs : balance 0 start text with
  | even => exact absurd hs hb
  | unclosed => rfl
  | stray position => rfl

theorem split_faultsIn {text : Text} (hn : Nested text) (start : Nat) :
    Outcome.FaultsIn (fun fault => fault.isBracket = false) (split text start) := by
  rw [split_of_nested hn]
  split
  · exact Outcome.faultsIn_error rfl
  · split
    · exact Outcome.faultsIn_error rfl
    · exact Outcome.faultsIn_ok _

-- The splitting reports the state of the brackets, whatever else there is to report.
theorem split_eq_bracketFault_iff {text : Text} {start : Nat} {fault : Fault}
    (hf : fault.isBracket = true) :
    split text start = .error fault ↔
      (∃ position, balance 0 start text = .stray position ∧
          fault = .unexpectedClosingBracket position) ∨
        (balance 0 start text = .unclosed ∧ fault = .unmatchedBrackets text) := by
  by_cases hb : balance 0 start text = .even
  · have hsplit : split text start ≠ .error fault := fun h => by
      have hfault : fault.isBracket = false :=
        split_faultsIn (balance_eq_even_iff.mp hb) start fault h
      rw [hf] at hfault
      cases hfault
    simp [hb, hsplit]
  · rw [split_of_uneven hb]
    cases hs : balance 0 start text with
    | even => exact absurd hs hb
    | unclosed => simp [eq_comm]
    | stray position => simp [eq_comm]

end Expression

theorem Fault.category_of_isBracket {fault : Fault} (h : fault.isBracket = true) :
    fault.category = .grammar := by
  cases fault with
  | unexpectedClosingBracket position => rfl
  | unmatchedBrackets expression => rfl
  | _ => cases h

theorem Fault.OfComparison.isBracket_eq_false {text : Text} {fault : Fault}
    (h : fault.OfComparison text) : fault.isBracket = false := by
  cases h with
  | notAComparison => rfl
  | invalidPath _ => rfl
  | resolution hf =>
    by_contra hb
    have hgrammar : fault.category = .grammar :=
      Fault.category_of_isBracket (by simpa using hb)
    rw [hf] at hgrammar
    cases hgrammar
  | unreadable _ => rfl

namespace Language

variable {κ : Type} {language : Language κ}

-- Once the brackets of a text are in order, so are those of every text in brackets in it.
theorem expression?_faultsIn (levels : Nat) {text : Text} (hn : Expression.Nested text)
    (start : Nat) :
    Outcome.FaultsIn (fun fault => fault.isBracket = false)
      (language.expression? levels text start) := by
  induction levels generalizing text start with
  | zero => exact Outcome.faultsIn_error rfl
  | succ levels ih =>
    refine Outcome.faultsIn_bind (Expression.split_faultsIn hn start) fun expression _ => ?_
    refine Outcome.faultsIn_bind (faultsIn_groups? fun part _ => ?_) fun _ _ => Outcome.faultsIn_ok _
    refine part?_faultsIn (fun inner hi => ih ?_ (part.start + 1)) fun _ hf => hf.isBracket_eq_false
    exact (Expression.unwrapped?_eq_some_iff.mp hi).2

theorem parse_eq_bracketFault_iff {text : Text} {fault : Fault} (hf : fault.isBracket = true) :
    language.parse text = .error fault ↔ Expression.split text 0 = .error fault := by
  constructor
  · intro h
    rcases Outcome.bind_eq_error_iff.mp h with h | ⟨result, _, h⟩
    · cases hs : Expression.split text 0 with
      | error other =>
        rw [expression?, hs] at h
        cases h
        rfl
      | ok expression =>
        -- what is read further in cannot be to blame
        have hn : Expression.Nested text := (Expression.split_eq_ok hs).1
        have hfault : fault.isBracket = false :=
          expression?_faultsIn (nestingLimit + 1) hn 0 fault h
        rw [hf] at hfault
        cases hfault
    · cases result with
      | none =>
        cases h
        cases hf
      | some condition => cases h
  · intro h
    rw [parse, expression?, h]
    rfl

-- Of all that may be wrong with a filter, its brackets are reported first: the first closing one
-- that closes nothing, by its place among the characters, and else that some are left open. What is
-- in brackets is only read when all of them match, and never has such a fault of its own.
theorem parse_unbalanced (language : Language κ) (text : Text) :
    (∀ position, language.parse text = .error (.unexpectedClosingBracket position) ↔
      Expression.IsFirstStray 0 text position) ∧
    (∀ expression, language.parse text = .error (.unmatchedBrackets expression) ↔
      (∀ position, ¬Expression.ClosesNothing 0 text position) ∧
        text.count ')' < text.count '(' ∧ expression = text) ∧
    ∀ levels member inner start, Expression.unwrapped? member = some inner →
      Outcome.FaultsIn (fun fault => fault.isBracket = false)
        (language.expression? levels inner start) := by
  refine ⟨fun position => ?_, fun expression => ?_, fun levels member inner start hi => ?_⟩
  · rw [parse_eq_bracketFault_iff rfl, Expression.split_eq_bracketFault_iff rfl]
    simp [Expression.balance_eq_stray_iff]
  · rw [parse_eq_bracketFault_iff rfl, Expression.split_eq_bracketFault_iff rfl]
    simp [Expression.balance_eq_unclosed_iff, and_assoc]
  · exact expression?_faultsIn levels (Expression.unwrapped?_eq_some_iff.mp hi).2 start

theorem parse_unbalanced_accented :
    let language : Language Empty := .forBags Regex.isSmall {}
    language.parse "é==1);((x".toList = .error (.unexpectedClosingBracket 4) ∧
      language.parse ";(é==1".toList = .error (.unmatchedBrackets ";(é==1".toList) ∧
      Expression.unwrapped? "(é;)".toList = some "é;".toList ∧
      Outcome.FaultsIn (fun fault => fault.isBracket = false)
        (language.expression? nestingLimit "é;".toList 1) := by
  intro language
  have hstray : Expression.IsFirstStray 0 "é==1);((x".toList 4 := by decide
  have hclosed : ∀ position, ¬Expression.ClosesNothing 0 ";(é==1".toList position := fun position h =>
    absurd (List.mem_of_getElem? h.1) (by decide)
  have hi : Expression.unwrapped? "(é;)".toList = some "é;".toList := rfl
  exact ⟨((parse_unbalanced language _).1 4).mpr hstray,
    ((parse_unbalanced language _).2.1 _).mpr ⟨hclosed, by decide, rfl⟩, hi,
    (parse_unbalanced language "(é;)".toList).2.2 nestingLimit _ _ 1 hi⟩

end Language

end RecordFilter
