import Mathlib.Tactic.ByContra
import RecordFilter.Language
import RecordFilter.Proofs.Brackets
import RecordFilter.Proofs.Outcome

namespace RecordFilter

theorem Text.mem_join {separator c : Char} {pieces : List Text}
    (h : c ∈ join separator pieces) : c = separator ∨ ∃ piece ∈ pieces, c ∈ piece := by
  induction pieces with
  | nil => cases h
  | cons piece rest ih =>
    cases rest with
    | nil => exact .inr ⟨piece, List.mem_cons_self, h⟩
    | cons next rest =>
      simp only [join, List.mem_append, List.mem_cons] at h
      rcases h with h | h | h
      · exact .inr ⟨piece, List.mem_cons_self, h⟩
      · exact .inl h
      · rcases ih h with h | ⟨other, ho, h⟩
        · exact .inl h
        · exact .inr ⟨other, List.mem_cons_of_mem piece ho, h⟩

namespace Path

theorem isNameChar_or_of_mem_dotted {path : Path} {c : Char} (h : c ∈ path.dotted) :
    isNameChar c = true ∨ c = '.' := by
  rcases Text.mem_join h with h | ⟨segment, hs, h⟩
  · exact .inr h
  · exact .inl ((isIdentifier_iff.mp (path.isIdentifier segment hs)).2 c h)

theorem dotted_eq_cons (path : Path) : ∃ c rest, path.dotted = c :: rest ∧ isNameChar c = true := by
  cases hp : path.segments with
  | nil => exact absurd hp path.segments_ne_nil
  | cons first rest =>
    obtain ⟨hne, hchars⟩ := isIdentifier_iff.mp (path.isIdentifier first (by simp [hp]))
    cases first with
    | nil => exact absurd rfl hne
    | cons c name =>
      refine ⟨c, ?_⟩
      rw [dotted, hp]
      cases rest with
      | nil => exact ⟨name, rfl, hchars c List.mem_cons_self⟩
      | cons next rest => exact ⟨_, rfl, hchars c List.mem_cons_self⟩

theorem ne_of_isNameChar {c : Char} (hc : isNameChar c = true) {reserved : Char}
    (hr : isReserved reserved = true) : c ≠ reserved := by
  rintro rfl
  simp [isNameChar, hr] at hc

theorem isPrintable_of_mem_dotted {path : Path} {c : Char} (h : c ∈ path.dotted) :
    Text.isPrintable c = true := by
  rcases isNameChar_or_of_mem_dotted h with hn | rfl
  · simp only [isNameChar, Bool.and_eq_true] at hn
    exact Text.isPrintable_of_isGraphic hn.1
  · rfl

-- The only reserved character in a dotted path is the point.
theorem ne_of_mem_dotted {path : Path} {c : Char} (h : c ∈ path.dotted) {reserved : Char}
    (hr : isReserved reserved = true) (hp : reserved ≠ '.') : c ≠ reserved := by
  rcases isNameChar_or_of_mem_dotted h with hn | rfl
  · exact ne_of_isNameChar hn hr
  · exact hp.symm

theorem mem_text {path : Path} {c : Char} (h : c ∈ path.text) :
    c ∈ path.dotted ∨ c ∈ countOpen ∨ c = ')' := by
  simp only [text, wrapped] at h
  split at h
  · simp only [List.mem_append, List.mem_singleton] at h
    rcases h with (h | h) | h
    · exact .inr (.inl h)
    · exact .inl h
    · exact .inr (.inr h)
  · exact .inl h

theorem isPrintable_of_mem_text {path : Path} {c : Char} (h : c ∈ path.text) :
    Text.isPrintable c = true := by
  rcases mem_text h with h | h | rfl
  · exact isPrintable_of_mem_dotted h
  · have hall : countOpen.all Text.isPrintable = true := by decide
    exact List.all_eq_true.mp hall c h
  · rfl

theorem ne_of_mem_text {path : Path} {c : Char} (h : c ∈ path.text) : c ≠ '=' ∧ c ≠ '!' := by
  rcases mem_text h with h | h | rfl
  · exact ⟨ne_of_mem_dotted h rfl (by decide), ne_of_mem_dotted h rfl (by decide)⟩
  · have hall : countOpen.all (fun c => c != '=' && c != '!') = true := by decide
    simpa using List.all_eq_true.mp hall c h
  · decide

-- A path begins with a character that leaves ink and is no bracket.
theorem text_eq_cons (path : Path) :
    ∃ c rest, path.text = c :: rest ∧ Text.isGraphic c = true ∧ c ≠ '(' := by
  cases hs : path.sizeCheck with
  | true => exact ⟨'c', _, by rw [text, wrapped, hs]; rfl, rfl, by decide⟩
  | false =>
    obtain ⟨c, rest, hd, hc⟩ := path.dotted_eq_cons
    refine ⟨c, rest, by simp [text, wrapped, hs, hd], ?_, ne_of_isNameChar hc rfl⟩
    simp only [isNameChar, Bool.and_eq_true] at hc
    exact hc.1

theorem counted?_text (path : Path) :
    counted? path.text = if path.sizeCheck then some path.dotted else none := by
  cases hs : path.sizeCheck with
  | true =>
    refine Option.bind_eq_some_iff.mpr ⟨path.dotted ++ [')'], ?_, ?_⟩
    · rw [Text.dropLead?_eq_some_iff, text, wrapped, hs, if_pos rfl, List.append_assoc]
    · exact Text.dropTail?_eq_some_iff.mpr rfl
  | false =>
    -- a path without a size check would have a bracket in it
    by_contra hne
    obtain ⟨inner, hi⟩ := Option.ne_none_iff_exists'.mp hne
    obtain ⟨rest, hr, -⟩ := Option.bind_eq_some_iff.mp hi
    rw [Text.dropLead?_eq_some_iff, text, wrapped, hs] at hr
    have hm : '(' ∈ path.dotted := by
      rw [show path.dotted = countOpen ++ rest from hr]
      exact List.mem_append_left rest (by decide)
    exact ne_of_mem_dotted hm rfl (by decide) rfl

theorem ofText_text (path : Path) : ofText path.text = .ok path := by
  have h : ofDotted path.dotted path.sizeCheck = .ok path := ofDotted_dotted path path.sizeCheck
  rw [ofText, counted?_text]
  cases hs : path.sizeCheck with
  | true =>
    rw [hs] at h
    exact h
  | false =>
    rw [hs] at h
    simp only [text, wrapped, hs]
    exact h

theorem text_of_ofText {text : Text} {path : Path} (h : ofText text = .ok path) :
    path.text = text := by
  rw [ofText] at h
  cases hc : counted? text with
  | none =>
    rw [hc] at h
    obtain ⟨hd, hs⟩ := dotted_of_ofDotted h
    simp [Path.text, wrapped, hd, hs]
  | some inner =>
    rw [hc] at h
    obtain ⟨hd, hs⟩ := dotted_of_ofDotted h
    obtain ⟨rest, hl, ht⟩ := Option.bind_eq_some_iff.mp hc
    rw [Text.dropLead?_eq_some_iff] at hl
    rw [Text.dropTail?_eq_some_iff] at ht
    simp [Path.text, wrapped, hd, hs, hl, ht]

theorem depthAfter?_dotted (path : Path) (depth : Nat) :
    Expression.depthAfter? Expression.isConnective depth path.dotted = some depth := by
  refine Expression.depthAfter?_of_plain fun c hc => ⟨?_, ?_, ?_⟩
  · exact ne_of_mem_dotted hc rfl (by decide)
  · exact ne_of_mem_dotted hc rfl (by decide)
  · have ha : c ≠ ';' := ne_of_mem_dotted hc rfl (by decide)
    have ho : c ≠ ',' := ne_of_mem_dotted hc rfl (by decide)
    simp [Expression.isConnective, Connective.ofSymbol?, Connective.symbol, ha, ho]

theorem depthAfter?_text (path : Path) :
    Expression.depthAfter? Expression.isConnective 0 path.text = some 0 := by
  rw [text, wrapped]
  split
  · have ho : Expression.depthAfter? Expression.isConnective 0 countOpen = some 1 := rfl
    simp [Expression.depthAfter?_append, ho, depthAfter?_dotted]
  · exact path.depthAfter?_dotted 0

end Path

namespace Term

theorem leadingToken?_token (singleEquals : Bool) (comparator : Comparator) (literal : Text) :
    leadingToken? (Comparator.tokens singleEquals) (comparator.token ++ literal) =
      some (comparator.token, comparator, literal) := by
  cases singleEquals <;> cases comparator <;> rfl

theorem mem_of_leadingToken? {tokens : List (Text × Comparator)} {text token value : Text}
    {comparator : Comparator} (h : leadingToken? tokens text = some (token, comparator, value)) :
    (token, comparator) ∈ tokens := by
  induction tokens with
  | nil => cases h
  | cons entry tokens ih =>
    rw [leadingToken?] at h
    split at h
    · cases h
      exact List.mem_cons_self
    · exact List.mem_cons_of_mem entry (ih h)

-- A spelling of a comparator begins with one of two characters.
theorem head?_of_mem_tokens {singleEquals : Bool} {entry : Text × Comparator}
    (h : entry ∈ Comparator.tokens singleEquals) :
    entry.1.head? = some '=' ∨ entry.1.head? = some '!' := by
  have hall : ∀ entry ∈ Comparator.tokens singleEquals,
      entry.1.head? = some '=' ∨ entry.1.head? = some '!' := by
    cases singleEquals <;> decide
  exact hall entry h

theorem leadingToken?_eq_none (singleEquals : Bool) {c : Char} (rest : Text)
    (hc : c ≠ '=' ∧ c ≠ '!') : leadingToken? (Comparator.tokens singleEquals) (c :: rest) = none := by
  by_contra hne
  obtain ⟨⟨token, comparator, value⟩, ht⟩ := Option.ne_none_iff_exists'.mp hne
  have hhead := head?_of_mem_tokens (mem_of_leadingToken? ht)
  have htext : c :: rest = token ++ value := leadingToken?_eq_append ht
  cases token with
  | nil => simp at hhead
  | cons first token =>
    cases htext
    rcases hhead with h | h
    · exact hc.1 (Option.some.inj h)
    · exact hc.2 (Option.some.inj h)

theorem mem_of_cut? {tokens : List (Text × Comparator)} {text : Text} {term : Term}
    (h : cut? tokens text = some term) : (term.token, term.comparator) ∈ tokens := by
  induction text generalizing term with
  | nil => cases h
  | cons c rest ih =>
    rw [cut?] at h
    split at h
    · split at h
      · next hl =>
        cases h
        exact mem_of_leadingToken? hl
      · obtain ⟨shorter, hs, rfl⟩ := Option.map_eq_some_iff.mp h
        have hr := ih hs
        exact hr
    · cases h

-- A name in which no comparator begins ends where the first comparator is.
theorem cut?_append {singleEquals : Bool} {name rest token value : Text} {comparator : Comparator}
    (hne : name ≠ [])
    (hname : ∀ c ∈ name, Text.isPrintable c = true ∧ c ≠ '=' ∧ c ≠ '!')
    (hl : leadingToken? (Comparator.tokens singleEquals) rest = some (token, comparator, value)) :
    cut? (Comparator.tokens singleEquals) (name ++ rest) =
      some ⟨name, token, comparator, value⟩ := by
  induction name with
  | nil => exact absurd rfl hne
  | cons c name ih =>
    have hc := hname c List.mem_cons_self
    simp only [List.cons_append, cut?, hc.1, if_true]
    cases name with
    | nil => simp [hl]
    | cons next name =>
      have hn := hname next (by simp)
      have hr := ih (by simp) fun other ho => hname other (List.mem_cons_of_mem c ho)
      rw [hr]
      simp only [List.cons_append, leadingToken?_eq_none singleEquals _ hn.2]
      rfl

theorem ofText?_append {singleEquals : Bool} {rest token value : Text} {comparator : Comparator}
    (path : Path)
    (hl : leadingToken? (Comparator.tokens singleEquals) rest = some (token, comparator, value)) :
    ofText? singleEquals (path.text ++ rest) = some ⟨path.text, token, comparator, value⟩ := by
  obtain ⟨c, name, ht, -⟩ := path.text_eq_cons
  refine cut?_append (by simp [ht]) (fun c hc => ?_) hl
  exact ⟨Path.isPrintable_of_mem_text hc, Path.ne_of_mem_text hc⟩

theorem ofText?_written (singleEquals : Bool) (path : Path) (comparator : Comparator)
    (literal : Text) :
    ofText? singleEquals (path.text ++ comparator.token ++ literal) =
      some ⟨path.text, comparator.token, comparator, literal⟩ := by
  rw [List.append_assoc]
  exact ofText?_append path (leadingToken?_token singleEquals comparator literal)

-- No spelling of a comparator has a bracket or a connective in it.
theorem depthAfter?_token {singleEquals : Bool} {token : Text} {comparator : Comparator}
    (h : (token, comparator) ∈ Comparator.tokens singleEquals) :
    Expression.depthAfter? Expression.isConnective 0 token = some 0 := by
  have hall : ∀ entry ∈ Comparator.tokens singleEquals,
      Expression.depthAfter? Expression.isConnective 0 entry.1 = some 0 := by
    cases singleEquals <;> decide
  exact hall _ h

theorem mem_tokens (singleEquals : Bool) (comparator : Comparator) :
    (comparator.token, comparator) ∈ Comparator.tokens singleEquals :=
  mem_of_leadingToken? (leadingToken?_token singleEquals comparator [])

-- Whether a term is one member of an expression is up to its value alone.
theorem member_iff (path : Path) {singleEquals : Bool} {token : Text} {comparator : Comparator}
    (h : (token, comparator) ∈ Comparator.tokens singleEquals) (literal : Text) :
    Expression.Member (path.text ++ token ++ literal) ↔ Expression.Member literal := by
  simp [Expression.Member, Expression.depthAfter?_append, path.depthAfter?_text,
    depthAfter?_token h]

end Term

end RecordFilter
