import RecordFilter.Proofs.Brackets

namespace RecordFilter.Expression

theorem text_parts (start : Nat) (first : Text) (more : List (Connective × Text)) :
    (parts start first more).map Part.text = first :: more.map Prod.snd := by
  induction more generalizing start first with
  | nil => rfl
  | cons piece more ih => simp [parts, ih]

theorem danglingEnd?_cons (part second third : Part) (rest : List Part) :
    danglingEnd? (part :: second :: third :: rest) = danglingEnd? (second :: third :: rest) := rfl

-- Whether an expression ends in a connective does not depend on where it stands.
theorem danglingEnd?_parts (start : Nat) (first : Text) (more : List (Connective × Text)) :
    danglingEnd? (parts start first more) = danglingEnd? (parts 0 first more) := by
  induction more generalizing start first with
  | nil => rfl
  | cons piece more ih =>
    have h := (ih (start + first.length + 1) piece.2).trans (ih (0 + first.length + 1) piece.2).symm
    match more, h with
    | [], _ => rfl
    | [next], h => simpa only [parts, danglingEnd?_cons] using h
    | next :: last :: more, h => simpa only [parts, danglingEnd?_cons] using h

theorem danglingEnd?_eq_none {expression : List Part}
    (h : ∀ part ∈ expression, part.text ≠ []) : danglingEnd? expression = none := by
  induction expression with
  | nil => rfl
  | cons part rest ih =>
    have hr := ih fun other ho => h other (List.mem_cons_of_mem part ho)
    match rest, hr with
    | [], _ => rfl
    | [last], _ =>
      have hl : last.text ≠ [] := h last (by simp)
      cases hc : part.connective <;> simp [danglingEnd?, hc, hl]
    | second :: third :: rest, hr => exact hr

-- What the splitting comes down to once no bracket is amiss.
theorem split_of_nested {text : Text} (hn : Nested text) (start : Nat) :
    split text start =
      if Text.onlyBlank text then .error .emptyExpression
      else match danglingEnd? (parts 0 (cut 0 text).1 (cut 0 text).2) with
        | some ending => .error (.danglingOperator ending)
        | none => .ok (parts start (cut 0 text).1 (cut 0 text).2) := by
  have hb : balance 0 start text = .even := balance_eq_even_iff.mpr hn
  rw [← danglingEnd?_parts start]
  unfold split
  generalize balance 0 start text = state at hb ⊢
  subst hb
  rfl

theorem split_eq_ok {text : Text} {start : Nat} {expression : List Part}
    (h : split text start = .ok expression) :
    Nested text ∧ expression = parts start (cut 0 text).1 (cut 0 text).2 := by
  have hb : balance 0 start text = .even := by
    simp only [split] at h
    split at h
    · cases h
    · split at h <;> first | assumption | cases h
  have hn : Nested text := balance_eq_even_iff.mp hb
  refine ⟨hn, ?_⟩
  rw [split_of_nested hn] at h
  split at h
  · cases h
  · split at h <;> cases h
    rfl

theorem member_of_mem_parts {text : Text} (hn : Nested text) {start : Nat} {part : Part}
    (hp : part ∈ parts start (cut 0 text).1 (cut 0 text).2) : Member part.text := by
  have hm : part.text ∈ (parts start (cut 0 text).1 (cut 0 text).2).map Part.text :=
    List.mem_map_of_mem hp
  have hc := cut_members hn
  rw [text_parts, List.mem_cons, List.mem_map] at hm
  rcases hm with he | ⟨piece, hm, he⟩
  · exact he ▸ hc.1
  · exact he ▸ hc.2 piece hm

section Join

variable {connective : Connective} {first : Text} {rest : List Text}

-- Joined members are cut at the joints and nowhere else.
theorem cut_join (hm : ∀ member ∈ first :: rest, Member member) :
    cut 0 (Text.join connective.symbol (first :: rest)) =
      (first, rest.map fun member => (connective, member)) := by
  induction rest generalizing first with
  | nil => exact (hm first List.mem_cons_self).cut_eq
  | cons next rest ih =>
    have hn := ih fun member ho => hm member (List.mem_cons_of_mem first ho)
    rw [Text.join, cut_append _ (hm first List.mem_cons_self), cut_symbol, hn]
    · simp
    · simp

theorem nested_join (hm : ∀ member ∈ first :: rest, Member member) :
    Nested (Text.join connective.symbol (first :: rest)) := by
  induction rest generalizing first with
  | nil => exact (hm first List.mem_cons_self).nested
  | cons next rest ih =>
    have hn : depthAfter? (fun _ => false) 0 (Text.join connective.symbol (next :: rest)) = some 0 :=
      ih fun member ho => hm member (List.mem_cons_of_mem first ho)
    have hf : depthAfter? (fun _ => false) 0 first = some 0 := (hm first List.mem_cons_self).nested
    have hs : step? (fun _ => false) 0 connective.symbol = some 0 := by cases connective <;> rfl
    simp [Nested, Text.join, depthAfter?_append, hf, hs, hn]

-- The text has something to show.
def Visible (text : Text) : Prop := ∃ c ∈ text, Text.isBlank c = false

theorem Visible.ne_nil {text : Text} (h : Visible text) : text ≠ [] := by
  obtain ⟨c, hc, -⟩ := h
  exact List.ne_nil_of_mem hc

theorem visible_join {separator : Char} (h : Visible first) :
    Visible (Text.join separator (first :: rest)) := by
  obtain ⟨c, hc, hb⟩ := h
  refine ⟨c, ?_, hb⟩
  cases rest with
  | nil => exact hc
  | cons next rest => exact List.mem_append_left _ hc

theorem split_join (hm : ∀ member ∈ first :: rest, Member member)
    (hv : ∀ member ∈ first :: rest, Visible member) (start : Nat) :
    ∃ expression, split (Text.join connective.symbol (first :: rest)) start = .ok expression := by
  have hb : Text.onlyBlank (Text.join connective.symbol (first :: rest)) = false := by
    have hvisible : Visible (Text.join connective.symbol (first :: rest)) :=
      visible_join (hv first List.mem_cons_self)
    obtain ⟨c, hc, hb⟩ := hvisible
    exact List.all_eq_false.mpr ⟨c, hc, by simp [hb]⟩
  have hd : danglingEnd? (parts 0 first (rest.map fun member => (connective, member))) = none := by
    refine danglingEnd?_eq_none fun part hp => (hv part.text ?_).ne_nil
    have ht := List.mem_map_of_mem (f := Part.text) hp
    simpa [text_parts] using ht
  rw [split_of_nested (nested_join hm), hb, cut_join hm, hd]
  exact ⟨_, rfl⟩

end Join

end RecordFilter.Expression
