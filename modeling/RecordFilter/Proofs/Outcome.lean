import RecordFilter.Fault

namespace RecordFilter.Outcome

variable {α β : Type}

@[simp] theorem ok_bind (a : α) (next : α → Except Fault β) :
    (Except.ok a >>= next) = next a := rfl

@[simp] theorem error_bind (fault : Fault) (next : α → Except Fault β) :
    ((Except.error fault : Except Fault α) >>= next) = .error fault := rfl

theorem bind_eq_ok_iff {first : Except Fault α} {next : α → Except Fault β} {b : β} :
    (first >>= next) = .ok b ↔ ∃ a, first = .ok a ∧ next a = .ok b := by
  cases first <;> simp

theorem bind_eq_error_iff {first : Except Fault α} {next : α → Except Fault β} {fault : Fault} :
    (first >>= next) = .error fault ↔
      first = .error fault ∨ ∃ a, first = .ok a ∧ next a = .error fault := by
  cases first <;> simp

theorem exists_mapM_eq_ok {f : α → Except Fault β} {good : β → Prop} {xs : List α}
    (hf : ∀ x ∈ xs, ∃ y, f x = .ok y ∧ good y) :
    ∃ ys, xs.mapM f = .ok ys ∧ ∀ y ∈ ys, good y := by
  induction xs with
  | nil => exact ⟨[], rfl, by simp⟩
  | cons x xs ih =>
    obtain ⟨y, hy, hg⟩ := hf x List.mem_cons_self
    obtain ⟨ys, hys, hall⟩ := ih fun other ho => hf other (List.mem_cons_of_mem x ho)
    refine ⟨y :: ys, ?_, List.forall_mem_cons.mpr ⟨hg, hall⟩⟩
    rw [List.mapM_cons, hy, hys]
    rfl

theorem ne_nil_of_mapM {f : α → Except Fault β} {xs : List α} {ys : List β}
    (h : xs.mapM f = .ok ys) (hne : xs ≠ []) : ys ≠ [] := by
  cases xs with
  | nil => exact absurd rfl hne
  | cons x xs =>
    rw [List.mapM_cons] at h
    obtain ⟨y, _, h⟩ := bind_eq_ok_iff.mp h
    obtain ⟨rest, _, h⟩ := bind_eq_ok_iff.mp h
    cases h
    simp

-- A function that gives what another one does on some elements, and one fault on the others,
-- does the same to lists.
theorem mapM_guarded {f g : α → Except Fault β} {p : α → Prop} [DecidablePred p] {fault : Fault}
    {xs : List α} {ys : List β}
    (hg : ∀ x ∈ xs, ∀ y, f x = .ok y → g x = if p x then .ok y else .error fault)
    (h : xs.mapM f = .ok ys) :
    xs.mapM g = if ∀ x ∈ xs, p x then .ok ys else .error fault := by
  induction xs generalizing ys with
  | nil =>
    cases h
    simp [pure, Except.pure]
  | cons x xs ih =>
    rw [List.mapM_cons] at h
    obtain ⟨y, hy, h⟩ := bind_eq_ok_iff.mp h
    obtain ⟨rest, hrest, h⟩ := bind_eq_ok_iff.mp h
    cases h
    have hr := ih (fun other ho => hg other (List.mem_cons_of_mem x ho)) hrest
    rw [List.mapM_cons, hg x List.mem_cons_self y hy, hr]
    by_cases hx : p x
    · by_cases hxs : ∀ y ∈ xs, p y
      · rw [if_pos hx, if_pos hxs, if_pos (List.forall_mem_cons.mpr ⟨hx, hxs⟩)]
        rfl
      · rw [if_pos hx, if_neg hxs, if_neg fun h => hxs (List.forall_mem_cons.mp h).2]
        rfl
    · rw [if_neg hx, if_neg fun h => hx (List.forall_mem_cons.mp h).1]
      rfl

-- Where all elements fail with one fault, if at all, so does the list.
theorem mapM_eq_ite {f : α → Except Fault β} {g : α → β} {p : α → Prop}
    [DecidablePred p] {fault : Fault} {xs : List α}
    (hf : ∀ x ∈ xs, f x = if p x then .ok (g x) else .error fault) :
    xs.mapM f = if ∀ x ∈ xs, p x then .ok (xs.map g) else .error fault := by
  refine mapM_guarded (f := fun x => .ok (g x)) (fun x hx y hy => ?_) List.mapM_pure
  rw [hf x hx, hy]

-- A result that can be a fault only if the fault is allowed.
def FaultsIn (allowed : Fault → Prop) (result : Except Fault α) : Prop :=
  ∀ fault, result = .error fault → allowed fault

variable {allowed : Fault → Prop}

theorem faultsIn_ok (a : α) : FaultsIn allowed (.ok a : Except Fault α) := by
  rintro fault ⟨⟩

theorem faultsIn_error {fault : Fault} (h : allowed fault) :
    FaultsIn allowed (.error fault : Except Fault α) := by
  rintro other ⟨⟩
  exact h

theorem FaultsIn.mono {other : Fault → Prop} {result : Except Fault α}
    (h : FaultsIn allowed result) (ho : ∀ fault, allowed fault → other fault) :
    FaultsIn other result :=
  fun fault he => ho fault (h fault he)

theorem faultsIn_bind {first : Except Fault α} {next : α → Except Fault β}
    (hf : FaultsIn allowed first) (hn : ∀ a, first = .ok a → FaultsIn allowed (next a)) :
    FaultsIn allowed (first >>= next) := by
  intro fault he
  rcases bind_eq_error_iff.mp he with h | ⟨a, ha, h⟩
  · exact hf fault h
  · exact hn a ha fault h

theorem faultsIn_mapM {f : α → Except Fault β} {xs : List α}
    (hf : ∀ x ∈ xs, FaultsIn allowed (f x)) : FaultsIn allowed (xs.mapM f) := by
  induction xs with
  | nil => exact faultsIn_ok []
  | cons x xs ih =>
    rw [List.mapM_cons]
    apply faultsIn_bind (hf x List.mem_cons_self)
    intro y _
    apply faultsIn_bind (ih fun other ho => hf other (List.mem_cons_of_mem x ho))
    exact fun ys _ => faultsIn_ok (y :: ys)

theorem faultsIn_anyM {f : α → Except Fault Bool} {xs : List α}
    (hf : ∀ x ∈ xs, FaultsIn allowed (f x)) : FaultsIn allowed (xs.anyM f) := by
  induction xs with
  | nil => exact faultsIn_ok false
  | cons x xs ih =>
    rw [List.anyM_cons]
    apply faultsIn_bind (hf x List.mem_cons_self)
    intro found _
    cases found with
    | true => exact faultsIn_ok true
    | false => exact ih fun other ho => hf other (List.mem_cons_of_mem x ho)

end RecordFilter.Outcome
