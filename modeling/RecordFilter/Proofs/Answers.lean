import RecordFilter.Proofs.Outcome

namespace RecordFilter.Connective

-- The answer of a single child that decides the whole group.
def decisive : Connective → Bool
  | and => false
  | or => true

-- What a group makes of the answers of its children. Behind the first one that decides, or
-- that is a fault, the others have no effect.
def settle (connective : Connective) : List (Except Fault Bool) → Except Fault Bool
  | [] => .ok !connective.decisive
  | answer :: rest => do
    let met ← answer
    if met = connective.decisive then .ok met else connective.settle rest

-- What the connective means when every answer is known.
def combine : Connective → List Bool → Bool
  | and, answers => answers.all id
  | or, answers => answers.any id

variable {connective : Connective}

theorem combine_nil : connective.combine [] = !connective.decisive := by
  cases connective <;> rfl

theorem combine_cons (met : Bool) (rest : List Bool) :
    connective.combine (met :: rest) =
      if met = connective.decisive then met else connective.combine rest := by
  cases connective <;> cases met <;> rfl

theorem combine_perm {answers others : List Bool} (h : answers.Perm others) :
    connective.combine answers = connective.combine others := by
  cases connective with
  | and => exact h.all_eq
  | or => exact h.any_eq

theorem settle_singleton (answer : Except Fault Bool) : connective.settle [answer] = answer := by
  cases answer with
  | error fault => rfl
  | ok met => cases connective <;> cases met <;> rfl

theorem settle_append (answers others : List (Except Fault Bool)) :
    connective.settle (answers ++ others) =
      connective.settle answers >>= fun met =>
        if met = connective.decisive then .ok met else connective.settle others := by
  induction answers with
  | nil => simp [settle]
  | cons answer rest ih =>
    rw [List.cons_append, settle, settle, ih]
    cases answer with
    | error fault => rfl
    | ok met =>
      by_cases hd : met = connective.decisive
      · simp [hd]
      · simp [hd]

-- A group may settle some of its children among themselves first.
theorem settle_flatMap {α : Type} (answers : α → List (Except Fault Bool)) (xs : List α) :
    connective.settle (xs.flatMap answers) =
      connective.settle (xs.map fun x => connective.settle (answers x)) := by
  induction xs with
  | nil => rfl
  | cons x rest ih => rw [List.flatMap_cons, settle_append, ih, List.map_cons, settle]

theorem faultsIn_settle {allowed : Fault → Prop} {answers : List (Except Fault Bool)}
    (h : ∀ answer ∈ answers, Outcome.FaultsIn allowed answer) :
    Outcome.FaultsIn allowed (connective.settle answers) := by
  induction answers with
  | nil => exact Outcome.faultsIn_ok _
  | cons answer rest ih =>
    refine Outcome.faultsIn_bind (h answer List.mem_cons_self) fun met _ => ?_
    split
    · exact Outcome.faultsIn_ok met
    · exact ih fun other ho => h other (List.mem_cons_of_mem answer ho)

section Known

variable {α : Type} {answer : α → Except Fault Bool} {truth : α → Bool} {xs : List α}

theorem settle_of_known (h : ∀ x ∈ xs, answer x = .ok (truth x)) :
    connective.settle (xs.map answer) = .ok (connective.combine (xs.map truth)) := by
  induction xs with
  | nil => rw [List.map_nil, List.map_nil, settle, combine_nil]
  | cons x rest ih =>
    have hr := ih fun other ho => h other (List.mem_cons_of_mem x ho)
    rw [List.map_cons, List.map_cons, settle, combine_cons, h x List.mem_cons_self, hr]
    exact (apply_ite Except.ok _ _ _).symm

-- An answer that is reached in spite of faults is the one that the connective means. Those
-- children that were not asked could not have changed it.
theorem combine_of_settle {met : Bool} (h : connective.settle (xs.map answer) = .ok met)
    (htruth : ∀ x ∈ xs, ∀ found, answer x = .ok found → truth x = found) :
    connective.combine (xs.map truth) = met := by
  induction xs with
  | nil =>
    rw [List.map_nil, combine_nil]
    exact Except.ok.inj h
  | cons x rest ih =>
    obtain ⟨found, hf, h⟩ := Outcome.bind_eq_ok_iff.mp h
    have hx : truth x = found := htruth x List.mem_cons_self found hf
    rw [List.map_cons, combine_cons, hx]
    split at h
    · next hd =>
      rw [if_pos hd]
      exact Except.ok.inj h
    · next hd =>
      rw [if_neg hd]
      exact ih h fun other ho => htruth other (List.mem_cons_of_mem x ho)

end Known

end RecordFilter.Connective
