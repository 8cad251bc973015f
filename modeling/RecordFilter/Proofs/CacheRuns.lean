import RecordFilter.Cache
import RecordFilter.Proofs.Outcome

namespace RecordFilter

variable {κ : Type}

-- What is asked of a cache.
inductive Call (κ : Type) where
  | get (text : Text)
  | check (text : Text) (record : Record κ)
  | clear

-- What a call is answered with. A cache gives out conditions with their numbers, and a
-- language just conditions.
inductive Reply (ρ : Type) where
  | condition (result : Except Fault ρ)
  | met (result : Except Fault Bool)
  | cleared

def Reply.map {ρ σ : Type} (f : ρ → σ) : Reply ρ → Reply σ
  | condition result => .condition (result.map f)
  | met result => .met result
  | cleared => .cleared

namespace Language

-- No condition is read for the call, as its text is empty or cannot be read.
def ReadsNothing (language : Language κ) : Call κ → Prop
  | .get text => ∃ fault, language.parse text = .error fault
  | .check text _ => text = [] ∨ ∃ fault, language.parse text = .error fault
  | .clear => False

-- The answer to a call where nothing is remembered.
def reply [CustomValue κ] (language : Language κ) : Call κ → Reply (Condition κ)
  | .get text => .condition (language.parse text)
  | .check text record =>
    .met (if text.isEmpty then .ok true
      else language.parse text >>= fun condition => condition.isMet record)
  | .clear => .cleared

end Language

namespace Cache

section Run

variable [CustomValue κ]

def perform (cache : Cache κ) : Call κ → Reply (Held κ) × Cache κ
  | .get text => (.condition (cache.get text).1, (cache.get text).2)
  | .check text record => (.met (cache.check text record).1, (cache.check text record).2)
  | .clear => (.cleared, cache.clear)

-- Makes calls one after the other.
def run (cache : Cache κ) : List (Call κ) → List (Reply (Held κ)) × Cache κ
  | [] => ([], cache)
  | call :: calls =>
    let (reply, next) := cache.perform call
    let (replies, last) := next.run calls
    (reply :: replies, last)

end Run

theorem hold_of_find? {cache : Cache κ} {text : Text} (hn : cache.entries.find? text = none)
    (condition : Condition κ) :
    cache.hold text condition =
      { cache with
        entries := (if cache.capacity ≤ cache.size then .empty else cache.entries).insert text
          ⟨condition, cache.parses⟩
        parses := cache.parses + 1 } := by
  simp only [hold, hn, and_true]

-- Every entry is what its text is read as, and there are no more entries than there may be.
structure Faithful (cache : Cache κ) (language : Language κ) (capacity : Nat) : Prop where
  language_eq : cache.language = language
  capacity_eq : cache.capacity = capacity
  parse_eq : ∀ text held, cache.entries.find? text = some held →
    language.parse text = .ok held.condition
  size_le : cache.size ≤ capacity

theorem faithful_withCapacity (language : Language κ) (capacity : Nat) :
    (withCapacity language capacity).Faithful language (max capacity 1) where
  language_eq := rfl
  capacity_eq := rfl
  parse_eq _ _ h := nomatch h
  size_le := Nat.zero_le _

namespace Faithful

variable {cache : Cache κ} {language : Language κ} {capacity : Nat}

theorem clear (h : cache.Faithful language capacity) :
    cache.clear.Faithful language capacity where
  language_eq := h.language_eq
  capacity_eq := h.capacity_eq
  parse_eq _ _ hf := nomatch hf
  size_le := Nat.zero_le _

theorem hold (h : cache.Faithful language capacity) {text : Text} {condition : Condition κ}
    (hn : cache.entries.find? text = none) (hp : language.parse text = .ok condition) :
    (cache.hold text condition).Faithful language capacity := by
  rw [hold_of_find? hn]
  refine ⟨h.language_eq, h.capacity_eq, fun other held hf => ?_, ?_⟩
  · rw [Table.find?_insert] at hf
    by_cases ho : other = text
    · rw [if_pos ho] at hf
      cases hf
      rw [ho, hp]
    · rw [if_neg ho] at hf
      split at hf
      · cases hf
      · exact h.parse_eq other held hf
  · have hpos := cache.capacity_pos
    have hcapacity := h.capacity_eq
    have hsize := Table.size_insert_le
      (if cache.capacity ≤ cache.size then .empty else cache.entries) text
      (⟨condition, cache.parses⟩ : Held κ)
    refine Nat.le_trans hsize ?_
    split
    · show 0 + 1 ≤ capacity
      omega
    · next hroom =>
      rw [Cache.size] at hroom
      omega

theorem get (h : cache.Faithful language capacity) (text : Text) :
    (cache.get text).1.map Held.condition = language.parse text ∧
      (cache.get text).2.Faithful language capacity := by
  rw [Cache.get, h.language_eq]
  cases hf : cache.entries.find? text with
  | some held => exact ⟨(h.parse_eq text held hf).symm, h⟩
  | none =>
    cases hp : language.parse text with
    | error fault => exact ⟨rfl, h⟩
    | ok condition => exact ⟨rfl, h.hold hf hp⟩

theorem get_of_error (h : cache.Faithful language capacity) {text : Text} {fault : Fault}
    (hp : language.parse text = .error fault) : (cache.get text).2 = cache := by
  rw [Cache.get, h.language_eq, hp]
  cases cache.entries.find? text <;> rfl

variable [CustomValue κ]

theorem check (h : cache.Faithful language capacity) (text : Text) (record : Record κ) :
    (cache.check text record).1 = (if text.isEmpty then .ok true
        else language.parse text >>= fun condition => condition.isMet record) ∧
      (cache.check text record).2.Faithful language capacity := by
  obtain ⟨hresult, hnext⟩ := h.get text
  rw [Cache.check]
  split
  · exact ⟨rfl, h⟩
  · refine ⟨?_, hnext⟩
    rw [← hresult]
    show ((cache.get text).1.bind fun held => held.condition.isMet record) = _
    cases (cache.get text).1 <;> rfl

theorem perform (h : cache.Faithful language capacity) (call : Call κ) :
    (cache.perform call).1.map Held.condition = language.reply call ∧
      (cache.perform call).2.Faithful language capacity := by
  cases call with
  | get text => exact ⟨congrArg Reply.condition (h.get text).1, (h.get text).2⟩
  | check text record =>
    exact ⟨congrArg Reply.met (h.check text record).1, (h.check text record).2⟩
  | clear => exact ⟨rfl, h.clear⟩

theorem perform_of_readsNothing (h : cache.Faithful language capacity) {call : Call κ}
    (hn : language.ReadsNothing call) : (cache.perform call).2 = cache := by
  cases call with
  | get text =>
    obtain ⟨fault, hp⟩ := hn
    exact h.get_of_error hp
  | check text record =>
    show (cache.check text record).2 = cache
    rw [Cache.check]
    split
    · rfl
    · next hne =>
      obtain ⟨fault, hp⟩ := hn.resolve_left (by simpa using hne)
      exact h.get_of_error hp
  | clear => cases hn

theorem run (h : cache.Faithful language capacity) (calls : List (Call κ)) :
    (cache.run calls).1.map (Reply.map Held.condition) = calls.map language.reply ∧
      (cache.run calls).2.Faithful language capacity := by
  induction calls generalizing cache with
  | nil => exact ⟨rfl, h⟩
  | cons call calls ih =>
    obtain ⟨hreply, hnext⟩ := h.perform call
    obtain ⟨hreplies, hlast⟩ := ih hnext
    refine ⟨?_, hlast⟩
    rw [Cache.run, List.map_cons, List.map_cons, ← hreply, ← hreplies]

end Faithful

-- A cache answers any calls as its language does that remembers nothing. Whatever has been
-- asked of it so far, it holds conditions of its language only, and not too many, and calls
-- that read nothing leave it as it is.
theorem run_withCapacity [CustomValue κ] (language : Language κ) (capacity : Nat)
    (calls : List (Call κ)) :
    let (replies, cache) := (withCapacity language capacity).run calls
    replies.map (Reply.map Held.condition) = calls.map language.reply ∧
      (∀ text held, cache.entries.find? text = some held →
        language.parse text = .ok held.condition) ∧
      cache.size ≤ max capacity 1 ∧
      ∀ call, language.ReadsNothing call → (cache.perform call).2 = cache := by
  obtain ⟨hreplies, hlast⟩ := (faithful_withCapacity language capacity).run calls
  exact ⟨hreplies, hlast.parse_eq, hlast.size_le, fun call hn => hlast.perform_of_readsNothing hn⟩

end Cache

end RecordFilter
