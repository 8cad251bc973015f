import Mathlib.Data.List.Dedup
import Mathlib.Data.List.Induction
import RecordFilter.Proofs.CacheRuns
import RecordFilter.Proofs.Typing

namespace RecordFilter

variable {κ : Type}

def Call.isClear : Call κ → Bool
  | clear => true
  | _ => false

-- The text that a call requests the condition of. Only a text that can be read is requested, whether
-- or not the evaluation that follows comes to an answer.
def Language.request? (language : Language κ) : Call κ → Option Text
  | .get text | .check text _ =>
    match language.parse text with
    | .ok _ => some text
    | .error _ => none
  | .clear => none

theorem Table.mem_names_iff {α : Type} {table : Table α} {name : Text} :
    name ∈ table.names ↔ ∃ value, table.find? name = some value := by
  rw [← Option.isSome_iff_exists, ← not_iff_not, Option.not_isSome_iff_eq_none, find?_eq_none_iff]

namespace Language

variable {language : Language κ} {call : Call κ} {text : Text}

theorem parse_nil : language.parse [] = .error .emptyExpression := rfl

theorem exists_parse_of_request? (h : language.request? call = some text) :
    ∃ condition, language.parse text = .ok condition := by
  cases call with
  | clear => cases h
  | get asked | check asked _ =>
    rw [request?] at h
    split at h
    · next condition hp =>
      cases h
      exact ⟨condition, hp⟩
    · cases h

end Language

namespace Cache

section Get

variable {cache : Cache κ} {text : Text} {condition : Condition κ} {held : Held κ}

theorem get_of_find? (hf : cache.entries.find? text = some held) :
    cache.get text = (.ok held, cache) := by
  rw [get, hf]

theorem get_of_parse (hf : cache.entries.find? text = none)
    (hp : cache.language.parse text = .ok condition) :
    cache.get text = (.ok ⟨condition, cache.parses⟩, cache.hold text condition) := by
  rw [get, hf, hp]

theorem exists_get_of_parse (hp : cache.language.parse text = .ok condition) :
    ∃ held, (cache.get text).1 = .ok held := by
  cases hf : cache.entries.find? text with
  | some held => exact ⟨held, congrArg Prod.fst (get_of_find? hf)⟩
  | none => exact ⟨_, congrArg Prod.fst (get_of_parse hf hp)⟩

theorem serial_of_get (hf : cache.entries.find? text = none) (hg : (cache.get text).1 = .ok held) :
    held.serial = cache.parses := by
  cases hp : cache.language.parse text with
  | error fault =>
    rw [get, hf, hp] at hg
    cases hg
  | ok condition =>
    rw [get_of_parse hf hp] at hg
    cases hg
    rfl

end Get

-- A call, and the cache at the time when it is made.
structure Moment (κ : Type) where
  cache : Cache κ
  call : Call κ

namespace Moment

def request? (moment : Moment κ) : Option Text := moment.cache.language.request? moment.call

-- The request, with the object that is handed out for it.
def handed? (moment : Moment κ) : Option (Text × Held κ) :=
  moment.request?.bind fun text =>
    (moment.cache.get text).1.toOption.map fun held => (text, held)

-- A text is requested that is not held, and there is no room for it.
def overflows (moment : Moment κ) : Bool :=
  moment.request?.any fun text =>
    (moment.cache.entries.find? text).isNone && moment.cache.size == moment.cache.capacity

def resets (moment : Moment κ) : Bool := moment.call.isClear || moment.overflows

variable (moment : Moment κ) {text : Text}

theorem overflows_iff : moment.overflows = true ↔ ∃ text, moment.request? = some text ∧
    moment.cache.entries.find? text = none ∧ moment.cache.size = moment.cache.capacity := by
  simp only [overflows, Option.any_eq_true, Bool.and_eq_true, Option.isNone_iff_eq_none, beq_iff_eq]

theorem resets_of_request?_eq_none (hc : moment.call.isClear = false)
    (hr : moment.request? = none) : moment.resets = false := by
  rw [resets, hc, overflows, hr]
  rfl

theorem resets_iff_of_request? (hc : moment.call.isClear = false)
    (hr : moment.request? = some text) : moment.resets = true ↔
      moment.cache.entries.find? text = none ∧ moment.cache.size = moment.cache.capacity := by
  rw [resets, hc, Bool.false_or, moment.overflows_iff, hr]
  simp only [Option.some.injEq, exists_eq_left']

theorem handed?_of_request?_eq_none (hr : moment.request? = none) : moment.handed? = none := by
  rw [handed?, hr]
  rfl

theorem handed?_of_request? {held : Held κ} (hr : moment.request? = some text)
    (hg : (moment.cache.get text).1 = .ok held) : moment.handed? = some (text, held) := by
  rw [handed?, hr, Option.bind_some, hg]
  rfl

end Moment

def requested (moments : List (Moment κ)) : List Text := moments.filterMap Moment.request?

def handed (moments : List (Moment κ)) : List (Text × Held κ) := moments.filterMap Moment.handed?

-- The moments from the latest reset on, or all of them where there is none.
def sinceReset (moments : List (Moment κ)) : List (Moment κ) :=
  moments.foldl (fun recent moment => (if moment.resets then [] else recent) ++ [moment]) []

-- The moments of a run.
def history [CustomValue κ] (cache : Cache κ) : List (Call κ) → List (Moment κ)
  | [] => []
  | call :: calls => ⟨cache, call⟩ :: (cache.perform call).2.history calls

section Moments

variable {moments recent : List (Moment κ)} {moment : Moment κ}

theorem sinceReset_concat (moments : List (Moment κ)) (moment : Moment κ) :
    sinceReset (moments ++ [moment]) =
      (if moment.resets then [] else sinceReset moments) ++ [moment] := by
  rw [sinceReset, List.foldl_append]
  rfl

-- Nothing before a reset counts any more.
theorem sinceReset_append_cons (moments : List (Moment κ)) (hreset : moment.resets = true)
    (hrecent : ∀ later ∈ recent, later.resets = false) :
    sinceReset (moments ++ moment :: recent) = moment :: recent := by
  induction recent using List.reverseRecOn with
  | nil => rw [sinceReset_concat, if_pos hreset, List.nil_append]
  | append_singleton recent later ih =>
    rw [List.forall_mem_append, List.forall_mem_singleton] at hrecent
    rw [← List.cons_append, ← List.append_assoc, sinceReset_concat, hrecent.2, ih hrecent.1]
    rfl

theorem request?_eq_map_handed? (moment : Moment κ) :
    moment.request? = moment.handed?.map Prod.fst := by
  cases hr : moment.request? with
  | none =>
    rw [moment.handed?_of_request?_eq_none hr]
    rfl
  | some text =>
    obtain ⟨condition, hp⟩ := Language.exists_parse_of_request? hr
    obtain ⟨held, hg⟩ := exists_get_of_parse hp
    rw [moment.handed?_of_request? hr hg]
    rfl

theorem sinceReset_suffix (moments : List (Moment κ)) : sinceReset moments <:+ moments := by
  induction moments using List.reverseRecOn with
  | nil => exact List.suffix_refl []
  | append_singleton moments moment ih =>
    rw [sinceReset_concat]
    split
    · exact List.suffix_append moments [moment]
    · obtain ⟨earlier, he⟩ := ih
      exact ⟨earlier, by rw [← List.append_assoc, he]⟩

theorem requested_eq_map_handed (moments : List (Moment κ)) :
    requested moments = (handed moments).map Prod.fst := by
  rw [requested, handed, List.map_filterMap]
  exact congrArg (fun f => moments.filterMap f) (funext request?_eq_map_handed?)

theorem mem_requested_iff {text : Text} :
    text ∈ requested moments ↔ ∃ held, (text, held) ∈ handed moments := by
  simp [requested_eq_map_handed]

theorem mem_handed_concat {entry : Text × Held κ} :
    entry ∈ handed (moments ++ [moment]) ↔ entry ∈ handed moments ∨ moment.handed? = some entry := by
  simp [handed, List.filterMap_append]

end Moments

-- What a call does to the cache.
inductive Effect (cache : Cache κ) : Call κ → Cache κ → Prop where
  | cleared : Effect cache .clear cache.clear
  | nothing {call : Call κ} (hc : call.isClear = false)
    (hr : cache.language.request? call = none) : Effect cache call cache
  | found {call : Call κ} {text : Text} {held : Held κ} (hc : call.isClear = false)
    (hr : cache.language.request? call = some text) (hf : cache.entries.find? text = some held) :
    Effect cache call cache
  | parsed {call : Call κ} {text : Text} {condition : Condition κ} (hc : call.isClear = false)
    (hr : cache.language.request? call = some text) (hf : cache.entries.find? text = none)
    (hp : cache.language.parse text = .ok condition) : Effect cache call (cache.hold text condition)

theorem get_effect (cache : Cache κ) {call : Call κ} {text : Text} (hc : call.isClear = false)
    (hr : cache.language.request? call = cache.language.request? (.get text)) :
    Effect cache call (cache.get text).2 := by
  rw [get]
  cases hp : cache.language.parse text with
  | error fault =>
    have hnone : cache.language.request? call = none := by rw [hr, Language.request?, hp]
    cases cache.entries.find? text <;> exact .nothing hc hnone
  | ok condition =>
    have hsome : cache.language.request? call = some text := by rw [hr, Language.request?, hp]
    cases hf : cache.entries.find? text with
    | some held => exact .found hc hsome hf
    | none => exact .parsed hc hsome hf hp

theorem perform_effect [CustomValue κ] (cache : Cache κ) (call : Call κ) :
    Effect cache call (cache.perform call).2 := by
  cases call with
  | clear => exact .cleared
  | get text => exact cache.get_effect rfl rfl
  | check text record =>
    show Effect cache (.check text record) (cache.check text record).2
    rw [check]
    split
    · next he =>
      -- the empty text is met without being read, and cannot be read
      obtain rfl : text = [] := List.isEmpty_iff.mp he
      have hnone : cache.language.request? (.check [] record) = none := by
        rw [Language.request?, Language.parse_nil]
      exact .nothing rfl hnone
    · exact cache.get_effect rfl rfl

-- The table is what has been handed out since the latest reset, and the number of the next object to be
-- made is above those of all objects so far.
structure Retains (moments : List (Moment κ)) (cache : Cache κ) : Prop where
  find?_eq_some_iff : ∀ text held,
    cache.entries.find? text = some held ↔ (text, held) ∈ handed (sinceReset moments)
  serial_lt : ∀ entry ∈ handed moments, entry.2.serial < cache.parses

theorem retains_withCapacity (language : Language κ) (capacity : Nat) :
    Retains [] (withCapacity language capacity) where
  find?_eq_some_iff _ held := iff_of_false (Option.some_ne_none held).symm List.not_mem_nil
  serial_lt _ h := absurd h List.not_mem_nil

theorem find?_hold {cache : Cache κ} {text : Text} (hn : cache.entries.find? text = none)
    (other : Text) (condition : Condition κ) :
    (cache.hold text condition).entries.find? other =
      if other = text then some ⟨condition, cache.parses⟩
      else if cache.capacity ≤ cache.size then none else cache.entries.find? other := by
  rw [hold_of_find? hn, Table.find?_insert]
  congr 1
  split <;> rfl

namespace Retains

variable {moments : List (Moment κ)} {moment : Moment κ} {cache next : Cache κ} {call : Call κ}

theorem mem_handed_of_find? (h : Retains moments cache) {text : Text} {held : Held κ}
    (hf : cache.entries.find? text = some held) : (text, held) ∈ handed moments :=
  ((sinceReset_suffix moments).filterMap _).subset ((h.find?_eq_some_iff text held).mp hf)

-- What is handed out from the table again changes nothing.
theorem keep (h : Retains moments cache) (hreset : moment.resets = false)
    (hh : ∀ text held, moment.handed? = some (text, held) →
      cache.entries.find? text = some held) : Retains (moments ++ [moment]) cache := by
  refine ⟨fun text held => ?_, fun entry he => ?_⟩
  · rw [sinceReset_concat, hreset, if_neg Bool.false_ne_true, mem_handed_concat,
      ← h.find?_eq_some_iff]
    exact (or_iff_left_of_imp (hh text held)).symm
  · rcases mem_handed_concat.mp he with he | he
    · exact h.serial_lt entry he
    · exact h.serial_lt entry (h.mem_handed_of_find? (hh entry.1 entry.2 he))

theorem clear (h : Retains moments cache) : Retains (moments ++ [⟨cache, .clear⟩]) cache.clear := by
  have hreset : (⟨cache, .clear⟩ : Moment κ).resets = true := rfl
  refine ⟨fun text held => ?_, fun entry he => ?_⟩
  · rw [sinceReset_concat, hreset, if_pos rfl]
    exact iff_of_false (Option.some_ne_none held).symm List.not_mem_nil
  · rcases mem_handed_concat.mp he with he | he
    · exact h.serial_lt entry he
    · cases he

-- A text that is not held comes in beside all others, or into an empty table.
theorem hold (h : Retains moments cache) (hsize : cache.size ≤ cache.capacity) {text : Text}
    {condition : Condition κ} (hc : call.isClear = false)
    (hr : cache.language.request? call = some text) (hf : cache.entries.find? text = none)
    (hp : cache.language.parse text = .ok condition) :
    Retains (moments ++ [⟨cache, call⟩]) (cache.hold text condition) := by
  let moment : Moment κ := ⟨cache, call⟩
  have hhanded : moment.handed? = some (text, ⟨condition, cache.parses⟩) :=
    moment.handed?_of_request? hr (congrArg Prod.fst (get_of_parse hf hp))
  have hreset : moment.resets = true ↔ cache.capacity ≤ cache.size := by
    rw [moment.resets_iff_of_request? hc hr, and_iff_right hf]
    show cache.size = cache.capacity ↔ cache.capacity ≤ cache.size
    omega
  have hkept : ∀ other held,
      (if cache.capacity ≤ cache.size then none else cache.entries.find? other) = some held ↔
        (other, held) ∈ handed (if moment.resets then [] else sinceReset moments) := by
    intro other held
    simp only [hreset]
    split
    · exact iff_of_false (Option.some_ne_none held).symm List.not_mem_nil
    · exact h.find?_eq_some_iff other held
  refine ⟨fun other held => ?_, fun entry he => ?_⟩
  · rw [sinceReset_concat, mem_handed_concat, hhanded, find?_hold hf, ← hkept]
    by_cases ho : other = text
    · subst ho
      simp [hf]
    · simp [ho, Ne.symm ho]
  · show entry.2.serial < cache.parses + 1
    rcases mem_handed_concat.mp he with he | he
    · exact Nat.lt_succ_of_lt (h.serial_lt entry he)
    · rw [hhanded] at he
      cases he
      exact Nat.lt_succ_self _

theorem step (h : Retains moments cache) (hsize : cache.size ≤ cache.capacity)
    (he : Effect cache call next) : Retains (moments ++ [⟨cache, call⟩]) next := by
  let moment : Moment κ := ⟨cache, call⟩
  cases he with
  | cleared => exact h.clear
  | nothing hc hr =>
    refine h.keep (moment.resets_of_request?_eq_none hc hr) fun text held hh => ?_
    rw [moment.handed?_of_request?_eq_none hr] at hh
    cases hh
  | found hc hr hf =>
    refine h.keep ?_ fun other held hh => ?_
    · rw [← Bool.not_eq_true, moment.resets_iff_of_request? hc hr, hf]
      simp only [reduceCtorEq, false_and, not_false_eq_true]
    · rw [moment.handed?_of_request? hr (congrArg Prod.fst (get_of_find? hf))] at hh
      cases hh
      exact hf
  | parsed hc hr hf hp => exact h.hold hsize hc hr hf hp

variable [CustomValue κ] {language : Language κ} {capacity : Nat}

theorem run (h : Retains moments cache) (hf : cache.Faithful language capacity)
    (calls : List (Call κ)) : Retains (moments ++ cache.history calls) (cache.run calls).2 := by
  induction calls generalizing moments cache with
  | nil =>
    rw [history, List.append_nil]
    exact h
  | cons call calls ih =>
    have hsize : cache.size ≤ cache.capacity := hf.capacity_eq ▸ hf.size_le
    have hnext := ih (h.step hsize (cache.perform_effect call)) (hf.perform call).2
    rw [List.append_assoc] at hnext
    exact hnext

end Retains

theorem history_append [CustomValue κ] (cache : Cache κ) (calls more : List (Call κ)) :
    cache.history (calls ++ more) = cache.history calls ++ (cache.run calls).2.history more := by
  induction calls generalizing cache with
  | nil => rfl
  | cons call calls ih => exact congrArg (⟨cache, call⟩ :: ·) (ih (cache.perform call).2)

-- The history of a run at two of its calls.
theorem history_split [CustomValue κ] (cache : Cache κ) (early middle late : List (Call κ))
    (call next : Call κ) :
    let first : Moment κ := ⟨(cache.run early).2, call⟩
    let second : Moment κ := ⟨(cache.run (early ++ call :: middle)).2, next⟩
    cache.history (early ++ call :: middle ++ next :: late) =
      cache.history early ++ first :: (first.cache.perform call).2.history middle ++
        second :: (second.cache.perform next).2.history late := by
  intro first second
  rw [history_append, history_append, history, history]

-- A moment of a run has the cache that the calls before it have led to.
theorem exists_run_of_history [CustomValue κ] {cache : Cache κ} {calls : List (Call κ)}
    {before after : List (Moment κ)} {moment : Moment κ}
    (h : cache.history calls = before ++ moment :: after) :
    ∃ earlier, cache.history earlier = before ∧ (cache.run earlier).2 = moment.cache := by
  induction before generalizing cache calls with
  | nil =>
    cases calls with
    | nil => cases h
    | cons call calls =>
      cases h
      exact ⟨[], rfl, rfl⟩
  | cons first before ih =>
    cases calls with
    | nil => cases h
    | cons call calls =>
      obtain ⟨rfl, hrest⟩ := List.cons.inj h
      obtain ⟨earlier, rfl, hcache⟩ := ih hrest
      exact ⟨call :: earlier, rfl, hcache⟩

namespace Retains

variable {moments : List (Moment κ)} {cache : Cache κ}

theorem names_perm (h : Retains moments cache) :
    cache.entries.names.Perm (requested (sinceReset moments)).dedup := by
  have hnodup : cache.entries.names.Nodup := cache.entries.nodup
  refine (List.perm_ext_iff_of_nodup hnodup (List.nodup_dedup _)).mpr fun text => ?_
  rw [List.mem_dedup, mem_requested_iff, Table.mem_names_iff]
  exact exists_congr (h.find?_eq_some_iff text)

-- An object is handed out again exactly if it is in the table. All others are new.
theorem handed_iff_of_get (h : Retains moments cache) {text : Text} {held : Held κ}
    (hg : (cache.get text).1 = .ok held) :
    (text ∈ requested (sinceReset moments) ↔
        ∃ earlier, (text, earlier) ∈ handed moments ∧ earlier.serial = held.serial) ∧
      ∀ earlier, (text, earlier) ∈ handed (sinceReset moments) → earlier = held := by
  rw [mem_requested_iff]
  simp only [← h.find?_eq_some_iff]
  cases hf : cache.entries.find? text with
  | some found =>
    rw [get_of_find? hf] at hg
    obtain rfl : found = held := Except.ok.inj hg
    refine ⟨iff_of_true ⟨found, rfl⟩ ⟨found, h.mem_handed_of_find? hf, rfl⟩, fun earlier he => ?_⟩
    exact (Option.some.inj he).symm
  | none =>
    have hnew : held.serial = cache.parses := serial_of_get hf hg
    refine ⟨iff_of_false ?_ ?_, fun earlier he => absurd he.symm (Option.some_ne_none earlier)⟩
    · rintro ⟨earlier, he⟩
      cases he
    · rintro ⟨earlier, hm, hserial⟩
      have hlt : earlier.serial < cache.parses := h.serial_lt _ hm
      omega

end Retains

-- What a cache holds can be told from its history: the texts that have been requested since the latest
-- reset, that of the request that caused it included. A text is answered with an object that has been
-- handed out for it before exactly if it has been requested since the latest reset, and then it is the
-- one object that all these requests were handed. From one overflow up to the next, with no clearing in
-- between, as many texts are requested as there is room for, that of the first overflow included.
theorem run_retains [CustomValue κ] (language : Language κ) {capacity : Nat} (hc : 0 < capacity)
    (calls : List (Call κ)) :
    let cache := ((withCapacity language capacity).run calls).2
    let moments := (withCapacity language capacity).history calls
    let recent := sinceReset moments
    cache.entries.names.Perm (requested recent).dedup ∧
      (∀ text held, (cache.perform (.get text)).1 = .condition (.ok held) →
        (text ∈ requested recent ↔
            ∃ earlier, (text, earlier) ∈ handed moments ∧ earlier.serial = held.serial) ∧
          ∀ earlier, (text, earlier) ∈ handed recent → earlier = held) ∧
      ∀ before first between next after, moments = before ++ first :: between ++ next :: after →
        first.overflows = true → next.overflows = true →
        (∀ moment ∈ between, moment.resets = false) →
        (requested (first :: between)).dedup.length = capacity := by
  have hfaithful := faithful_withCapacity language capacity
  have hstart := retains_withCapacity language capacity
  intro cache moments recent
  have hretains : Retains moments cache := hstart.run hfaithful calls
  refine ⟨hretains.names_perm, fun text held hg => hretains.handed_iff_of_get ?_, ?_⟩
  · exact Reply.condition.inj hg
  · intro before first between next after hmoments hfirst hnext hbetween
    obtain ⟨earlier, hearlier, hcache⟩ := exists_run_of_history hmoments
    have hfull : Retains (before ++ first :: between) next.cache := by
      rw [← hearlier, ← hcache]
      exact hstart.run hfaithful earlier
    have hreset : first.resets = true := by rw [Moment.resets, hfirst, Bool.or_true]
    have hperm := hfull.names_perm
    rw [sinceReset_append_cons before hreset hbetween] at hperm
    have hcapacity : next.cache.capacity = max capacity 1 :=
      hcache ▸ (hfaithful.run earlier).2.capacity_eq
    obtain ⟨-, -, -, hsize⟩ := next.overflows_iff.mp hnext
    calc (requested (first :: between)).dedup.length
        = next.cache.entries.names.length := hperm.length_eq.symm
      _ = next.cache.size := List.length_map _
      _ = next.cache.capacity := hsize
      _ = capacity := by omega

-- With room for two texts, the third one overflows the cache, and the first one does when it comes
-- again. What is held and what cannot be read do not.
theorem run_retains_overflowing :
    let start : Cache Empty := withCapacity (.forBags Regex.isSmall {}) 2
    let text (name : Char) : Text := name :: "==1".toList
    let early : List (Call Empty) := [.get (text 'a'), .check (text 'b') (Bag.toRecord .empty)]
    let middle : List (Call Empty) := [.get (text 'd'), .get "a==".toList, .get (text 'c')]
    let calls := early ++ .get (text 'c') :: middle ++ [.get (text 'a'), .get (text 'd')]
    let cache := (start.run calls).2
    let moments := start.history calls
    let first : Moment Empty := ⟨(start.run early).2, .get (text 'c')⟩
    let between := (first.cache.perform first.call).2.history middle
    cache.entries.names.Perm [text 'a', text 'd'] ∧
      (∃ held, (cache.perform (.get (text 'd'))).1 = .condition (.ok held) ∧
        ∃ earlier, (text 'd', earlier) ∈ handed moments ∧ earlier.serial = held.serial) ∧
      first.overflows = true ∧ (∀ moment ∈ between, moment.resets = false) ∧
      requested (first :: between) = [text 'c', text 'd', text 'c'] ∧
      (requested (first :: between)).dedup.length = 2 := by
  intro start text early middle calls cache moments first between
  let next : Moment Empty := ⟨(start.run (early ++ first.call :: middle)).2, .get (text 'a')⟩
  have hmoments := start.history_split early middle [.get (text 'd')] first.call next.call
  have hfirst : first.overflows = true := by decide +kernel
  have hnext : next.overflows = true := by decide +kernel
  have hbetween : ∀ moment ∈ between, moment.resets = false := by decide +kernel
  have hrequested : requested (first :: between) = [text 'c', text 'd', text 'c'] := by
    decide +kernel
  have hrecent : (requested (sinceReset moments)).dedup = [text 'a', text 'd'] := by decide +kernel
  have hmem : text 'd' ∈ requested (sinceReset moments) := by decide +kernel
  have hhistory : moments = (withCapacity (.forBags Regex.isSmall {}) 2).history calls := rfl
  have hcache : cache = ((withCapacity (.forBags Regex.isSmall {}) 2).run calls).2 := rfl
  obtain ⟨hnames, hget, hbound⟩ := run_retains (.forBags Regex.isSmall {}) (by decide : 0 < 2) calls
  rw [← hhistory, hrecent, ← hcache] at hnames
  refine ⟨hnames, ?_, hfirst, hbetween, hrequested, hbound _ _ _ _ _ hmoments hfirst hnext hbetween⟩
  cases hg : (cache.get (text 'd')).1 with
  | error fault =>
    have hok : (cache.get (text 'd')).1.isOk = true := by decide +kernel
    rw [hg] at hok
    cases hok
  | ok held =>
    have hp : (cache.perform (.get (text 'd'))).1 = .condition (.ok held) :=
      congrArg Reply.condition hg
    exact ⟨held, hp, (hget (text 'd') held hp).1.mp hmem⟩

end Cache

end RecordFilter
