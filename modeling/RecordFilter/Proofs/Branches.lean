import RecordFilter.Proofs.Outcome
import RecordFilter.Record

namespace RecordFilter

section Branches

variable {α β γ : Type}

theorem Outcome.toOption_bind (first : Except Fault α) (next : α → Except Fault β) :
    (first >>= next).toOption = first.toOption.bind fun a => (next a).toOption := by
  cases first <;> rfl

theorem Outcome.toOption_mapM (f : α → Except Fault β) (xs : List α) :
    (xs.mapM f).toOption = xs.mapM fun x => (f x).toOption := by
  induction xs with
  | nil => rfl
  | cons x xs ih =>
    rw [List.mapM_cons, List.mapM_cons, ← ih]
    cases f x with
    | error fault => rfl
    | ok y => cases xs.mapM f <;> rfl

-- What all elements give, one behind the other. If one of them gives nothing, neither do all.
def concat? (f : α → Option (List β)) (xs : List α) : Option (List β) :=
  (xs.mapM f).map List.flatten

theorem concat?_nil (f : α → Option (List β)) : concat? f [] = some [] := rfl

theorem concat?_cons (f : α → Option (List β)) (x : α) (xs : List α) :
    concat? f (x :: xs) = (f x).bind fun ys => (concat? f xs).map (ys ++ ·) := by
  rw [concat?, concat?, List.mapM_cons]
  cases f x with
  | none => rfl
  | some ys => cases xs.mapM f <;> rfl

theorem concat?_singleton (f : α → Option (List β)) (x : α) : concat? f [x] = f x := by
  rw [concat?_cons]
  cases f x with
  | none => rfl
  | some ys => exact congrArg some (List.append_nil ys)

theorem concat?_append (f : α → Option (List β)) (xs others : List α) :
    concat? f (xs ++ others) =
      (concat? f xs).bind fun ys => (concat? f others).map (ys ++ ·) := by
  induction xs with
  | nil => cases h : concat? f others <;> simp [concat?_nil, h]
  | cons x xs ih =>
    rw [List.cons_append, concat?_cons, concat?_cons, ih]
    cases f x with
    | none => rfl
    | some first => cases concat? f xs <;> cases concat? f others <;> simp

-- All elements take a step before any takes the next one. That leads where each of them comes to by
-- itself, and in the same order.
theorem concat?_bind (step : α → Option (List β)) (next : β → Option (List γ)) (xs : List α) :
    concat? (fun x => (step x).bind (concat? next)) xs =
      (xs.mapM step).bind fun yss => concat? next yss.flatten := by
  induction xs with
  | nil => rfl
  | cons x xs ih =>
    rw [concat?_cons, ih, List.mapM_cons]
    cases step x with
    | none => rfl
    | some ys =>
      cases xs.mapM step with
      | none => cases h : concat? next ys <;> simp [h]
      | some yss => simp [concat?_append]

end Branches

namespace Record

variable {κ : Type}

-- The fields at the end of a path, each record on the way taken by itself. An absent field ends its
-- branch. A name without an answer, and a value on the way, leave no result at all.
def terminals? : List Text → Record κ → Option (List (Field κ))
  | [], _ => some []
  | [last], record =>
    (record.field? last).map fun field => if field.isNull then [] else [field]
  | segment :: rest, record =>
    match record.field? segment with
    | some .null => some []
    | some (.record nested) => terminals? rest nested
    | some (.records nested) => concat? (terminals? rest) nested
    | some (.value _) | some (.values _) | none => none

theorem toOption_field (path : Text) (record : Record κ) (name : Text) :
    (record.field path name).toOption = record.field? name := by
  rw [field]
  cases record.field? name <;> rfl

theorem terminals?_cons (path segment : Text) {rest : List Text} (hne : rest ≠ [])
    (record : Record κ) :
    terminals? (segment :: rest) record =
      (record.descend path segment).toOption.bind (concat? (terminals? rest)) := by
  rw [terminals?, descend, Outcome.toOption_bind, toOption_field]
  · cases record.field? segment with
    | none => rfl
    | some field =>
      cases field with
      | record nested => exact (concat?_singleton _ nested).symm
      | _ => rfl
  · simpa using hne

theorem concat?_terminals?_last (last : Text) (frontier : List (Record κ)) :
    concat? (terminals? [last]) frontier =
      (frontier.mapM fun record : Record κ => record.field? last).map
        (List.filter fun field => !field.isNull) := by
  induction frontier with
  | nil => rfl
  | cons record frontier ih =>
    rw [concat?_cons, ih, terminals?, List.mapM_cons]
    cases record.field? last with
    | none => rfl
    | some field =>
      cases frontier.mapM fun record : Record κ => record.field? last with
      | none => rfl
      | some fields => cases hn : field.isNull <;> simp [hn]

-- The records that the walk has reached so far are the ends of all branches, in order.
theorem toOption_walk (path : Text) {segments : List Text} (hne : segments ≠ [])
    (frontier : List (Record κ)) :
    (walk path segments frontier).toOption = concat? (terminals? segments) frontier := by
  induction segments generalizing frontier with
  | nil => exact absurd rfl hne
  | cons segment rest ih =>
    cases rest with
    | nil =>
      rw [walk, Outcome.toOption_bind, Outcome.toOption_mapM, concat?_terminals?_last,
        Option.map_eq_bind]
      simp only [toOption_field]
      rfl
    | cons next rest =>
      have hrest : next :: rest ≠ [] := List.cons_ne_nil next rest
      rw [walk, Outcome.toOption_bind, Outcome.toOption_mapM,
        funext (terminals?_cons path segment hrest), concat?_bind]
      · simp only [ih hrest]
      · simp

theorem forall_of_walk {path : Text} {segments : List Text} {frontier : List (Record κ)}
    {fields : List (Field κ)} (h : walk path segments frontier = .ok fields) :
    ∀ field ∈ fields, field.isNull = false := by
  induction segments generalizing frontier with
  | nil =>
    cases h
    simp
  | cons segment rest ih =>
    cases rest with
    | nil =>
      obtain ⟨found, -, h⟩ := Outcome.bind_eq_ok_iff.mp h
      cases h
      intro field hm
      simpa using (List.mem_filter.mp hm).2
    | cons next rest =>
      rw [walk] at h
      · obtain ⟨below, -, h⟩ := Outcome.bind_eq_ok_iff.mp h
        exact ih h
      · simp

-- A path is blocked by a name without an answer, or by a value with more names behind it.
def IsBlocked (path : Text) (fault : Fault) : Prop :=
  fault = .unresolvable path ∨
    ∃ segment ∈ Text.split '.' path, fault = .mismatch path (.notNested segment)

theorem field_isBlocked (path : Text) (record : Record κ) (name : Text) :
    Outcome.FaultsIn (IsBlocked path) (record.field path name) := by
  rw [field]
  split
  · exact Outcome.faultsIn_ok _
  · exact Outcome.faultsIn_error (.inl rfl)

theorem descend_isBlocked {path segment : Text} (hs : segment ∈ Text.split '.' path)
    (record : Record κ) : Outcome.FaultsIn (IsBlocked path) (record.descend path segment) := by
  have hblocked : IsBlocked path (.mismatch path (.notNested segment)) := .inr ⟨segment, hs, rfl⟩
  refine Outcome.faultsIn_bind (field_isBlocked path record segment) fun field _ => ?_
  cases field with
  | null | record nested | records nested => exact Outcome.faultsIn_ok _
  | value value | values values => exact Outcome.faultsIn_error hblocked

theorem walk_isBlocked {path : Text} {segments : List Text}
    (hs : ∀ segment ∈ segments, segment ∈ Text.split '.' path) (frontier : List (Record κ)) :
    Outcome.FaultsIn (IsBlocked path) (walk path segments frontier) := by
  induction segments generalizing frontier with
  | nil => exact Outcome.faultsIn_ok []
  | cons segment rest ih =>
    obtain ⟨hsegment, hrest⟩ := List.forall_mem_cons.mp hs
    cases rest with
    | nil =>
      rw [walk]
      exact Outcome.faultsIn_bind (Outcome.faultsIn_mapM fun record _ =>
        field_isBlocked path record segment) fun fields _ => Outcome.faultsIn_ok _
    | cons next rest =>
      rw [walk]
      · exact Outcome.faultsIn_bind (Outcome.faultsIn_mapM fun record _ =>
          descend_isBlocked hsegment record) fun below _ => ih hrest below.flatten
      · simp

-- Going down level by level through all records at once gives what following each branch to its end
-- gives, in the same order, and fails if any branch does. No absent field is among the results.
theorem resolve_eq_terminals? {record : Record κ} (hflat : record.isFlat = false) (path : Text) :
    (record.resolve path).toOption = record.terminals? (Text.split '.' path) ∧
      (∀ fields, record.resolve path = .ok fields → ∀ field ∈ fields, field.isNull = false) ∧
      Outcome.FaultsIn (IsBlocked path) (record.resolve path) := by
  have hwalk : record.resolve path = walk path (Text.split '.' path) [record] := by
    rw [resolve, hflat]
    rfl
  rw [hwalk, toOption_walk path (Text.split_ne_nil '.' path), concat?_singleton]
  exact ⟨rfl, fun fields h => forall_of_walk h, walk_isBlocked (fun _ hs => hs) [record]⟩

-- A part of something, which may have a size.
def part (size : Field Empty) : Record Empty :=
  .mk false fun name => if name = "size".toList then some size else none

def assembly (parts : List (Record Empty)) : Record Empty :=
  .mk false fun name => if name = "parts".toList then some (.records parts) else none

-- Three assemblies, the second without parts and the third one a part without a size.
theorem resolve_eq_terminals?_parts :
    let two := assembly [part (.value (.unsigned 3)), part (.values [])]
    let record : Record Empty := assembly [two, assembly [], assembly [part .null]]
    record.isFlat = false ∧
      (record.resolve "parts.parts.size".toList).toOption =
        record.terminals? ["parts".toList, "parts".toList, "size".toList] ∧
      record.terminals? ["parts".toList, "parts".toList, "size".toList] =
        some [.value (.unsigned 3), .values []] ∧
      (∀ fault, two.resolve "parts.size.unit".toList = .error fault →
        IsBlocked "parts.size.unit".toList fault) ∧
      two.resolve "parts.size.unit".toList =
        .error (.mismatch "parts.size.unit".toList (.notNested "size".toList)) := by
  intro two record
  have hrecord : record.isFlat = false := rfl
  have htwo : two.isFlat = false := rfl
  obtain ⟨hterminals, -, -⟩ := resolve_eq_terminals? hrecord "parts.parts.size".toList
  obtain ⟨-, -, hblocked⟩ := resolve_eq_terminals? htwo "parts.size.unit".toList
  exact ⟨hrecord, hterminals, rfl, hblocked, rfl⟩

end Record

end RecordFilter
