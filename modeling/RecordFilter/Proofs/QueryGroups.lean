import Mathlib.Data.List.Basic
import Mathlib.Data.List.Induction
import Mathlib.Data.List.Nodup
import RecordFilter.PlainQuery

namespace RecordFilter.PlainQuery

-- What a name stands for: a bound of the property before the word for it, if any property
-- is there, or else a property by its whole name.
inductive Bounds : Text → Text × Comparator → Prop where
  | lower {property : Text} (hne : property ≠ []) :
    Bounds (property ++ "From".toList) (property, .greaterOrEquals)
  | upper {property : Text} (hne : property ≠ []) :
    Bounds (property ++ "Till".toList) (property, .lessOrEquals)
  | whole {name : Text} (hfrom : ∀ property ≠ [], name ≠ property ++ "From".toList)
    (htill : ∀ property ≠ [], name ≠ property ++ "Till".toList) : Bounds name (name, .equals)

theorem ne_append_of_dropTail? {tail name : Text}
    (h : ∀ c property, Text.dropTail? tail name ≠ some (c :: property)) :
    ∀ property ≠ [], name ≠ property ++ tail := by
  intro property hne he
  obtain ⟨c, rest, rfl⟩ := List.exists_cons_of_ne_nil hne
  exact h c rest (Text.dropTail?_eq_some_iff.mpr he)

theorem bounds_bound (name : Text) : Bounds name (bound name) := by
  rw [bound]
  split
  · next c property hfrom =>
    rw [Text.dropTail?_eq_some_iff.mp hfrom]
    exact .lower (List.cons_ne_nil c property)
  · next c property htill _ =>
    rw [Text.dropTail?_eq_some_iff.mp htill]
    exact .upper (List.cons_ne_nil c property)
  · next hfrom htill => exact .whole (ne_append_of_dropTail? hfrom) (ne_append_of_dropTail? htill)

-- The pairs that count.
def counted (pairs : List (Text × Text)) : List (Text × Text) :=
  pairs.filter fun (name, value) => !name.isEmpty && !value.isEmpty

-- The names of the pairs in the order in which they come first.
def names (pairs : List (Text × Text)) : List Text := (pairs.map Prod.fst).eraseDups

-- The values that a name comes with, in their order.
def valuesOf (name : Text) (pairs : List (Text × Text)) : List Text :=
  (pairs.filter fun pair => pair.1 = name).map Prod.snd

theorem mem_counted {pairs : List (Text × Text)} {pair : Text × Text} :
    pair ∈ counted pairs ↔ pair ∈ pairs ∧ pair.1 ≠ [] ∧ pair.2 ≠ [] := by
  simp [counted, List.mem_filter]

theorem counted_eq_nil_iff {pairs : List (Text × Text)} :
    counted pairs = [] ↔ ∀ pair ∈ pairs, pair.1 = [] ∨ pair.2 = [] := by
  simp [counted, List.filter_eq_nil_iff, or_iff_not_imp_left]

theorem counted_eq_self {pairs : List (Text × Text)}
    (h : ∀ pair ∈ pairs, pair.1 ≠ [] ∧ pair.2 ≠ []) : counted pairs = pairs := by
  refine List.filter_eq_self.mpr fun pair hp => ?_
  simpa using h pair hp

theorem mem_names {pairs : List (Text × Text)} {name : Text} :
    name ∈ names pairs ↔ ∃ value, (name, value) ∈ pairs := by
  simp [names]

theorem names_eq_nil_iff {pairs : List (Text × Text)} : names pairs = [] ↔ pairs = [] := by
  constructor
  · intro h
    refine List.eq_nil_iff_forall_not_mem.mpr fun (name, value) hp => ?_
    exact List.ne_nil_of_mem (mem_names.mpr ⟨value, hp⟩) h
  · rintro rfl
    rfl

theorem mem_valuesOf {pairs : List (Text × Text)} {name value : Text} :
    value ∈ valuesOf name pairs ↔ (name, value) ∈ pairs := by
  simp [valuesOf]

theorem valuesOf_ne_nil {pairs : List (Text × Text)} {name : Text} (h : name ∈ names pairs) :
    valuesOf name pairs ≠ [] := by
  obtain ⟨value, hv⟩ := mem_names.mp h
  exact List.ne_nil_of_mem (mem_valuesOf.mpr hv)

theorem valuesOf_eq_nil {pairs : List (Text × Text)} {name : Text} (h : name ∉ names pairs) :
    valuesOf name pairs = [] :=
  List.eq_nil_iff_forall_not_mem.mpr fun value hv => h (mem_names.mpr ⟨value, mem_valuesOf.mp hv⟩)

section Concat

variable (pairs : List (Text × Text)) (pair : Text × Text)

theorem names_concat : names (pairs ++ [pair]) =
    if pair.1 ∈ names pairs then names pairs else names pairs ++ [pair.1] := by
  have hsingle : [pair.1].removeAll (pairs.map Prod.fst) =
      if pair.1 ∈ names pairs then [] else [pair.1] := by
    by_cases hm : pair.1 ∈ names pairs <;> simp_all [names, List.removeAll]
  rw [names, List.map_append, List.eraseDups_append, List.map_singleton, hsingle]
  split
  · exact List.append_nil _
  · rfl

theorem valuesOf_concat (name : Text) : valuesOf name (pairs ++ [pair]) =
    valuesOf name pairs ++ if pair.1 = name then [pair.2] else [] := by
  rw [valuesOf, List.filter_append, List.map_append, valuesOf]
  by_cases hn : pair.1 = name <;> simp [hn]

end Concat

theorem nodup_names (pairs : List (Text × Text)) : (names pairs).Nodup := by
  induction pairs using List.reverseRecOn with
  | nil => exact List.nodup_nil
  | append_singleton pairs pair ih =>
    rw [names_concat]
    split
    · exact ih
    · next hn =>
      rw [← List.concat_eq_append]
      exact ih.concat hn

-- A term goes to the group of its name. A name that has no group yet gets one behind all others.
theorem addTerm_map {names : List Text} (hnodup : names.Nodup) (terms : Text → List Text)
    (name term : Text) (hnew : name ∉ names → terms name = []) :
    addTerm name term (names.map fun key => (key, terms key)) =
      (if name ∈ names then names else names ++ [name]).map fun key =>
        (key, terms key ++ if name = key then [term] else []) := by
  induction names with
  | nil => simp [addTerm, hnew]
  | cons key rest ih =>
    obtain ⟨hkey, hrest⟩ := List.nodup_cons.mp hnodup
    rw [List.map_cons, addTerm]
    by_cases hk : key = name
    · subst hk
      have hothers : rest.map (fun other => (other, terms other)) =
          rest.map fun other => (other, terms other ++ if key = other then [term] else []) := by
        refine List.map_congr_left fun other ho => ?_
        have hne : key ≠ other := fun he => hkey (he ▸ ho)
        rw [if_neg hne, List.append_nil]
      rw [if_pos rfl, if_pos List.mem_cons_self, List.map_cons, if_pos rfl, hothers]
    · have hmem : name ∈ key :: rest ↔ name ∈ rest := by simp [Ne.symm hk]
      rw [if_neg hk, ih hrest fun hn => hnew (mt hmem.mp hn)]
      simp only [hmem]
      split
      · simp [Ne.symm hk]
      · simp [Ne.symm hk]

-- Grouping comes to listing the names, each with the terms of its values.
theorem foldl_addTerm (pairs : List (Text × Text)) :
    pairs.foldl (fun groups (name, value) => addTerm name (term name value) groups) [] =
      (names pairs).map fun name => (name, (valuesOf name pairs).map (term name)) := by
  induction pairs using List.reverseRecOn with
  | nil => rfl
  | append_singleton pairs pair ih =>
    have hnew : pair.1 ∉ names pairs → (valuesOf pair.1 pairs).map (term pair.1) = [] := by
      intro hn
      rw [valuesOf_eq_nil hn, List.map_nil]
    have hvalues : ∀ name, (valuesOf name (pairs ++ [pair])).map (term name) =
        (valuesOf name pairs).map (term name) ++
          if pair.1 = name then [term pair.1 pair.2] else [] := by
      intro name
      rw [valuesOf_concat, List.map_append]
      split
      · next he => rw [he, List.map_singleton]
      · rfl
    rw [List.foldl_append, ih, names_concat]
    simp only [hvalues]
    exact addTerm_map (nodup_names pairs) _ pair.1 _ hnew

theorem groups_eq (pairs : List (Text × Text)) :
    groups pairs = (names (counted pairs)).map fun name =>
      (name, (valuesOf name (counted pairs)).map (term name)) := foldl_addTerm (counted pairs)

theorem toFilter?_eq (pairs : List (Text × Text)) :
    toFilter? pairs =
      if counted pairs = [] then none
      else some (bracket .and ((names (counted pairs)).map fun name =>
        bracket .or ((valuesOf name (counted pairs)).map (term name)))) := by
  have hgroups : groups pairs = [] ↔ counted pairs = [] := by
    rw [groups_eq, List.map_eq_nil_iff, names_eq_nil_iff]
  rw [toFilter?]
  split
  · next hnil => rw [if_pos (hgroups.mp hnil)]
  · next hne =>
    rw [if_neg (mt hgroups.mpr hne), groups_eq, List.map_map]
    rfl

theorem toFilter?_eq_none_iff {pairs : List (Text × Text)} :
    toFilter? pairs = none ↔ ∀ pair ∈ pairs, pair.1 = [] ∨ pair.2 = [] := by
  rw [toFilter?_eq, ← counted_eq_nil_iff]
  simp

-- Names that do not repeat themselves divide the values of all pairs among them.
theorem perm_flatMap_valuesOf {names : List Text} {pairs : List (Text × Text)}
    (hnodup : names.Nodup) (hall : ∀ pair ∈ pairs, pair.1 ∈ names) :
    (names.flatMap fun name => valuesOf name pairs).Perm (pairs.map Prod.snd) := by
  induction names generalizing pairs with
  | nil =>
    have hnil : pairs = [] := List.eq_nil_iff_forall_not_mem.mpr fun pair hp => nomatch hall pair hp
    rw [hnil]
    exact .refl _
  | cons name rest ih =>
    obtain ⟨hname, hrest⟩ := List.nodup_cons.mp hnodup
    let others := pairs.filter fun pair => !decide (pair.1 = name)
    have hothers : ∀ pair ∈ others, pair.1 ∈ rest := by
      intro pair hp
      obtain ⟨hp, hne⟩ := List.mem_filter.mp hp
      have hm := List.mem_cons.mp (hall pair hp)
      exact hm.resolve_left (by simpa using hne)
    have hvalues : ∀ key ∈ rest, valuesOf key pairs = valuesOf key others := by
      intro key hk
      have hne : key ≠ name := fun he => hname (he ▸ hk)
      rw [valuesOf, valuesOf, List.filter_filter]
      congr 2
      funext pair
      by_cases he : pair.1 = key
      · simp [he, hne]
      · simp [he]
    rw [List.flatMap_cons, List.flatMap_congr hvalues]
    refine ((ih hrest hothers).append_left _).trans ?_
    rw [valuesOf, ← List.map_append]
    exact (List.filter_append_perm _ pairs).map Prod.snd

end RecordFilter.PlainQuery
