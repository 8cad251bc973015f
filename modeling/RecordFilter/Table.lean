import RecordFilter.Text

namespace RecordFilter

-- Values under distinct names. The order of the entries is the order in which
-- the names came in first.
structure Table (α : Type) where
  entries : List (Text × α) := []
  nodup : (entries.map Prod.fst).Nodup := by exact List.nodup_nil

namespace Table

variable {α : Type}

def empty : Table α := {}

instance : Inhabited (Table α) := ⟨empty⟩

def size (table : Table α) : Nat := table.entries.length

def isEmpty (table : Table α) : Bool := table.entries.isEmpty

def names (table : Table α) : List Text := table.entries.map Prod.fst

def find? (table : Table α) (name : Text) : Option α := table.entries.lookup name

-- Replaces the value in place, or adds a new entry behind all others.
def put (name : Text) (value : α) : List (Text × α) → List (Text × α)
  | [] => [(name, value)]
  | entry :: rest => if entry.1 = name then (name, value) :: rest else entry :: put name value rest

theorem mem_names_put {name other : Text} {value : α} {entries : List (Text × α)} :
    other ∈ (put name value entries).map Prod.fst ↔
      other = name ∨ other ∈ entries.map Prod.fst := by
  induction entries with
  | nil => simp [put]
  | cons entry rest ih =>
    by_cases he : entry.1 = name
    · simp [put, he]
    · simp only [put, he, if_false, List.map_cons, List.mem_cons, ih]
      exact or_left_comm

theorem nodup_put {name : Text} {value : α} {entries : List (Text × α)}
    (hn : (entries.map Prod.fst).Nodup) : ((put name value entries).map Prod.fst).Nodup := by
  induction entries with
  | nil => simp [put]
  | cons entry rest ih =>
    rw [List.map_cons, List.nodup_cons] at hn
    by_cases he : entry.1 = name
    · simp only [put, he, if_true, List.map_cons, List.nodup_cons]
      exact he ▸ hn
    · simp only [put, he, if_false, List.map_cons, List.nodup_cons]
      refine ⟨fun hm => ?_, ih hn.2⟩
      rcases mem_names_put.mp hm with h | h
      · exact he h
      · exact hn.1 h

theorem length_put_le (name : Text) (value : α) (entries : List (Text × α)) :
    (put name value entries).length ≤ entries.length + 1 := by
  induction entries with
  | nil => simp [put]
  | cons entry rest ih =>
    by_cases he : entry.1 = name
    · simp [put, he]
    · simpa [put, he] using ih

def insert (table : Table α) (name : Text) (value : α) : Table α :=
  ⟨put name value table.entries, nodup_put table.nodup⟩

theorem size_insert_le (table : Table α) (name : Text) (value : α) :
    (table.insert name value).size ≤ table.size + 1 :=
  length_put_le name value table.entries

def erase (table : Table α) (name : Text) : Table α where
  entries := table.entries.filter (fun entry => entry.1 ≠ name)
  nodup := table.nodup.sublist (List.filter_sublist.map Prod.fst)

-- A later entry of a list replaces an earlier one of the same name.
def ofList (entries : List (Text × α)) : Table α :=
  entries.foldl (fun table entry => table.insert entry.1 entry.2) empty

theorem lookup_put (name other : Text) (value : α) (entries : List (Text × α)) :
    (put name value entries).lookup other =
      if other = name then some value else entries.lookup other := by
  induction entries with
  | nil =>
    by_cases ho : other = name
    · simp [put, ho]
    · have hb : (other == name) = false := by simpa using ho
      simp [put, List.lookup_cons, ho, hb]
  | cons entry rest ih =>
    obtain ⟨key, held⟩ := entry
    by_cases he : key = name
    · subst he
      by_cases ho : other = key
      · simp [put, ho]
      · have hb : (other == key) = false := by simpa using ho
        simp [put, List.lookup_cons, ho, hb]
    · simp only [put, he, if_false, List.lookup_cons, ih]
      by_cases ho : other = key
      · subst ho
        simp [he]
      · have hb : (other == key) = false := by simpa using ho
        simp [hb]

@[simp] theorem find?_insert (table : Table α) (name other : Text) (value : α) :
    (table.insert name value).find? other =
      if other = name then some value else table.find? other :=
  lookup_put name other value table.entries

@[simp] theorem find?_empty (name : Text) : (empty : Table α).find? name = none := rfl

theorem find?_eq_none_iff {table : Table α} {name : Text} :
    table.find? name = none ↔ name ∉ table.names := by
  simp only [find?, names]
  induction table.entries with
  | nil => simp
  | cons entry rest ih =>
    obtain ⟨key, held⟩ := entry
    by_cases hn : name = key
    · simp [hn]
    · have hb : (name == key) = false := by simpa using hn
      simp [List.lookup_cons, hb, hn, ih]

theorem mem_of_find? {table : Table α} {name : Text} {value : α}
    (h : table.find? name = some value) : (name, value) ∈ table.entries := by
  obtain ⟨before, behind, he, _⟩ := List.lookup_eq_some_iff.mp h
  simp [he]

end Table

end RecordFilter
