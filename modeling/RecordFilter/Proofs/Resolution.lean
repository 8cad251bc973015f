import RecordFilter.Proofs.Conformance

namespace RecordFilter

theorem Text.join_append (separator : Char) {pieces others : List Text} (hp : pieces ≠ [])
    (ho : others ≠ []) :
    join separator (pieces ++ others) =
      join separator pieces ++ separator :: join separator others := by
  induction pieces with
  | nil => exact absurd rfl hp
  | cons piece pieces ih =>
    cases pieces with
    | nil =>
      cases others with
      | nil => exact absurd rfl ho
      | cons other others => rfl
    | cons next pieces =>
      have hrest := ih (List.cons_ne_nil next pieces)
      calc join separator (piece :: (next :: pieces ++ others))
        _ = piece ++ separator :: join separator (next :: pieces ++ others) := rfl
        _ = join separator (piece :: next :: pieces) ++ separator :: join separator others := by
          rw [hrest, ← List.cons_append, ← List.append_assoc]
          rfl

-- The names of two paths with a point between them are the names of the one and then the other.
theorem Path.segments_of_dotted_append {whole path rest : Path}
    (h : whole.dotted = path.dotted ++ '.' :: rest.dotted) :
    whole.segments = path.segments ++ rest.segments := by
  have hjoin : whole.dotted = Text.join '.' (path.segments ++ rest.segments) := by
    rw [h, Text.join_append '.' path.segments_ne_nil rest.segments_ne_nil]
    rfl
  have hne : path.segments ++ rest.segments ≠ [] := by simp [path.segments_ne_nil]
  rw [← split_dotted whole, hjoin]
  refine Text.split_join '.' _ hne fun segment hs => not_mem_of_isIdentifier ?_ rfl
  rcases List.mem_append.mp hs with hs | hs
  · exact path.isIdentifier segment hs
  · exact rest.isIdentifier segment hs

namespace SchemaFamily

variable {κ : Type}

variable (family : SchemaFamily κ)

-- Resolves a path from any of the schemas.
def resolveFrom (schema : Fin family.size) (path : Path) : Except Fault (TypeInfo κ) :=
  family.walk path.dotted schema path.segments

-- Names that lead from a schema to another one. Each is declared in the schema reached so far, and
-- holds a record or a collection of records.
inductive Leads : Fin family.size → List Text → Fin family.size → Prop where
  | nil {schema : Fin family.size} : Leads schema [] schema
  | cons {schema nested target : Fin family.size} {segment : Text} {rest : List Text}
    {property : Property κ family.size} (hp : family.property? schema segment = some property)
    (hk : property.kind = .record nested) (h : Leads nested rest target) :
    Leads schema (segment :: rest) target

-- A property at the end of a path, declared in the schema that the names before it lead to.
def Declares (schema : Fin family.size) (segments : List Text)
    (property : Property κ family.size) : Prop :=
  ∃ parents last owner, segments = parents ++ [last] ∧ family.Leads schema parents owner ∧
    family.property? owner last = some property

-- What is known of a property from its declaration alone.
structure Describes (property : Property κ family.size) (info : TypeInfo κ) : Prop where
  collection : info.collection = property.collection
  value : ∀ type, property.kind = .value type → info.element = .value type
  record : ∀ nested, property.kind = .record nested →
    info.element = .record (family.schema nested).name

-- The first name that a path cannot pass: one without a declaration, or a value with more names
-- behind it. All names before it lead on.
inductive Astray (path : Text) (schema : Fin family.size) : List Text → Fault → Prop where
  | undeclared {before after : List Text} {segment : Text} {reached : Fin family.size}
    (hl : family.Leads schema before reached) (hn : family.property? reached segment = none) :
    Astray path schema (before ++ segment :: after) (.unknownProperty path segment)
  | value {before after : List Text} {segment : Text} {reached : Fin family.size}
    {property : Property κ family.size} {type : ValueType κ}
    (hl : family.Leads schema before reached)
    (hp : family.property? reached segment = some property) (hk : property.kind = .value type)
    (hafter : after ≠ []) :
    Astray path schema (before ++ segment :: after) (.notNested path segment)

variable {family} {schema nested target : Fin family.size} {path : Text}
  {segments others : List Text} {property : Property κ family.size} {info : TypeInfo κ}
  {fault : Fault}

theorem describes_iff : family.Describes property info ↔ info = family.typeInfo property := by
  obtain ⟨kind, collection⟩ := property
  obtain ⟨element, many⟩ := info
  constructor
  · rintro ⟨rfl, hvalue, hrecord⟩
    cases kind with
    | value type => exact congrArg (TypeInfo.mk · _) (hvalue type rfl)
    | record nested => exact congrArg (TypeInfo.mk · _) (hrecord nested rfl)
  · intro h
    cases h
    refine ⟨rfl, ?_, ?_⟩
    · rintro type rfl
      rfl
    · rintro nested rfl
      rfl

theorem leads_append_iff :
    family.Leads schema (segments ++ others) target ↔
      ∃ middle, family.Leads schema segments middle ∧ family.Leads middle others target := by
  constructor
  · intro h
    induction segments generalizing schema with
    | nil => exact ⟨schema, .nil, h⟩
    | cons segment rest ih =>
      cases h with
      | cons hp hk h =>
        obtain ⟨middle, hfirst, hsecond⟩ := ih h
        exact ⟨middle, .cons hp hk hfirst, hsecond⟩
  · rintro ⟨middle, hfirst, hsecond⟩
    induction hfirst with
    | nil => exact hsecond
    | cons hp hk _ ih => exact .cons hp hk (ih hsecond)

theorem walk_cons (path segment : Text) {rest : List Text} (hne : rest ≠ []) :
    family.walk path schema (segment :: rest) =
      match family.property? schema segment with
      | none => .error (.unknownProperty path segment)
      | some property =>
        match property.kind with
        | .record nested => family.walk path nested rest
        | .value _ => .error (.notNested path segment) := by
  obtain ⟨next, rest, rfl⟩ := List.exists_cons_of_ne_nil hne
  rfl

-- The walk takes the names that lead on, and what is left decides.
theorem walk_append_of_leads (h : family.Leads schema segments target) (hne : others ≠ [])
    (path : Text) :
    family.walk path schema (segments ++ others) = family.walk path target others := by
  induction h with
  | nil => rfl
  | cons hp hk _ ih =>
    rw [List.cons_append, walk_cons path _ (by simp [hne]), hp]
    simp only [hk]
    exact ih

theorem walk_of_declares (h : family.Declares schema segments property) (path : Text) :
    family.walk path schema segments = .ok (family.typeInfo property) := by
  obtain ⟨parents, last, owner, rfl, hl, hp⟩ := h
  rw [walk_append_of_leads hl (List.cons_ne_nil last []), walk, hp]

theorem walk_of_astray (h : family.Astray path schema segments fault) :
    family.walk path schema segments = .error fault := by
  cases h with
  | @undeclared before after segment reached hl hn =>
    rw [walk_append_of_leads hl (List.cons_ne_nil segment after)]
    cases after with
    | nil => rw [walk, hn]
    | cons next after => rw [walk_cons path segment (List.cons_ne_nil next after), hn]
  | @value before after segment reached property type hl hp hk hafter =>
    rw [walk_append_of_leads hl (List.cons_ne_nil segment after), walk_cons path segment hafter, hp]
    simp only [hk]

theorem Declares.cons {segment : Text} {record : Property κ family.size}
    (hp : family.property? schema segment = some record) (hk : record.kind = .record nested)
    (h : family.Declares nested segments property) :
    family.Declares schema (segment :: segments) property := by
  obtain ⟨parents, last, owner, rfl, hl, hlast⟩ := h
  exact ⟨segment :: parents, last, owner, rfl, .cons hp hk hl, hlast⟩

theorem Astray.cons {segment : Text} {record : Property κ family.size}
    (hp : family.property? schema segment = some record) (hk : record.kind = .record nested)
    (h : family.Astray path nested segments fault) :
    family.Astray path schema (segment :: segments) fault := by
  cases h with
  | undeclared hl hn => exact .undeclared (.cons hp hk hl) hn
  | value hl hlast htype hafter => exact .value (.cons hp hk hl) hlast htype hafter

-- Every path either ends at a property or goes astray on the way. Its first name settles that, or
-- leads to a schema that the rest of the path starts from.
theorem declares_or_astray (family : SchemaFamily κ) (path : Text) (schema : Fin family.size)
    (hne : segments ≠ []) :
    (∃ property, family.Declares schema segments property) ∨
      ∃ fault, family.Astray path schema segments fault := by
  induction segments generalizing schema with
  | nil => exact absurd rfl hne
  | cons segment rest ih =>
    cases hp : family.property? schema segment with
    | none =>
      have ha : family.Astray path schema ([] ++ segment :: rest) _ := .undeclared .nil hp
      exact .inr ⟨_, ha⟩
    | some property =>
      by_cases hrest : rest = []
      · subst hrest
        exact .inl ⟨property, [], segment, schema, rfl, .nil, hp⟩
      · cases hk : property.kind with
        | value type =>
          have ha : family.Astray path schema ([] ++ segment :: rest) _ := .value .nil hp hk hrest
          exact .inr ⟨_, ha⟩
        | record nested =>
          rcases ih nested hrest with ⟨found, h⟩ | ⟨fault, h⟩
          · exact .inl ⟨found, h.cons hp hk⟩
          · exact .inr ⟨fault, h.cons hp hk⟩

theorem walk_eq_ok_iff (hne : segments ≠ []) :
    family.walk path schema segments = .ok info ↔
      ∃ property, family.Declares schema segments property ∧ info = family.typeInfo property := by
  constructor
  · intro h
    rcases family.declares_or_astray path schema hne with ⟨property, hd⟩ | ⟨fault, ha⟩
    · rw [walk_of_declares hd] at h
      exact ⟨property, hd, (Except.ok.inj h).symm⟩
    · cases h.symm.trans (walk_of_astray ha)
  · rintro ⟨property, hd, rfl⟩
    exact walk_of_declares hd path

theorem walk_eq_error_iff (hne : segments ≠ []) :
    family.walk path schema segments = .error fault ↔ family.Astray path schema segments fault := by
  constructor
  · intro h
    rcases family.declares_or_astray path schema hne with ⟨property, hd⟩ | ⟨other, ha⟩
    · cases h.symm.trans (walk_of_declares hd path)
    · rw [walk_of_astray ha] at h
      exact Except.error.inj h ▸ ha
  · exact walk_of_astray

-- A path leads to a schema if it is the path of a property with records of this schema.
theorem leads_iff (hne : segments ≠ []) :
    family.Leads schema segments nested ↔
      ∃ property, family.Declares schema segments property ∧ property.kind = .record nested := by
  constructor
  · intro h
    obtain ⟨parents, last, rfl⟩ := (List.eq_nil_or_concat' segments).resolve_left hne
    obtain ⟨owner, hl, hlast⟩ := leads_append_iff.mp h
    cases hlast with
    | cons hp hk h =>
      cases h
      exact ⟨_, ⟨parents, last, owner, rfl, hl, hp⟩, hk⟩
  · rintro ⟨property, ⟨parents, last, owner, rfl, hl, hp⟩, hk⟩
    exact leads_append_iff.mpr ⟨owner, hl, .cons hp hk .nil⟩

theorem declares_append_iff (hne : others ≠ []) :
    family.Declares schema (segments ++ others) property ↔
      ∃ middle, family.Leads schema segments middle ∧ family.Declares middle others property := by
  constructor
  · rintro ⟨parents, last, owner, hs, hl, hp⟩
    obtain ⟨front, ending, rfl⟩ := (List.eq_nil_or_concat' others).resolve_left hne
    rw [← List.append_assoc] at hs
    obtain ⟨rfl, hlast⟩ := List.append_inj' hs rfl
    cases hlast
    obtain ⟨middle, hfirst, hsecond⟩ := leads_append_iff.mp hl
    exact ⟨middle, hfirst, front, last, owner, rfl, hsecond, hp⟩
  · rintro ⟨middle, hfirst, front, last, owner, rfl, hsecond, hp⟩
    exact ⟨segments ++ front, last, owner, (List.append_assoc ..).symm,
      leads_append_iff.mpr ⟨middle, hfirst, hsecond⟩, hp⟩

theorem walk_append_eq_ok_iff (hs : segments ≠ []) (ho : others ≠ []) (path rest : Text) :
    family.walk path schema (segments ++ others) = .ok info ↔
      ∃ property nested, family.Declares schema segments property ∧
        property.kind = .record nested ∧ family.walk rest nested others = .ok info := by
  rw [walk_eq_ok_iff (by simp [hs])]
  simp only [declares_append_iff ho, leads_iff hs, walk_eq_ok_iff ho]
  constructor
  · rintro ⟨found, ⟨nested, ⟨property, hd, hk⟩, hfound⟩, rfl⟩
    exact ⟨property, nested, hd, hk, found, hfound, rfl⟩
  · rintro ⟨property, nested, hd, hk, found, hfound, rfl⟩
    exact ⟨found, ⟨nested, ⟨property, hd, hk⟩, hfound⟩, rfl⟩

-- A path is resolved exactly if it is declared throughout, to what the declaration of its last name
-- says. Collections that it crosses leave no trace. Otherwise the fault quotes the path and blames
-- the first name that cannot be passed. Two paths in a row are resolved like the second one by
-- itself, from the schema of the records that the first one resolves to, and not at all if the first
-- one does not resolve to records.
theorem resolve_declared (family : SchemaFamily κ) :
    (∀ path info, family.resolve path = .ok info ↔
      ∃ property, family.Declares family.root path.segments property ∧
        family.Describes property info) ∧
    (∀ path fault, family.resolve path = .error fault ↔
      family.Astray path.dotted family.root path.segments fault) ∧
    ∀ whole path rest : Path, whole.dotted = path.dotted ++ '.' :: rest.dotted →
      ∀ info, family.resolve whole = .ok info ↔
        ∃ property nested, family.Declares family.root path.segments property ∧
          property.kind = .record nested ∧
          family.resolve path = .ok ⟨.record (family.schema nested).name, property.collection⟩ ∧
          family.resolveFrom nested rest = .ok info := by
  refine ⟨fun path info => ?_, fun path fault => walk_eq_error_iff path.segments_ne_nil,
    fun whole path rest hw info => ?_⟩
  · simp only [describes_iff]
    exact walk_eq_ok_iff path.segments_ne_nil
  · rw [resolve, Path.segments_of_dotted_append hw,
      walk_append_eq_ok_iff path.segments_ne_nil rest.segments_ne_nil whole.dotted rest.dotted]
    constructor
    · rintro ⟨property, nested, hd, hk, hrest⟩
      have hinfo : family.typeInfo property =
          ⟨.record (family.schema nested).name, property.collection⟩ := by rw [typeInfo, hk]
      exact ⟨property, nested, hd, hk, hinfo ▸ walk_of_declares hd path.dotted, hrest⟩
    · rintro ⟨property, nested, hd, hk, -, hrest⟩
      exact ⟨property, nested, hd, hk, hrest⟩

-- The children of children are people again, in spite of the collections on the way. Of the two
-- names that cannot be passed, the first one is blamed.
theorem resolve_declared_kinship :
    let kinship := Language.kinship
    let path : Path := ⟨["children".toList, "children".toList], false, by decide, by decide⟩
    let rest : Path := ⟨["alive".toList], false, by decide, by decide⟩
    let whole : Path :=
      ⟨["children".toList, "children".toList, "alive".toList], false, by decide, by decide⟩
    let lost : Path :=
      ⟨["children".toList, "alive".toList, "since".toList, "year".toList], false, by decide,
        by decide⟩
    whole.dotted = path.dotted ++ '.' :: rest.dotted ∧
      kinship.resolve whole = .ok (.scalar (.scalar .bool)) ∧
      (∃ property nested, kinship.Declares kinship.root path.segments property ∧
        property.kind = .record nested ∧
        kinship.resolve path = .ok ⟨.record (kinship.schema nested).name, property.collection⟩ ∧
        kinship.resolveFrom nested rest = .ok (.scalar (.scalar .bool))) ∧
      kinship.Astray lost.dotted kinship.root lost.segments
        (.notNested "children.alive.since.year".toList "alive".toList) := by
  intro kinship path rest whole lost
  have hwhole : whole.dotted = path.dotted ++ '.' :: rest.dotted := rfl
  have hinfo : kinship.resolve whole = .ok (.scalar (.scalar .bool)) := rfl
  have hlost : kinship.resolve lost =
    .error (.notNested "children.alive.since.year".toList "alive".toList) := rfl
  obtain ⟨-, hastray, hcomposes⟩ := resolve_declared kinship
  exact ⟨hwhole, hinfo, (hcomposes whole path rest hwhole _).mp hinfo, (hastray lost _).mp hlost⟩

end SchemaFamily

end RecordFilter
