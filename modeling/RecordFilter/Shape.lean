import RecordFilter.Path
import RecordFilter.Table
import RecordFilter.Value.Type

namespace RecordFilter

-- What a declared property holds. Nested records refer to a schema of their family.
inductive PropertyKind (κ : Type) (size : Nat) where
  | value (type : ValueType κ)
  | record (schema : Fin size)

structure Property (κ : Type) (size : Nat) where
  kind : PropertyKind κ size
  collection : Bool

-- The declared properties of one kind of record.
structure Schema (κ : Type) (size : Nat) where
  name : Text
  properties : Table (Property κ size)

-- Schemas that refer to each other, in circles if they like, and the one that filters
-- start from. A reference to a schema that does not exist cannot be written.
structure SchemaFamily (κ : Type) where
  size : Nat
  schema : Fin size → Schema κ size
  root : Fin size

-- The elements of a resolved property: values, or records of the named schema.
inductive Element (κ : Type) where
  | value (type : ValueType κ)
  | record (schemaName : Text)

-- The declared type of a resolved path. Only the last property of a path decides
-- whether it is a collection.
structure TypeInfo (κ : Type) where
  element : Element κ
  collection : Bool

namespace TypeInfo

variable {κ : Type}

def scalar (type : ValueType κ) : TypeInfo κ := ⟨.value type, false⟩

def valueType? (info : TypeInfo κ) : Option (ValueType κ) :=
  match info.element with
  | .value type => some type
  | .record _ => none

def same (a b : TypeInfo κ) : Bool :=
  a.collection == b.collection &&
    match a.element, b.element with
    | .value a, .value b => a.same b
    | .record a, .record b => a = b
    | _, _ => false

end TypeInfo

namespace SchemaFamily

variable {κ : Type}

def property? (family : SchemaFamily κ) (schema : Fin family.size) (name : Text) :
    Option (Property κ family.size) :=
  (family.schema schema).properties.find? name

def typeInfo (family : SchemaFamily κ) (property : Property κ family.size) : TypeInfo κ where
  element := match property.kind with
    | .value type => .value type
    | .record nested => .record (family.schema nested).name
  collection := property.collection

-- Walks the segments from a schema. Collections of records on the way are passed as if
-- they were single records. The path is only named in faults.
def walk (family : SchemaFamily κ) (path : Text) :
    Fin family.size → List Text → Except Fault (TypeInfo κ)
  | _, [] => .error (.invalidPath path)
  | schema, [last] =>
    match family.property? schema last with
    | some property => .ok (family.typeInfo property)
    | none => .error (.unknownProperty path last)
  | schema, segment :: rest =>
    match family.property? schema segment with
    | none => .error (.unknownProperty path segment)
    | some property =>
      match property.kind with
      | .record nested => family.walk path nested rest
      | .value _ => .error (.notNested path segment)

def resolve (family : SchemaFamily κ) (path : Path) : Except Fault (TypeInfo κ) :=
  family.walk path.dotted family.root path.segments

end SchemaFamily

-- Types of properties as a caller finds them. All that can be wrong with a path is that it cannot be
-- resolved.
structure Resolver (κ : Type) where
  resolve : Path → Except Fault (TypeInfo κ)
  category_eq : ∀ {path : Path} {fault : Fault},
    resolve path = .error fault → fault.category = .resolution

-- Where the types of properties are declared: in schemas, which know all properties,
-- as hints for some names of a bag, whose other names hold strings, or elsewhere.
inductive Shape (κ : Type) where
  | schemas (family : SchemaFamily κ)
  | hints (types : Table (ValueType κ))
  | custom (resolver : Resolver κ)

namespace Shape

variable {κ : Type}

-- For a bag the whole dotted path is one name.
def resolve (shape : Shape κ) (path : Path) : Except Fault (TypeInfo κ) :=
  match shape with
  | schemas family => family.resolve path
  | hints types => .ok (.scalar ((types.find? path.dotted).getD (.scalar .string)))
  | custom resolver => resolver.resolve path

end Shape

end RecordFilter
