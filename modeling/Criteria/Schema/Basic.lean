import Criteria.Schema.Entity

/-! # Schemas

A schema is a list of entity types with distinct names. It is built only from types whose
members are declared once and whose relationships lead to types of the schema; the first
violation is reported, repeated type names before anything else.
-/

set_option autoImplicit false

namespace Criteria

/-- Why a schema cannot be loaded. -/
inductive SchemaError where
  | unknownValueType (typeName attr tag : String)
  | unknownTarget (typeName relationship target : String)
  | duplicateType (name : String)
  | duplicateMember (typeName name : String)
  deriving DecidableEq

/-- The wording of a schema error. -/
def SchemaError.message : SchemaError → String
  | unknownValueType typeName attr tag =>
    s!"Unknown value type '{tag}' for attribute '{attr}' on type '{typeName}'"
  | unknownTarget typeName relationship target =>
    s!"Relationship '{relationship}' on type '{typeName}' targets unknown type '{target}'"
  | duplicateType name => s!"Duplicate entity type '{name}'"
  | duplicateMember typeName name => s!"Duplicate member '{name}' on type '{typeName}'"

/-- The entity types in the order of their declaration. -/
structure Schema where
  types : List EntityType
  deriving DecidableEq

namespace Schema

/-- The type of the name. -/
def entity? (s : Schema) (name : String) : Option EntityType := s.types.find? (·.name = name)

/-- The first name that an earlier type bears already. -/
def repeatedName? : List String → List EntityType → Option String
  | _, [] => none
  | seen, e :: types => if e.name ∈ seen then some e.name else repeatedName? (e.name :: seen) types

/-- The first fault in the members of a type. -/
def memberError? (s : Schema) (e : EntityType) : Option SchemaError :=
  match e.duplicates with
  | name :: _ => some (.duplicateMember e.name name)
  | [] =>
    (e.relationships.find? fun r => (s.entity? r.target).isNone).map fun r =>
      .unknownTarget e.name r.name r.target

/-- The schema of the types, if they fit together. -/
def build (types : List EntityType) : Except SchemaError Schema :=
  let schema : Schema := ⟨types⟩
  match repeatedName? [] types with
  | some name => .error (.duplicateType name)
  | none =>
    match types.findSome? schema.memberError? with
    | some e => .error e
    | none => .ok schema

end Schema

end Criteria
