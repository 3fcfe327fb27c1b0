import Criteria.Schema.Basic

/-! # Catalogs

A catalog is a schema as a compiler sees it. Looking up a hidden member by its name finds
nothing, on every type, while the lists of member names still show all that is declared.
-/

set_option autoImplicit false

namespace Criteria

/-- A schema and the names of the members that are hidden. -/
structure Catalog where
  schema : Schema
  hidden : List String := []
  deriving DecidableEq

namespace Catalog

/-- The type of the name. -/
def entity? (c : Catalog) (typeName : String) : Option EntityType := c.schema.entity? typeName

/-- The attribute of the name, unless it is hidden. -/
def attribute? (c : Catalog) (typeName name : String) : Option Attribute :=
  if name ∈ c.hidden then none else (c.entity? typeName).bind (·.attribute? name)

/-- The relationship of the name, unless it is hidden. -/
def relationship? (c : Catalog) (typeName name : String) : Option Relationship :=
  if name ∈ c.hidden then none else (c.entity? typeName).bind (·.relationship? name)

/-- The names of the attributes of a type in the order of their declaration. -/
def attributeNames (c : Catalog) (typeName : String) : List String :=
  match c.entity? typeName with
  | some e => e.attributes.map (·.name)
  | none => []

/-- The names of the relationships of a type in the order of their declaration. -/
def relationshipNames (c : Catalog) (typeName : String) : List String :=
  match c.entity? typeName with
  | some e => e.relationships.map (·.name)
  | none => []

end Catalog

end Criteria
