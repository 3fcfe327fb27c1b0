import Criteria.Json.Record
import Criteria.Schema.Basic

/-! # Schema documents

The JSON form of a schema. A document is read without looking at what its names mean; turning
it into a schema checks the value types first and then how the types fit together.
-/

set_option autoImplicit false

namespace Criteria

/-- An attribute as a document declares it. -/
structure AttributeDocument where
  name : String
  valueType : String
  nullable : Bool
  deriving DecidableEq

/-- A relationship as a document declares it. -/
structure RelationshipDocument where
  name : String
  target : String
  cardinality : Cardinality
  deriving DecidableEq

/-- An entity type as a document declares it. -/
structure TypeDocument where
  name : String
  attributes : List AttributeDocument
  relationships : List RelationshipDocument
  deriving DecidableEq

/-- A document that declares the types of a schema. -/
structure SchemaDocument where
  types : List TypeDocument
  deriving DecidableEq

open Json

namespace AttributeDocument

/-- The attribute that a record declares; it is not nullable unless it says so. -/
def ofRaw? (raw : Raw) : Option AttributeDocument := do
  let fields ← raw.fields? ["name", "type", "nullable"] .ignored
  let name ← fields.required? "name" Raw.text?
  let valueType ← fields.required? "type" Raw.text?
  let nullable ← fields.optional? "nullable" false Raw.flag?
  pure ⟨name, valueType, nullable⟩

/-- The record that declares the attribute. -/
def toJson (a : AttributeDocument) : Json :=
  .object [("name", .string a.name), ("type", .string a.valueType),
    ("nullable", .boolean a.nullable)]

/-- The attribute, if its value type is known. -/
def toMember (typeName : String) (a : AttributeDocument) : Except SchemaError Member :=
  match ValueType.ofTag? a.valueType with
  | some valueType => .ok (.ofAttribute ⟨a.name, valueType, a.nullable⟩)
  | none => .error (.unknownValueType typeName a.name a.valueType)

end AttributeDocument

namespace RelationshipDocument

/-- The relationship that a record declares; it leads to one entity unless it says otherwise. -/
def ofRaw? (raw : Raw) : Option RelationshipDocument := do
  let fields ← raw.fields? ["name", "target", "cardinality"] .ignored
  let name ← fields.required? "name" Raw.text?
  let target ← fields.required? "target" Raw.text?
  let cardinality ← fields.optional? "cardinality" .one (Raw.choice? Cardinality.ofTag?)
  pure ⟨name, target, cardinality⟩

/-- The record that declares the relationship. -/
def toJson (r : RelationshipDocument) : Json :=
  .object [("name", .string r.name), ("target", .string r.target),
    ("cardinality", .string r.cardinality.tag)]

/-- The relationship as a member. -/
def toMember (r : RelationshipDocument) : Member :=
  .ofRelationship ⟨r.name, r.target, r.cardinality⟩

end RelationshipDocument

namespace TypeDocument

/-- The type that a record declares; members may be left out. -/
def ofRaw? (raw : Raw) : Option TypeDocument := do
  let fields ← raw.fields? ["name", "attributes", "relationships"] .ignored
  let name ← fields.required? "name" Raw.text?
  let attributes ← fields.optional? "attributes" [] (Raw.list? AttributeDocument.ofRaw?)
  let relationships ← fields.optional? "relationships" [] (Raw.list? RelationshipDocument.ofRaw?)
  pure ⟨name, attributes, relationships⟩

/-- The record that declares the type. -/
def toJson (t : TypeDocument) : Json :=
  .object [("name", .string t.name),
    ("attributes", .array (t.attributes.map AttributeDocument.toJson)),
    ("relationships", .array (t.relationships.map RelationshipDocument.toJson))]

/-- The entity type with its attributes declared before its relationships, if all value types
are known. -/
def toEntity (t : TypeDocument) : Except SchemaError EntityType := do
  let attributes ← t.attributes.mapM (AttributeDocument.toMember t.name)
  pure (.ofMembers t.name (attributes ++ t.relationships.map RelationshipDocument.toMember))

end TypeDocument

namespace SchemaDocument

/-- The document that a record declares. -/
def ofRaw? (raw : Raw) : Option SchemaDocument := do
  let fields ← raw.fields? ["types"] .ignored
  let types ← fields.required? "types" (Raw.list? TypeDocument.ofRaw?)
  pure ⟨types⟩

/-- The document that a text holds. -/
def read? (text : String) : Option SchemaDocument := do
  let raw ← Raw.read? text
  ofRaw? raw

/-- The record that declares the document. -/
def toJson (d : SchemaDocument) : Json :=
  .object [("types", .array (d.types.map TypeDocument.toJson))]

/-- The schema that the document declares. -/
def toSchema (d : SchemaDocument) : Except SchemaError Schema := do
  let types ← d.types.mapM TypeDocument.toEntity
  Schema.build types

end SchemaDocument

end Criteria
