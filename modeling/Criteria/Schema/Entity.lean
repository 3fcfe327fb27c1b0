import Criteria.Schema.ValueType

/-! # Entity types

An entity type has typed attributes and relationships to other types, all of them members under
one name space. Members are declared one after the other; the first declaration of a name
stands, and a later one is only noted as a duplicate.
-/

set_option autoImplicit false

namespace Criteria

/-- How many entities a relationship leads to. -/
inductive Cardinality where
  | one
  | many
  deriving DecidableEq

namespace Cardinality

/-- The name of the cardinality in documents. -/
def tag : Cardinality → String
  | one => "one"
  | many => "many"

/-- The cardinality with the given name. -/
def ofTag? : String → Option Cardinality
  | "one" => some one
  | "many" => some many
  | _ => none

theorem ofTag?_tag (c : Cardinality) : ofTag? c.tag = some c := by cases c <;> rfl

end Cardinality

/-- A typed attribute. -/
structure Attribute where
  name : String
  valueType : ValueType
  nullable : Bool
  deriving DecidableEq

/-- A relationship to the entities of another type. -/
structure Relationship where
  name : String
  target : String
  cardinality : Cardinality
  deriving DecidableEq

/-- A member of an entity type, as it is declared. -/
inductive Member where
  | ofAttribute (a : Attribute)
  | ofRelationship (r : Relationship)
  deriving DecidableEq

/-- The name a member is declared under. -/
def Member.name : Member → String
  | ofAttribute a => a.name
  | ofRelationship r => r.name

/-- An entity type: the first declarations of its members, in order, and the names declared
again. -/
structure EntityType where
  name : String
  attributes : List Attribute
  relationships : List Relationship
  duplicates : List String
  deriving DecidableEq

/-- What follows the last dot of a type name. -/
def simpleName (typeName : String) : String :=
  String.ofList (typeName.toList.reverse.takeWhile (· != '.')).reverse

namespace EntityType

/-- A type without members. -/
def empty (name : String) : EntityType := ⟨name, [], [], []⟩

/-- The attribute of the name. -/
def attribute? (e : EntityType) (name : String) : Option Attribute :=
  e.attributes.find? (·.name = name)

/-- The relationship of the name. -/
def relationship? (e : EntityType) (name : String) : Option Relationship :=
  e.relationships.find? (·.name = name)

/-- Whether a member of the name has been declared. -/
def declares (e : EntityType) (name : String) : Bool :=
  (e.attribute? name).isSome || (e.relationship? name).isSome

/-- The type with one more member declared. -/
def declare (e : EntityType) (m : Member) : EntityType :=
  if e.declares m.name then { e with duplicates := e.duplicates ++ [m.name] }
  else match m with
    | .ofAttribute a => { e with attributes := e.attributes ++ [a] }
    | .ofRelationship r => { e with relationships := e.relationships ++ [r] }

/-- The type that declares the members in order. -/
def ofMembers (name : String) (members : List Member) : EntityType :=
  members.foldl declare (empty name)

/-- The name without the qualification in front of its last dot. -/
def simpleName (e : EntityType) : String := Criteria.simpleName e.name

@[simp] theorem name_declare (e : EntityType) (m : Member) : (e.declare m).name = e.name := by
  unfold declare
  split
  · rfl
  · split <;> rfl

end EntityType

end Criteria
