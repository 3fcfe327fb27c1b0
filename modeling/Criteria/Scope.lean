import Criteria.Attribute
import Criteria.Rejection
import Criteria.Schema.Catalog

/-! # Scopes

A scope is where names are looked up: a root type, the relationships followed from it, and the
type they lead to. Looking a name up in a catalog yields an attribute reference or a scope one
relationship further.
-/

set_option autoImplicit false

namespace Criteria

/-- The relationships followed from a root type, and the type they lead to. -/
structure Scope where
  rootType : String
  navigation : List String
  currentType : String
  deriving DecidableEq

namespace Scope

/-- The scope of a type, with no relationship followed. -/
def root (typeName : String) : Scope := ⟨typeName, [], typeName⟩

/-- Whether no relationship has been followed. -/
def isRoot (s : Scope) : Bool := s.navigation.isEmpty

/-- The current type as a root of its own. -/
def rebase (s : Scope) : Scope := root s.currentType

/-- The chain of relationships, if there is one. -/
def relationshipPath? (s : Scope) : Option RelationshipPath :=
  if s.isRoot then none else some ⟨s.rootType, s.navigation, s.currentType⟩

/-- The scope one relationship further. -/
def enter (s : Scope) (relationship target : String) : Scope :=
  ⟨s.rootType, s.navigation ++ [relationship], target⟩

/-- The reference to an attribute of the current type. -/
def reference (s : Scope) (a : Attribute) : AttributeRef :=
  .simple ⟨s.rootType, s.navigation, a.name, a.valueType, a.nullable⟩

end Scope

/-- What a member name stands for. -/
inductive Resolved where
  | attr (a : AttributeRef)
  | relationship (target : Scope)
  deriving DecidableEq

namespace Catalog

/-- The type of the name, or the rejection of the name. -/
def requireType (c : Catalog) (typeName : String) : Except Rejection EntityType :=
  match c.entity? typeName with
  | some e => .ok e
  | none => .error (.unknownType typeName)

/-- The scope of a type that has to exist. -/
def root (c : Catalog) (typeName : String) : Except Rejection Scope :=
  (c.requireType typeName).map fun _ => Scope.root typeName

/-- Whether a name in front of a path is that of the current type, in full or without its
qualification. -/
def checkRoot (s : Scope) (name : String) : Except Rejection Unit :=
  let expected := simpleName s.currentType
  if name = expected ∨ name = s.currentType then .ok () else .error (.wrongRoot expected name)

/-- The scope behind a relationship of the current type. -/
def navigate (c : Catalog) (s : Scope) (name : String) : Except Rejection Scope := do
  let e ← c.requireType s.currentType
  match c.relationship? e.name name with
  | some r => .ok (s.enter name r.target)
  | none => .error (.unknownRelationship name (simpleName e.name) (c.relationshipNames e.name))

/-- The scope behind a chain of relationships. -/
def navigateAll (c : Catalog) (s : Scope) (names : List String) : Except Rejection Scope :=
  names.foldlM c.navigate s

/-- An attribute of the current type. -/
def attributeRef (c : Catalog) (s : Scope) (name : String) : Except Rejection AttributeRef := do
  let e ← c.requireType s.currentType
  match c.attribute? e.name name with
  | some a => .ok (s.reference a)
  | none => .error (.unknownAttribute name (simpleName e.name) (c.attributeNames e.name))

/-- An attribute or else a relationship of the current type. -/
def field (c : Catalog) (s : Scope) (name : String) : Except Rejection Resolved := do
  let e ← c.requireType s.currentType
  match c.attribute? e.name name with
  | some a => .ok (.attr (s.reference a))
  | none =>
    match c.relationship? e.name name with
    | some r => .ok (.relationship (s.enter name r.target))
    | none => .error (.unknownField name (simpleName e.name))

end Catalog

end Criteria
