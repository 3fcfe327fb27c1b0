import Criteria.Report.CompileError
import Criteria.Scope
import Criteria.Structural.Convert

/-! # Orderings

Nested objects whose innermost ones are empty name attributes to sort by, in the order in which
they stand. All keys of an ordering have one direction.
-/

set_option autoImplicit false

namespace Criteria

/-- The direction of a sort key. -/
inductive Direction where
  | ascending
  | descending
  deriving DecidableEq

namespace Direction

/-- The name of the direction. -/
def name : Direction → String
  | ascending => "ASCENDING"
  | descending => "DESCENDING"

/-- The direction of the given name. -/
def ofName? : String → Option Direction
  | "ASCENDING" => some ascending
  | "DESCENDING" => some descending
  | _ => none

theorem ofName?_name (d : Direction) : ofName? d.name = some d := by cases d <;> rfl

end Direction

/-- An attribute to sort by. -/
structure SortKey where
  path : AttributePath
  direction : Direction
  deriving DecidableEq

/-- The text of a sort key. -/
def SortKey.text (k : SortKey) : String := s!"{k.path.text} {k.direction.name}"

/-- The JSON form of a sort key. -/
def SortKey.toJson (k : SortKey) : Json :=
  .object [("attribute", k.path.toJson), ("direction", .string k.direction.name)]

/-- The attributes to sort by, the first deciding before the others. -/
structure OrderBy where
  keys : List SortKey
  deriving DecidableEq

namespace OrderBy

/-- The text of an ordering. -/
def text (o : OrderBy) : String := ", ".intercalate (o.keys.map SortKey.text)

/-- The JSON form of an ordering. -/
def toJson (o : OrderBy) : Json := .object [("keys", .array (o.keys.map SortKey.toJson))]

end OrderBy

namespace Structural

section

variable (c : Catalog) (direction : String)

mutual

/-- The sort keys of the members of an object. -/
def sortKeysOfMembers (scope : Scope) (context : ContextPath) :
    List (String × Json) → Except CompileError (List SortKey)
  | [] => .ok []
  | (name, value) :: members => do
    let first ← sortKeysOfField scope (context.push name) name value
    let others ← sortKeysOfMembers scope context members
    .ok (first ++ others)
termination_by structural members => members

/-- The sort keys of a member of the current type. -/
def sortKeysOfField (scope : Scope) (context : ContextPath) (name : String) (value : Json) :
    Except CompileError (List SortKey) :=
  match value with
  | .object members => do
    match ← within context (c.field scope name) with
    | .attr a =>
      if members.isEmpty then
        match Direction.ofName? direction with
        | some d => .ok [⟨a.path, d⟩]
        | none => .error ((Rejection.unknownDirection direction).within context)
      else .error ((Rejection.orderNeedsEmptyObject name (.object members)).within context)
    | .relationship target => sortKeysOfMembers target context members
  | found => .error ((Rejection.orderNeedsObject name found).within context)
termination_by structural value

end

/-- The ordering that criteria write over the entities of a type; it has no keys when the
criteria name no attribute. -/
def orderBy (rootType : String) (criteria : List (String × Json)) :
    Except CompileError OrderBy := do
  let context : ContextPath := {}
  let scope ← within context (c.root rootType)
  let keys ← sortKeysOfMembers c direction scope context criteria
  .ok ⟨keys⟩

end

end Structural

end Criteria
