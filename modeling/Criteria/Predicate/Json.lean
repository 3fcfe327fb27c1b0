import Criteria.Predicate.Basic

/-! # JSON form of predicates

Every node is written under its name, a node without parts as the name alone.
-/

set_option autoImplicit false

namespace Criteria

/-- The values of a comparison. -/
def Parameter.toJson : Parameter → Json
  | none => .string "none"
  | one value => .object [("one", value.toJson)]
  | many values => .object [("many", .array (values.map Value.toJson))]

/-- A comparison. -/
def Comparison.toJson (c : Comparison) : Json :=
  .object [("attribute", c.operand.toJson), ("operator", .string c.comparator.name),
    ("parameter", c.parameter.toJson)]

namespace Predicate

mutual

/-- The JSON form of a predicate. -/
def toJson : Predicate → Json
  | all => .string "all"
  | none => .string "none"
  | conjunction children => .object [("and", .array (listToJson children))]
  | disjunction children => .object [("or", .array (listToJson children))]
  | existence test relationship filter =>
    .object [(test.method,
      .object [("relationship", relationship.toJson), ("filter", filterToJson filter)])]
  | comparison c => .object [("comparison", c.toJson)]

/-- The JSON forms of a list of predicates. -/
def listToJson : List Predicate → List Json
  | [] => []
  | child :: children => child.toJson :: listToJson children

/-- The JSON form of a filter, `null` if there is none. -/
def filterToJson : Option Predicate → Json
  | .none => .null
  | some p => p.toJson

end

end Predicate

end Criteria
