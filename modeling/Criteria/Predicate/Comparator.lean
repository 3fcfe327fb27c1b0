import Criteria.Schema.Entity

/-! # Comparison operators

The operators that a comparison may apply, with the name each has in structural criteria and the
symbol it has in text.
-/

set_option autoImplicit false

namespace Criteria

/-- A comparison operator. -/
inductive Comparator where
  | eq
  | notEq
  | isIn
  | notIn
  | greaterThan
  | greaterThanEquals
  | lessThan
  | lessThanEquals
  | startsWith
  | notStartsWith
  | endsWith
  | notEndsWith
  | contains
  | notContains
  | wildCardEquals
  | wildCardNotEquals
  | wildCardIn
  | isNull
  | isNotNull
  | equalsEdgePoint
  deriving DecidableEq

namespace Comparator

/-- All operators in their order. -/
def all : List Comparator :=
  [eq, notEq, isIn, notIn, greaterThan, greaterThanEquals, lessThan, lessThanEquals, startsWith,
    notStartsWith, endsWith, notEndsWith, contains, notContains, wildCardEquals,
    wildCardNotEquals, wildCardIn, isNull, isNotNull, equalsEdgePoint]

/-- The name in structural criteria and in messages. -/
def name : Comparator → String
  | eq => "eq"
  | notEq => "notEq"
  | isIn => "in"
  | notIn => "notIn"
  | greaterThan => "greaterThan"
  | greaterThanEquals => "greaterThanEquals"
  | lessThan => "lessThan"
  | lessThanEquals => "lessThanEquals"
  | startsWith => "startsWith"
  | notStartsWith => "notStartsWith"
  | endsWith => "endsWith"
  | notEndsWith => "notEndsWith"
  | contains => "contains"
  | notContains => "notContains"
  | wildCardEquals => "wildCardEquals"
  | wildCardNotEquals => "wildCardNotEquals"
  | wildCardIn => "wildCardIn"
  | isNull => "isNull"
  | isNotNull => "isNotNull"
  | equalsEdgePoint => "equalsEdgePoint"

/-- The spelling in the textual language. -/
def symbol : Comparator → String
  | eq => "=="
  | notEq => "!="
  | isIn => "in"
  | notIn => "not in"
  | greaterThan => ">"
  | greaterThanEquals => ">="
  | lessThan => "<"
  | lessThanEquals => "<="
  | startsWith => "startsWith"
  | notStartsWith => "not startsWith"
  | endsWith => "endsWith"
  | notEndsWith => "not endsWith"
  | contains => "contains"
  | notContains => "not contains"
  | wildCardEquals => "wildCardEquals"
  | wildCardNotEquals => "not wildCardEquals"
  | wildCardIn => "wildCardIn"
  | isNull => "is null"
  | isNotNull => "is not null"
  | equalsEdgePoint => "equalsEdgePoint"

/-- How many values the operator compares with. -/
def cardinality? : Comparator → Option Cardinality
  | isIn => some .many
  | notIn => some .many
  | wildCardIn => some .many
  | isNull => none
  | isNotNull => none
  | equalsEdgePoint => none
  | _ => some .one

end Comparator

end Criteria
