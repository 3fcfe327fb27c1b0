import Criteria.Attribute
import Criteria.Predicate.Comparator

/-! # Operator tables

An operator is a comparison operator or a function. Each value type has a table of the operators
its attributes accept and of what each is applied to.
-/

set_option autoImplicit false

namespace Criteria

/-- An operator of structural criteria. -/
inductive Operator where
  | compare (c : Comparator)
  | function (f : FunctionName)
  deriving DecidableEq

/-- What an operator is applied to: nothing, one value, a list of values, or criteria on what
the function derives. -/
inductive Arity where
  | unary
  | one
  | many
  | derive
  deriving DecidableEq

/-- How many values an operator of the arity takes, if it takes any. -/
def Arity.cardinality? : Arity → Option Cardinality
  | unary => none
  | one => some .one
  | many => some .many
  | derive => none

namespace Operator

/-- The name of the operator. -/
def name : Operator → String
  | compare c => c.name
  | function f => f.text

/-- All operators under their own names. -/
def named : List (String × Operator) :=
  (Comparator.all.map fun c => (c.name, compare c)) ++
    FunctionName.all.map fun f => (f.text, function f)

/-- Further names of operators. -/
def aliases : List (String × Operator) :=
  [("wildCardEq", compare .wildCardEquals), ("wildCardNotEq", compare .wildCardNotEquals),
    ("lower", function .toLowerCase), ("subString", function .substring),
    ("abs", function .absoluteValue)]

/-- The operator of a name. -/
def ofName? (name : String) : Option Operator := (named ++ aliases).lookup name

end Operator

namespace Comparator

/-- The comparison operator of the given name. -/
def ofName? (name : String) : Option Comparator := all.find? (·.name = name)

end Comparator

/-- An entry of an operator table. -/
structure TableEntry where
  operator : Operator
  arity : Arity
  deriving DecidableEq

namespace TableEntry

/-- Entries of comparison operators of the same arity. -/
def compares (arity : Arity) (cs : List Comparator) : List TableEntry :=
  cs.map fun c => ⟨.compare c, arity⟩

/-- Entries of functions. -/
def derives (fs : List FunctionName) : List TableEntry := fs.map fun f => ⟨.function f, .derive⟩

/-- Equality with a value and with a list of values. -/
def equality : List TableEntry := compares .one [.eq, .notEq] ++ compares .many [.isIn, .notIn]

/-- The order of values. -/
def order : List TableEntry :=
  compares .one [.greaterThan, .greaterThanEquals, .lessThan, .lessThanEquals]

/-- Whether there is a value. -/
def presence : List TableEntry := compares .unary [.isNull, .isNotNull]

/-- Parts and patterns of strings. -/
def matching : List TableEntry :=
  compares .one [.startsWith, .notStartsWith, .endsWith, .notEndsWith, .contains, .notContains,
    .wildCardEquals, .wildCardNotEquals] ++ compares .many [.wildCardIn]

end TableEntry

open TableEntry

/-- The operators that attributes of the type accept, in their order. -/
def ValueType.operators : ValueType → List TableEntry
  | string => equality ++ order ++ matching ++ presence ++ derives [.toLowerCase, .substring]
  | boolean => equality ++ presence
  | integer => equality ++ order ++ presence ++ derives [.absoluteValue]
  | long => equality ++ order ++ presence ++ derives [.absoluteValue]
  | float => equality ++ order ++ presence ++ derives [.absoluteValue]
  | double => equality ++ order ++ presence ++ derives [.absoluteValue]
  | date => equality ++ order ++ presence ++ derives [.year, .month, .dayOfMonth]
  | timestamp => equality ++ order ++ presence ++ derives [.year, .month, .dayOfMonth]
  | asOf => compares .one [.eq, .notEq] ++ presence ++ compares .unary [.equalsEdgePoint]

/-- What the operator is applied to on attributes of the type, if they accept it. -/
def ValueType.arity? (t : ValueType) (o : Operator) : Option Arity :=
  (t.operators.find? (·.operator = o)).map (·.arity)

end Criteria
