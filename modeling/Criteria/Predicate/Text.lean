import Criteria.Predicate.Basic

/-! # Text of predicates

Predicates written in the textual language. Conjunction binds tighter than disjunction, so a
disjunction inside a conjunction stands in parentheses and nothing else does.
-/

set_option autoImplicit false

namespace Criteria

/-- The values of a comparison; a list stands in parentheses. -/
def Parameter.text : Parameter → String
  | none => ""
  | one value => value.text
  | many values => "(" ++ ", ".intercalate (values.map Value.text) ++ ")"

/-- The text of a comparison. -/
def Comparison.text (c : Comparison) : String :=
  match c.parameter with
  | .none => s!"{c.operand.text} {c.comparator.symbol}"
  | parameter => s!"{c.operand.text} {c.comparator.symbol} {parameter.text}"

namespace Predicate

mutual

/-- The text of a predicate. -/
def text : Predicate → String
  | all => "all"
  | none => "none"
  | conjunction children => " & ".intercalate (conjunctTexts children)
  | disjunction children => " | ".intercalate (disjunctTexts children)
  | existence test relationship filter =>
    s!"{relationship.text}.{test.method}(" ++ filterText filter ++ ")"
  | comparison c => c.text

/-- The texts of the children of a conjunction. -/
def conjunctTexts : List Predicate → List String
  | [] => []
  | child :: children =>
    (if child.isDisjunction then "(" ++ child.text ++ ")" else child.text) ::
      conjunctTexts children

/-- The texts of the children of a disjunction. -/
def disjunctTexts : List Predicate → List String
  | [] => []
  | child :: children => child.text :: disjunctTexts children

/-- The text of a filter, empty if there is none. -/
def filterText : Option Predicate → String
  | .none => ""
  | some p => p.text

end

end Predicate

end Criteria
