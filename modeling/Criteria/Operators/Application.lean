import Criteria.Limits
import Criteria.Operators.Table
import Criteria.Predicate.Basic
import Criteria.Rejection

/-! # Applying operators to attributes

Comparisons and functions are checked against the operator table of the attribute's type. A
comparison with null is a null check, and a null check on an attribute that always has a value
is decided at once.
-/

set_option autoImplicit false

namespace Criteria

open Number

/-- The operator of a name on attributes of a type, with what it is applied to. -/
def ValueType.resolveOperator (t : ValueType) (name : String) :
    Except Rejection (Operator × Arity) :=
  match (Operator.ofName? name).bind fun o => (t.arity? o).map fun arity => (o, arity) with
  | some found => .ok found
  | none => .error (.unknownOperation t name)

namespace AttributeRef

/-- A function applied to an attribute. -/
def apply (a : AttributeRef) (function : AttributeFunction) : Except Rejection AttributeRef :=
  if a.valueType.arity? (.function function.name) ≠ some .derive then
    .error (.inapplicable function.name a.name a.valueType)
  else
    match function with
    | .substring start stop =>
      if start.toInt < 0 ∨ stop.toInt < start.toInt then
        .error (.substringRange start.toInt stop.toInt)
      else .ok (.derived function a)
    | _ => .ok (.derived function a)

/-- A test whether there is a value. -/
def nullCheck (a : AttributeRef) (c : Comparator) : Predicate :=
  if a.nullable then .compare a c .none
  else if c = .isNull then .none
  else .all

/-- A literal as a value of the attribute. -/
def value (a : AttributeRef) (l : Literal) : Except Rejection Value :=
  match Value.ofLiteral? a.valueType l with
  | some v => .ok v
  | none => .error (.wrongLiteral a.valueType l)

/-- An operator without argument. -/
def compareNone (a : AttributeRef) (c : Comparator) : Argument → Except Rejection Predicate
  | .empty =>
    if c = .isNull ∨ c = .isNotNull then .ok (a.nullCheck c) else .ok (.compare a c .none)
  | found => .error (.argumentGiven c found)

/-- A comparison with one value. -/
def compareOne (a : AttributeRef) (c : Comparator) : Argument → Except Rejection Predicate
  | .empty => .error .emptyNode
  | .value .null =>
    match c with
    | .eq => .ok (a.nullCheck .isNull)
    | .notEq => .ok (a.nullCheck .isNotNull)
    | _ => .error (.nullNotAccepted a.valueType c)
  | .value l =>
    if l.isList then .error (.valueRequired a.valueType c (.value l))
    else (a.value l).map fun v => .compare a c (.one v)
  | .unsupported text => .error (.valueRequired a.valueType c (.unsupported text))

/-- A value in a list. -/
def listValue (a : AttributeRef) (c : Comparator) : Literal → Except Rejection Value
  | .null => .error (.nullNotAccepted a.valueType c)
  | l => if l.isList then .error (.valueRequired a.valueType c (.value l)) else a.value l

/-- A comparison with a list of values. -/
def compareMany (limits : Limits) (a : AttributeRef) (c : Comparator) :
    Argument → Except Rejection Predicate
  | .empty => .error .emptyNode
  | .value (.list items) =>
    if items.isEmpty then .error .emptyNode
    else if limits.maxListSize < items.length then
      .error (.listTooLong a.valueType c limits.maxListSize items.length)
    else
      (items.mapM (a.listValue c)).map fun values =>
        .compare a c (.many (if limits.deduplicateLists then Value.distinct values else values))
  | found => .error (.listRequired a.valueType c found)

/-- An attribute compared with an argument. An as-of attribute may differ from nothing but
null. -/
def compare (limits : Limits) (a : AttributeRef) (c : Comparator) (argument : Argument) :
    Except Rejection Predicate :=
  match a.valueType.arity? (.compare c) with
  | none => .error (.unknownOperation a.valueType c.name)
  | some arity =>
    if a.valueType = .asOf ∧ c = .notEq then
      match argument with
      | .value .null => .ok (a.nullCheck .isNotNull)
      | found => .error (.inequalityNeedsNull a.valueType found)
    else
      match arity with
      | .unary => a.compareNone c argument
      | .one => a.compareOne c argument
      | .many => a.compareMany limits c argument
      | .derive => .error (.unknownOperation a.valueType c.name)

end AttributeRef

end Criteria
