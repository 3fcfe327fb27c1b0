import Criteria.Json.Printer
import Criteria.Literal
import Criteria.Operators.Table

/-! # Rejections

Why criteria are rejected, apart from where. Each cause belongs to one of four kinds and has one
wording.
-/

set_option autoImplicit false

namespace Criteria

/-- The kinds of errors: a name that means nothing, an operator that does not apply, criteria of
a wrong shape, and text that does not parse. -/
inductive ErrorKind where
  | schemaResolution
  | operator
  | structural
  | unparsable
  deriving DecidableEq

namespace ErrorKind

/-- The name of the kind. -/
def name : ErrorKind → String
  | schemaResolution => "SchemaResolution"
  | operator => "Operator"
  | structural => "Structural"
  | unparsable => "Syntax"

/-- The kind of the given name. -/
def ofName? : String → Option ErrorKind
  | "SchemaResolution" => some schemaResolution
  | "Operator" => some operator
  | "Structural" => some structural
  | "Syntax" => some unparsable
  | _ => none

/-- The code that diagnostics show. -/
def code : ErrorKind → String
  | unparsable => "E001"
  | schemaResolution => "E100"
  | operator => "E200"
  | structural => "E300"

/-- What the code stands for. -/
def title : ErrorKind → String
  | unparsable => "syntax error"
  | schemaResolution => "unresolved name"
  | operator => "invalid operator"
  | structural => "malformed criteria"

end ErrorKind

/-- A reason to reject criteria. -/
inductive Rejection where
  | unknownType (name : String)
  | unknownRelationship (name type : String) (valid : List String)
  | unknownAttribute (name type : String) (valid : List String)
  | unknownField (name type : String)
  | wrongRoot (expected found : String)
  | unknownOperation (valueType : ValueType) (name : String)
  | inapplicable (function : FunctionName) (attr : String) (valueType : ValueType)
  | substringRange (start stop : Int)
  | unknownFunction (name : String)
  | functionArguments (function : FunctionName) (expected found : Nat)
  | wrongLiteral (valueType : ValueType) (found : Literal)
  | inequalityNeedsNull (valueType : ValueType) (found : Argument)
  | argumentGiven (comparator : Comparator) (found : Argument)
  | nullNotAccepted (valueType : ValueType) (comparator : Comparator)
  | valueRequired (valueType : ValueType) (comparator : Comparator) (found : Argument)
  | listRequired (valueType : ValueType) (comparator : Comparator) (found : Argument)
  | listTooLong (valueType : ValueType) (comparator : Comparator) (most found : Nat)
  | emptyNode
  | tooDeep (most : Nat)
  | mixedCombinators
  | combinatorNeedsList (name : String) (found : Json)
  | itemNeedsObject (found : Json)
  | existenceAtRoot (test : String)
  | existenceNeedsObject (test : String) (found : Json)
  | fieldNeedsObject (name : String) (found : Json)
  | functionNeedsObject (function : FunctionName) (found : Json)
  | substringBounds (found : Json)
  | orderNeedsObject (name : String) (found : Json)
  | orderNeedsEmptyObject (name : String) (found : Json)
  | unknownDirection (name : String)

namespace Rejection

/-- The kind of error that a rejection is. -/
def kind : Rejection → ErrorKind
  | unknownType _ => .schemaResolution
  | unknownRelationship _ _ _ => .schemaResolution
  | unknownAttribute _ _ _ => .schemaResolution
  | unknownField _ _ => .schemaResolution
  | wrongRoot _ _ => .schemaResolution
  | unknownOperation _ _ => .operator
  | inapplicable _ _ _ => .operator
  | substringRange _ _ => .operator
  | unknownFunction _ => .operator
  | functionArguments _ _ _ => .operator
  | wrongLiteral _ _ => .operator
  | inequalityNeedsNull _ _ => .operator
  | argumentGiven _ _ => .operator
  | nullNotAccepted _ _ => .operator
  | valueRequired _ _ _ => .operator
  | listRequired _ _ _ => .operator
  | listTooLong _ _ _ _ => .operator
  | emptyNode => .structural
  | tooDeep _ => .structural
  | mixedCombinators => .structural
  | combinatorNeedsList _ _ => .structural
  | itemNeedsObject _ => .structural
  | existenceAtRoot _ => .structural
  | existenceNeedsObject _ _ => .structural
  | fieldNeedsObject _ _ => .structural
  | functionNeedsObject _ _ => .structural
  | substringBounds _ => .structural
  | orderNeedsObject _ _ => .structural
  | orderNeedsEmptyObject _ _ => .structural
  | unknownDirection _ => .structural

/-- The wording of a rejection. -/
def message : Rejection → String
  | unknownType name => s!"Could not find type '{name}'"
  | unknownRelationship name type valid =>
    s!"Could not find relationship '{name}' on type '{type}'. Valid relationships: [" ++
      ", ".intercalate valid ++ "]"
  | unknownAttribute name type valid =>
    s!"Could not find attribute '{name}' on type '{type}'. Valid attributes: [" ++
      ", ".intercalate valid ++ "]"
  | unknownField name type => s!"Could not find field '{name}' on type '{type}'"
  | wrongRoot expected found => s!"Expected 'this' or <{expected}> but found: <{found}>"
  | unknownOperation valueType name => s!"Unknown operation on {valueType.kindName}: {name}"
  | inapplicable function attr valueType =>
    s!"Function '{function.text}' applies to {function.domain} but attribute '{attr}' is a " ++
      valueType.kindName
  | substringRange start stop => s!"Invalid substring range [{start}, {stop}]"
  | unknownFunction name => s!"Unknown function '{name}'"
  | functionArguments function expected found =>
    s!"Function '{function.text}' takes {expected} integer arguments but found {found}"
  | wrongLiteral valueType found =>
    s!"Expected <{valueType.literalName}> but found: <{found.text}>"
  | inequalityNeedsNull valueType found =>
    s!"notEq operation on {valueType.kindName} only supported with null but found: {found.text}"
  | argumentGiven comparator found =>
    s!"{comparator.name} takes an empty object as its argument but found: {found.text}"
  | nullNotAccepted valueType comparator =>
    s!"Operator '{comparator.name}' on {valueType.kindName} does not accept null"
  | valueRequired valueType comparator found =>
    s!"Operator '{comparator.name}' on {valueType.kindName} requires a single value but found: " ++
      found.text
  | listRequired valueType comparator found =>
    s!"Operator '{comparator.name}' on {valueType.kindName} requires a list of values but " ++
      s!"found: {found.text}"
  | listTooLong valueType comparator most found =>
    s!"Operator '{comparator.name}' on {valueType.kindName} accepts at most {most} values " ++
      s!"but found {found}"
  | emptyNode => "Empty criteria node."
  | tooDeep most => s!"Criteria nested deeper than {most} levels"
  | mixedCombinators =>
    "AND and OR cannot be combined with other criteria. " ++
      "Did you mean to nest the other criteria inside?"
  | combinatorNeedsList name found =>
    s!"{name} takes a list of criteria but found: {found.compact}"
  | itemNeedsObject found => s!"Expected a criteria object but found: {found.compact}"
  | existenceAtRoot test => s!"{test} must be nested inside a relationship"
  | existenceNeedsObject test found =>
    s!"{test} takes an object as its argument but found: {found.compact}"
  | fieldNeedsObject name found =>
    s!"Expected a criteria object for '{name}' but found: {found.compact}"
  | functionNeedsObject function found =>
    s!"{function.text} takes an object as its argument but found: {found.compact}"
  | substringBounds found =>
    s!"substring requires integer 'start' and 'end' but found: {found.compact}"
  | orderNeedsObject name found => s!"Expected an object for '{name}' but found: {found.compact}"
  | orderNeedsEmptyObject name found =>
    s!"Attribute '{name}' takes an empty object but found: {found.compact}"
  | unknownDirection name => s!"Invalid direction: {name}"

end Rejection

end Criteria
