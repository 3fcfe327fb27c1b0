import Criteria.Json.Basic
import Criteria.Number.Word
import Criteria.Schema.ValueType

/-! # Attribute references

What a comparison looks at: an attribute reached over relationships, or a function of such a
reference. The value type of a function follows from what it is applied to.
-/

set_option autoImplicit false

namespace Criteria

open Number

/-- A chain of relationships from a root type to a target type. -/
structure RelationshipPath where
  rootType : String
  segments : List String
  targetType : String
  deriving DecidableEq

namespace RelationshipPath

/-- The text of the chain in criteria. -/
def text (p : RelationshipPath) : String := ".".intercalate ("this" :: p.segments)

/-- The JSON form of the chain. -/
def toJson (p : RelationshipPath) : Json :=
  .object [("rootType", .string p.rootType), ("segments", .array (p.segments.map .string)),
    ("targetType", .string p.targetType)]

end RelationshipPath

/-- An attribute at the end of a chain of relationships. -/
structure AttributePath where
  rootType : String
  navigation : List String
  name : String
  valueType : ValueType
  nullable : Bool
  deriving DecidableEq

namespace AttributePath

/-- The text of the path in criteria. -/
def text (p : AttributePath) : String := ".".intercalate ("this" :: p.navigation ++ [p.name])

/-- The JSON form of the path. -/
def toJson (p : AttributePath) : Json :=
  .object [("rootType", .string p.rootType), ("navigation", .array (p.navigation.map .string)),
    ("name", .string p.name), ("valueType", .string p.valueType.tag),
    ("nullable", .boolean p.nullable)]

end AttributePath

/-- The name of a function of attributes. -/
inductive FunctionName where
  | toLowerCase
  | substring
  | absoluteValue
  | year
  | month
  | dayOfMonth
  deriving DecidableEq

namespace FunctionName

/-- All functions in their order. -/
def all : List FunctionName := [toLowerCase, substring, absoluteValue, year, month, dayOfMonth]

/-- The name in criteria. -/
def text : FunctionName → String
  | toLowerCase => "toLowerCase"
  | substring => "substring"
  | absoluteValue => "absoluteValue"
  | year => "year"
  | month => "month"
  | dayOfMonth => "dayOfMonth"

/-- The attributes that the function is for, as messages name them. -/
def domain : FunctionName → String
  | toLowerCase => "StringAttributes"
  | substring => "StringAttributes"
  | absoluteValue => "NumericAttributes"
  | year => "TimestampAttributes and DateAttributes"
  | month => "TimestampAttributes and DateAttributes"
  | dayOfMonth => "TimestampAttributes and DateAttributes"

end FunctionName

/-- A function of attributes with its own arguments. -/
inductive AttributeFunction where
  | toLowerCase
  | substring (start stop : Word 32)
  | absoluteValue
  | year
  | month
  | dayOfMonth
  deriving DecidableEq

namespace AttributeFunction

/-- The name of the function. -/
def name : AttributeFunction → FunctionName
  | toLowerCase => .toLowerCase
  | substring _ _ => .substring
  | absoluteValue => .absoluteValue
  | year => .year
  | month => .month
  | dayOfMonth => .dayOfMonth

/-- The value type of the function of an attribute of the given type. -/
def resultType (f : AttributeFunction) (source : ValueType) : ValueType :=
  match f with
  | toLowerCase => .string
  | substring _ _ => .string
  | absoluteValue => source
  | year => .integer
  | month => .integer
  | dayOfMonth => .integer

/-- The JSON form of the function. -/
def toJson : AttributeFunction → Json
  | substring start stop =>
    .object [("substring", .object [("start", .ofInt start.toInt), ("end", .ofInt stop.toInt)])]
  | f => .string f.name.text

end AttributeFunction

/-- A reference to an attribute or to a function of a reference. -/
inductive AttributeRef where
  | simple (path : AttributePath)
  | derived (function : AttributeFunction) (source : AttributeRef)
  deriving DecidableEq

namespace AttributeRef

/-- The attribute at the bottom. -/
def path : AttributeRef → AttributePath
  | simple path => path
  | derived _ source => source.path

/-- The type of the values. -/
def valueType : AttributeRef → ValueType
  | simple path => path.valueType
  | derived function source => function.resultType source.valueType

/-- Whether the values may be missing. -/
def nullable (a : AttributeRef) : Bool := a.path.nullable

/-- The name of the attribute at the bottom. -/
def name (a : AttributeRef) : String := a.path.name

/-- The text of the reference in criteria. -/
def text : AttributeRef → String
  | simple path => path.text
  | derived (.substring start stop) source => s!"substring({source.text}, {start}, {stop})"
  | derived function source => s!"{function.name.text}({source.text})"

/-- The JSON form of the reference. -/
def toJson : AttributeRef → Json
  | simple path => .object [("simple", path.toJson)]
  | derived function source =>
    .object [("derived", .object [("function", function.toJson), ("source", source.toJson)])]

end AttributeRef

end Criteria
