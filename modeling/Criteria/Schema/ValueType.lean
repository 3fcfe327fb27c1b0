/-! # Value types

The nine types an attribute may have, and the three names of each: the tag in documents, the
name of the kind of attribute and the name of the literals it takes.
-/

set_option autoImplicit false

namespace Criteria

/-- The type of the values of an attribute. -/
inductive ValueType where
  | string
  | boolean
  | integer
  | long
  | float
  | double
  | date
  | timestamp
  | asOf
  deriving DecidableEq

namespace ValueType

/-- All value types in their order. -/
def all : List ValueType :=
  [string, boolean, integer, long, float, double, date, timestamp, asOf]

/-- The name of the type in documents. -/
def tag : ValueType → String
  | string => "string"
  | boolean => "boolean"
  | integer => "integer"
  | long => "long"
  | float => "float"
  | double => "double"
  | date => "date"
  | timestamp => "timestamp"
  | asOf => "asOf"

/-- The type with the given tag. -/
def ofTag? (tag : String) : Option ValueType := all.find? (·.tag = tag)

/-- The name of the attributes of the type. -/
def kindName : ValueType → String
  | string => "StringAttribute"
  | boolean => "BooleanAttribute"
  | integer => "IntegerAttribute"
  | long => "LongAttribute"
  | float => "FloatAttribute"
  | double => "DoubleAttribute"
  | date => "DateAttribute"
  | timestamp => "TimestampAttribute"
  | asOf => "AsOfAttribute"

/-- The name of the literals that the type takes. -/
def literalName : ValueType → String
  | string => "String"
  | boolean => "Boolean"
  | integer => "Integer"
  | long => "Long"
  | float => "Float"
  | double => "Double"
  | date => "Date"
  | timestamp => "Timestamp"
  | asOf => "Timestamp"

theorem ofTag?_tag (t : ValueType) : ofTag? t.tag = some t := by
  cases t <;> decide

end ValueType

end Criteria
