import Criteria.Calendar.Instant
import Criteria.Json.Basic
import Criteria.Literal
import Criteria.Schema.ValueType

/-! # Values

The values that predicates compare with. A literal is read as a value of the type of an
attribute; a value is written so that it reads back as itself.
-/

set_option autoImplicit false

namespace Criteria

open Number Text Calendar

/-- A value of one of the value types; those of as-of attributes are instants. -/
inductive Value where
  | string (s : String)
  | boolean (b : Bool)
  | integer (n : Word 32)
  | long (n : Word 64)
  | float (x : Single)
  | double (x : Double)
  | date (d : Date)
  | timestamp (t : Instant)
  deriving DecidableEq

namespace Value

/-- The text of a number with a decimal part, `.0` if it has no other. -/
def withDecimals (text : String) : String :=
  if text.toList.any (· == '.') || !(text.toList.getLast?.any Char.isDigit) then text
  else text ++ ".0"

/-- The text of a value in criteria. -/
def text : Value → String
  | string s => quoted s
  | boolean b => if b then "true" else "false"
  | integer n => toString n
  | long n => toString n
  | float x => withDecimals x.plain
  | double x => withDecimals x.plain
  | date d => "\"" ++ d.text ++ "\""
  | timestamp t => "\"" ++ t.text ++ "\""

/-- The JSON form of a value, under the name of its variant. -/
def toJson : Value → Json
  | string s => .object [("string", .string s)]
  | boolean b => .object [("boolean", .boolean b)]
  | integer n => .object [("integer", .ofInt n.toInt)]
  | long n => .object [("long", .ofInt n.toInt)]
  | float x => .object [("float", .ofSingle x)]
  | double x => .object [("double", .ofDouble x)]
  | date d => .object [("date", .string d.text)]
  | timestamp t => .object [("timestamp", .string t.text)]

/-- The value of the type that a literal stands for. Integers stand for binary numbers as well,
and a float has to stay finite when it is narrowed. -/
def ofLiteral? : ValueType → Literal → Option Value
  | .string, .string s => some (string s)
  | .boolean, .boolean b => some (boolean b)
  | .integer, .integer n => (Word.ofInt? 32 n.toInt).map integer
  | .long, .integer n => some (long n)
  | .float, .integer n => some (float (.ofInt .single n.toInt))
  | .float, .float x =>
    let narrowed : Single := x.convert .single
    if narrowed.isFinite then some (float narrowed) else none
  | .double, .integer n => some (double (.ofInt .double n.toInt))
  | .double, .float x => some (double x)
  | .date, .string s => (Date.read? s).map date
  | .timestamp, .string s => (Instant.read? s).map timestamp
  | .asOf, .string s => (Instant.read? s).map timestamp
  | _, _ => none

/-- The values without those that an earlier one equals, bit for bit where they are binary
numbers. -/
def distinct (values : List Value) : List Value := values.eraseDups

end Value

end Criteria
