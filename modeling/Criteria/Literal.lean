import Criteria.Json.Basic
import Criteria.Number.Layout
import Criteria.Number.Word
import Criteria.Text.Basic

/-! # Literals

The values as they stand in criteria, before the type of an attribute gives them a meaning. The
textual language and JSON criteria share them.
-/

set_option autoImplicit false

namespace Criteria

open Number Text

/-- A value in criteria. -/
inductive Literal where
  | string (s : String)
  | integer (n : Word 64)
  | float (x : Double)
  | boolean (b : Bool)
  | null
  | list (items : List Literal)

namespace Literal

mutual

/-- How messages quote a literal. -/
def text : Literal → String
  | string s => quoted s
  | integer n => toString n
  | float x => x.plain
  | boolean b => if b then "true" else "false"
  | null => "null"
  | list items => "(" ++ ", ".intercalate (itemTexts items) ++ ")"

/-- How messages quote the items of a list. -/
def itemTexts : List Literal → List String
  | [] => []
  | item :: items => item.text :: itemTexts items

end

/-- The literal of a JSON number: an integer if it fits 64 bits with a sign, else a float. -/
def ofNumeric : Json.Numeric → Literal
  | .integer n => match Word.ofInt? 64 n with
    | some word => integer word
    | none => float (.ofInt .double n)
  | .single x => float (x.convert .double)
  | .double x => float x

mutual

/-- The literal that a JSON value writes; objects write none. -/
def ofJson? : Json → Option Literal
  | .null => some null
  | .boolean b => some (boolean b)
  | .number n => some (ofNumeric n)
  | .string s => some (string s)
  | .array items => (ofItems? items).map list
  | .object _ => none

/-- The literals that JSON values write. -/
def ofItems? : List Json → Option (List Literal)
  | [] => some []
  | item :: items => do
    let first ← ofJson? item
    let others ← ofItems? items
    some (first :: others)

end

/-- Whether the literal is a list. -/
def isList : Literal → Bool
  | list _ => true
  | _ => false

end Literal

/-- What an operator is applied to: nothing, a literal, or JSON that writes no literal, of which
only the text is kept. -/
inductive Argument where
  | empty
  | value (l : Literal)
  | unsupported (text : String)

namespace Argument

/-- How messages quote an argument. -/
def text : Argument → String
  | empty => "\x7b\x7d"
  | value l => l.text
  | unsupported text => text

end Argument

end Criteria
