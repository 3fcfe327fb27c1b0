import Criteria.Json.Basic
import Criteria.Number.Layout
import Criteria.Text.Basic

/-! # Text of JSON values

A value is written compactly, without blanks, or over several lines, with two spaces for each
level. Only quotes, backslashes and control characters are escaped.
-/

set_option autoImplicit false

namespace Criteria.Json

open Number Text

/-- Two hexadecimal digits. -/
def hexPair (n : Nat) : List Char := padLeft '0' 2 (Nat.toDigits 16 n)

/-- How one character is written in a string. -/
def escaped (c : Char) : List Char :=
  match c with
  | '"' => ['\\', '"']
  | '\\' => ['\\', '\\']
  | '\x08' => ['\\', 'b']
  | '\t' => ['\\', 't']
  | '\n' => ['\\', 'n']
  | '\x0c' => ['\\', 'f']
  | '\r' => ['\\', 'r']
  | c => if c.toNat < 0x20 then ['\\', 'u', '0', '0'] ++ hexPair c.toNat else [c]

/-- A string between quotes. -/
def stringText (s : String) : String :=
  String.ofList ('"' :: s.toList.flatMap escaped ++ ['"'])

/-- A number. -/
def Numeric.text : Numeric → String
  | .integer n => toString n
  | .single x => x.singleJson?.getD "null"
  | .double x => x.doubleJson?.getD "null"

mutual

/-- The value without blanks. -/
def compact : Json → String
  | null => "null"
  | boolean b => if b then "true" else "false"
  | number n => n.text
  | string s => stringText s
  | array items => "[" ++ ",".intercalate (compactItems items) ++ "]"
  | object members => "\x7b" ++ ",".intercalate (compactMembers members) ++ "\x7d"

/-- The items of an array without blanks. -/
def compactItems : List Json → List String
  | [] => []
  | item :: items => item.compact :: compactItems items

/-- The members of an object without blanks. -/
def compactMembers : List (String × Json) → List String
  | [] => []
  | (name, value) :: members => (stringText name ++ ":" ++ value.compact) :: compactMembers members

end

/-- The start of a line at a level. -/
def indent (level : Nat) : String := String.ofList (List.replicate (2 * level) ' ')

/-- Parts between brackets: together if there are none, else one to a line. -/
def block (opening closing : String) (level : Nat) (parts : List String) : String :=
  if parts.isEmpty then opening ++ closing
  else
    opening ++ "\n" ++ ",\n".intercalate (parts.map (indent (level + 1) ++ ·)) ++ "\n" ++
      indent level ++ closing

mutual

/-- The value over several lines, its brackets closing at `level`. -/
def prettyAt (level : Nat) : Json → String
  | null => "null"
  | boolean b => if b then "true" else "false"
  | number n => n.text
  | string s => stringText s
  | array items => block "[" "]" level (prettyItems (level + 1) items)
  | object members => block "\x7b" "\x7d" level (prettyMembers (level + 1) members)

/-- The items of an array at `level`. -/
def prettyItems (level : Nat) : List Json → List String
  | [] => []
  | item :: items => item.prettyAt level :: prettyItems level items

/-- The members of an object at `level`. -/
def prettyMembers (level : Nat) : List (String × Json) → List String
  | [] => []
  | (name, value) :: members =>
    (stringText name ++ ": " ++ value.prettyAt level) :: prettyMembers level members

end

/-- The value over several lines. -/
def pretty (value : Json) : String := value.prettyAt 0

end Criteria.Json
