import Criteria.Number.Layout
import Criteria.Number.Word

/-! # Tokens

The words of the textual language, each with the range of bytes it stands at.
-/

set_option autoImplicit false

namespace Criteria.Language

open Number

/-- A range of bytes of the source, its end excluded. -/
structure Extent where
  start : Nat
  stop : Nat
  deriving DecidableEq

/-- The number of bytes of a range. -/
def Extent.width (e : Extent) : Nat := e.stop - e.start

/-- A value and the range of bytes it was read from. -/
structure Located (α : Type) where
  value : α
  extent : Extent
  deriving DecidableEq

/-- A reserved word; behind a dot it is a name like any other. -/
inductive Keyword where
  | trueWord
  | falseWord
  | nullWord
  | thisWord
  | allWord
  | noneWord
  | notWord
  | isWord
  | inWord
  deriving DecidableEq

namespace Keyword

/-- All reserved words. -/
def all : List Keyword :=
  [trueWord, falseWord, nullWord, thisWord, allWord, noneWord, notWord, isWord, inWord]

/-- The spelling of the word. -/
def text : Keyword → String
  | trueWord => "true"
  | falseWord => "false"
  | nullWord => "null"
  | thisWord => "this"
  | allWord => "all"
  | noneWord => "none"
  | notWord => "not"
  | isWord => "is"
  | inWord => "in"

/-- The word of the given spelling. -/
def ofText? (text : String) : Option Keyword := all.find? (·.text = text)

/-- The name of the kind of token. -/
def kind : Keyword → String
  | trueWord => "True"
  | falseWord => "False"
  | nullWord => "Null"
  | thisWord => "This"
  | allWord => "All"
  | noneWord => "None"
  | notWord => "Not"
  | isWord => "Is"
  | inWord => "In"

end Keyword

/-- An operator or a mark of punctuation. -/
inductive Symbol where
  | equal
  | assign
  | notEqual
  | greater
  | greaterEqual
  | less
  | lessEqual
  | ampersand
  | pipe
  | leftParen
  | rightParen
  | leftBrace
  | rightBrace
  | comma
  | dot
  deriving DecidableEq

namespace Symbol

/-- How messages quote the symbol. -/
def text : Symbol → String
  | equal => "=="
  | assign => "="
  | notEqual => "!="
  | greater => ">"
  | greaterEqual => ">="
  | less => "<"
  | lessEqual => "<="
  | ampersand => "&"
  | pipe => "|"
  | leftParen => "("
  | rightParen => ")"
  | leftBrace => "\x7b"
  | rightBrace => "\x7d"
  | comma => ","
  | dot => "."

/-- The name of the kind of token. -/
def kind : Symbol → String
  | equal => "Equal"
  | assign => "Assign"
  | notEqual => "NotEqual"
  | greater => "Greater"
  | greaterEqual => "GreaterEqual"
  | less => "Less"
  | lessEqual => "LessEqual"
  | ampersand => "Ampersand"
  | pipe => "Pipe"
  | leftParen => "LeftParen"
  | rightParen => "RightParen"
  | leftBrace => "LeftBrace"
  | rightBrace => "RightBrace"
  | comma => "Comma"
  | dot => "Dot"

end Symbol

/-- A word of the language. -/
inductive Token where
  | integer (n : Word 64)
  | float (x : Double)
  | string (s : String)
  | identifier (name : String)
  | keyword (k : Keyword)
  | symbol (s : Symbol)
  deriving DecidableEq

namespace Token

/-- How messages quote the token. -/
def text : Token → String
  | integer n => toString n
  | float x => x.plain
  | string s => "\"" ++ s ++ "\""
  | identifier name => name
  | keyword k => k.text
  | symbol s => s.text

/-- The name of the kind of token. -/
def kind : Token → String
  | integer _ => "Integer"
  | float _ => "Float"
  | string _ => "String"
  | identifier _ => "Identifier"
  | keyword k => k.kind
  | symbol s => s.kind

/-- The token that a word is: a reserved word, or else an identifier. -/
def ofWord (word : String) : Token :=
  match Keyword.ofText? word with
  | some k => keyword k
  | none => identifier word

/-- The name that a token is behind a dot. -/
def name? : Token → Option String
  | identifier name => some name
  | keyword k => some k.text
  | _ => none

end Token

end Criteria.Language
