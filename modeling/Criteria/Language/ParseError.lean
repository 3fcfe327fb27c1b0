import Criteria.Language.Token
import Criteria.Text.Bytes

/-! # Errors of the textual language

Why a text is not an operation, with the place where reading it stopped.
-/

set_option autoImplicit false

namespace Criteria.Language

open Text

/-- What could have stood where reading stopped. -/
inductive Expected where
  | operation
  | continuation
  | closingParen
  | closingBrace
  | listContinuation
  | relationship
  | nullWord
  | operator
  | literal
  | integer
  | root
  | member
  | dot
  deriving DecidableEq

/-- How messages name what could have stood. -/
def Expected.text : Expected → String
  | operation => "an operation"
  | continuation => "'&', '|' or end of input"
  | closingParen => "')'"
  | closingBrace => "'\x7d'"
  | listContinuation => "',' or ')'"
  | relationship => "a relationship"
  | nullWord => "'null'"
  | operator => "an operator"
  | literal => "a literal"
  | integer => "an integer"
  | root => "'this' or a type name"
  | member => "an attribute or relationship name"
  | dot => "'.'"

/-- A reason why a text is not an operation. -/
inductive ParseError where
  | unexpectedToken (found : Token) (expected : Expected) (extent : Extent)
  | unexpectedEnd (expected : Expected) (position : Nat)
  | unexpectedCharacter (c : Char) (position : Nat)
  | invalidInteger (text : String) (position : Nat)
  | invalidFloat (text : String) (position : Nat)
  | invalidEscape (c : Char) (position : Nat)
  | unclosedString (position : Nat)
  | nestingTooDeep (most : Nat) (position : Nat)
  deriving DecidableEq

namespace ParseError

/-- The byte offset where reading stopped. -/
def position : ParseError → Nat
  | unexpectedToken _ _ extent => extent.start
  | unexpectedEnd _ position => position
  | unexpectedCharacter _ position => position
  | invalidInteger _ position => position
  | invalidFloat _ position => position
  | invalidEscape _ position => position
  | unclosedString position => position
  | nestingTooDeep _ position => position

/-- The number of bytes that the error is about, at least the one where reading stopped. -/
def width : ParseError → Nat
  | unexpectedToken _ _ extent => extent.width
  | unexpectedEnd _ _ => 1
  | unexpectedCharacter c _ => c.utf8Size
  | invalidInteger text _ => utf8Length text.toList
  | invalidFloat text _ => utf8Length text.toList
  | invalidEscape c _ => 1 + c.utf8Size
  | unclosedString _ => 1
  | nestingTooDeep _ _ => 1

/-- The wording of the error. -/
def message : ParseError → String
  | unexpectedToken found expected _ => s!"Expected {expected.text} but found '{found.text}'"
  | unexpectedEnd expected _ => s!"Expected {expected.text} but reached the end of input"
  | unexpectedCharacter c _ => s!"Unexpected character '{c}'"
  | invalidInteger text _ => s!"Invalid integer literal: {text}"
  | invalidFloat text _ => s!"Invalid float literal: {text}"
  | invalidEscape c _ => s!"Invalid escape sequence: \\{c}"
  | unclosedString _ => "Unclosed string literal"
  | nestingTooDeep most _ => s!"Operation nested deeper than {most} levels"

/-- The name of the error. -/
def name : ParseError → String
  | unexpectedToken _ _ _ => "UnexpectedToken"
  | unexpectedEnd _ _ => "UnexpectedEndOfInput"
  | unexpectedCharacter _ _ => "UnexpectedCharacter"
  | invalidInteger _ _ => "InvalidLiteral"
  | invalidFloat _ _ => "InvalidLiteral"
  | invalidEscape _ _ => "InvalidEscape"
  | unclosedString _ => "UnclosedString"
  | nestingTooDeep _ _ => "NestingTooDeep"

end ParseError

end Criteria.Language
