import Criteria.Json.Basic
import Criteria.Text.Bytes

/-! # Positions in a source

Lines and columns, counted from zero; columns count characters. Texts show them counted from
one.
-/

set_option autoImplicit false

namespace Criteria

open Text

/-- A line and a column. -/
structure Position where
  line : Nat := 0
  column : Nat := 0
  deriving DecidableEq

namespace Position

/-- The position behind one more character. -/
def advance (p : Position) (c : Char) : Position :=
  if c = '\n' then ⟨p.line + 1, 0⟩ else ⟨p.line, p.column + 1⟩

/-- The position of a byte offset: the one behind all characters that start before it. -/
def ofOffset (source : List Char) (offset : Nat) : Position :=
  (takeBytes offset source).foldl advance {}

/-- Line and column counted from one. -/
def text (p : Position) : String := s!"{p.line + 1}:{p.column + 1}"

/-- The JSON form of a position. -/
def toJson (p : Position) : Json := .object [("line", .ofNat p.line), ("column", .ofNat p.column)]

end Position

/-- A stretch from one position to another. -/
structure Span where
  start : Position := {}
  stop : Position := {}
  deriving DecidableEq

namespace Span

/-- The stretch between two byte offsets. -/
def ofOffsets (source : List Char) (start stop : Nat) : Span :=
  ⟨.ofOffset source start, .ofOffset source stop⟩

/-- The text of a stretch: the second line number only where it differs from the first. -/
def text (s : Span) : String :=
  if s.start.line = s.stop.line then s!"{s.start.text}-{s.stop.column + 1}"
  else s!"{s.start.text}-{s.stop.text}"

/-- The JSON form of a stretch. -/
def toJson (s : Span) : Json := .object [("start", s.start.toJson), ("end", s.stop.toJson)]

end Span

/-- The characters behind the last line feed. -/
def lastLine (cs : List Char) : List Char := (cs.reverse.takeWhile (· != '\n')).reverse

/-- The list without the carriage returns at its end. -/
def dropFinalReturns (cs : List Char) : List Char := (cs.reverse.dropWhile (· == '\r')).reverse

/-- The line around a byte offset, without line feed and final carriage returns. -/
def lineAt (source : List Char) (offset : Nat) : List Char :=
  dropFinalReturns
    (lastLine (takeBytes offset source) ++ (dropBytes offset source).takeWhile (· != '\n'))

end Criteria
