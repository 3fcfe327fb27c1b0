import Criteria.Json.Printer
import Criteria.Report.CompileError
import Criteria.Text.Basic

/-! # Diagnostics

Errors made ready for a reader: as text with the source underlined, as JSON, or on one line.
-/

set_option autoImplicit false

namespace Criteria

open Text

/-- The place a diagnostic shows. -/
structure SourceLocation where
  span : Span := {}
  sourceText : Option String := none
  underline : Option (Nat × Nat) := none
  deriving DecidableEq

/-- An error as a reader sees it. -/
structure Diagnostic where
  kind : ErrorKind
  message : String := ""
  location : Option SourceLocation := none
  context : List String := []
  deriving DecidableEq

/-- The forms a diagnostic is written in. -/
inductive DiagnosticFormat where
  | text
  | json
  | compact
  deriving DecidableEq

namespace DiagnosticFormat

/-- The form of the given name, or what is wrong with the name. -/
def ofName : String → Except String DiagnosticFormat
  | "text" => .ok text
  | "json" => .ok json
  | "compact" => .ok compact
  | name => .error s!"unknown diagnostic format '{name}', expected text, json or compact"

end DiagnosticFormat

namespace SourceLocation

/-- The JSON form of a place. -/
def toJson (l : SourceLocation) : Json :=
  .object [("span", l.span.toJson), ("source_text", .ofOption (l.sourceText.map .string)),
    ("underline", .ofOption (l.underline.map fun (a, b) => .array [.ofNat a, .ofNat b]))]

end SourceLocation

namespace Diagnostic

/-- The diagnostic with a message in place of its own. -/
def withMessage (d : Diagnostic) (message : String) : Diagnostic := { d with message }

/-- The diagnostic of a stretch of source of which nothing is shown. -/
def withSpan (d : Diagnostic) (span : Span) : Diagnostic := { d with location := some { span } }

/-- The diagnostic with source text shown and some of its characters underlined. -/
def withExcerpt (d : Diagnostic) (text : String) (underline : Nat × Nat) : Diagnostic :=
  let place := d.location.getD {}
  { d with location := some { place with sourceText := some text, underline := some underline } }

/-- The diagnostic with the labels of a context. -/
def withContext (d : Diagnostic) (labels : List String) : Diagnostic := { d with context := labels }

/-- The diagnostic of an error. The stretch of source runs over the underlined characters, as
if they all stood on one line. -/
def ofError (e : CompileError) : Diagnostic :=
  let plain := withMessage { kind := e.kind } e.message
  match e.location with
  | .path p => plain.withContext p.labels
  | .source x =>
    let start : Position := ⟨x.line - 1, x.column - 1⟩
    let stop : Position := ⟨start.line, start.column + (x.underline.2 - x.underline.1)⟩
    (plain.withSpan ⟨start, stop⟩).withExcerpt x.text x.underline

/-- The lines that line feeds end, and what follows the last line feed if anything does. A
carriage return in front of a line feed is part of the ending. -/
def splitLines (cs : List Char) : List (List Char) :=
  match cs with
  | [] => []
  | c :: r =>
    let line := (c :: r).takeWhile (· != '\n')
    let ended := line.length < (c :: r).length
    let bare := if ended && line.getLast? == some '\r' then line.dropLast else line
    bare :: splitLines ((c :: r).drop (line.length + 1))
termination_by cs.length
decreasing_by simp only [List.length_drop, List.length_cons]; omega

/-- Lines of source behind their numbers. -/
def numberedLines (number : Nat) : List (List Char) → List Char
  | [] => []
  | line :: lines =>
    padLeft ' ' 4 (toString number).toList ++ " | ".toList ++ line ++ '\n' ::
      numberedLines (number + 1) lines

/-- The code of the kind of error in brackets, unless codes are not shown. -/
def codeText (d : Diagnostic) (showCode : Bool) : String :=
  if showCode then s!" [{d.kind.code}]" else ""

/-- The source shown with its underline. -/
def sourceText (l : SourceLocation) : String :=
  match l.sourceText with
  | none => ""
  | some source =>
    String.ofList (numberedLines (l.span.start.line + 1) (splitLines source.toList)) ++
      match l.underline with
      | none => ""
      | some (start, stop) =>
        "     | " ++ String.ofList (List.replicate start ' ') ++
          String.ofList (List.replicate (max 1 (stop - start)) '^') ++ "\n"

/-- The diagnostic over several lines: the message, the place with the source underlined, and
the context. -/
def text (d : Diagnostic) (showCode : Bool) : String :=
  let place := match d.location with
    | none => ""
    | some l => s!" --> {l.span.text}\n" ++ sourceText l
  let context := if d.context.isEmpty then "" else s!" in {(ContextPath.mk d.context).text}\n"
  s!"error: {d.message}" ++ d.codeText showCode ++ "\n" ++ place ++ context

/-- The JSON form of the diagnostic. -/
def toJson (d : Diagnostic) : Json :=
  .object [("code", .string d.kind.name), ("message", .string d.message),
    ("location", .ofOption (d.location.map SourceLocation.toJson)),
    ("context", .array (d.context.map .string))]

/-- The diagnostic on one line: where it starts, and the message. -/
def line (d : Diagnostic) (showCode : Bool) : String :=
  let place := match d.location with
    | some l => s!"{l.span.start.text}: "
    | none => if d.context.isEmpty then "" else s!"{(ContextPath.mk d.context).text}: "
  place ++ s!"error: {d.message}" ++ d.codeText showCode

/-- The diagnostic in the given form. -/
def render (d : Diagnostic) (format : DiagnosticFormat) (showCode : Bool) : String :=
  match format with
  | .text => d.text showCode
  | .json => d.toJson.pretty
  | .compact => d.line showCode

end Diagnostic

end Criteria
