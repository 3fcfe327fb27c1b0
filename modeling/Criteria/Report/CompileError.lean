import Criteria.Language.ParseError
import Criteria.Rejection
import Criteria.Report.Excerpt

/-! # Errors with their place

An error is a cause and where it lies: an excerpt of the source of textual criteria, or the
context path of structural ones, which is the keys that lead to a part of them.
-/

set_option autoImplicit false

namespace Criteria

/-! ## Context paths -/

/-- The labels on the way to a part of criteria, outermost first. -/
structure ContextPath where
  labels : List String := []
  deriving DecidableEq

namespace ContextPath

/-- The path one label further. -/
def push (p : ContextPath) (label : String) : ContextPath := ⟨p.labels ++ [label]⟩

/-- The number of labels. -/
def depth (p : ContextPath) : Nat := p.labels.length

/-- Whether the path leads nowhere. -/
def isEmpty (p : ContextPath) : Bool := p.labels.isEmpty

/-- The labels in brackets. -/
def text (p : ContextPath) : String := "[" ++ ", ".intercalate p.labels ++ "]"

end ContextPath

/-! ## Errors -/

/-- Why criteria do not compile. -/
inductive Cause where
  | rejected (r : Rejection)
  | unparsable (e : Language.ParseError)

namespace Cause

/-- The kind of the error. -/
def kind : Cause → ErrorKind
  | rejected r => r.kind
  | unparsable _ => .unparsable

/-- The wording of the error. -/
def message : Cause → String
  | rejected r => r.message
  | unparsable e => e.message

end Cause

/-- Where an error lies. -/
inductive ErrorLocation where
  | path (p : ContextPath)
  | source (e : Excerpt)
  deriving DecidableEq

/-- How the place follows the wording of an error. -/
def ErrorLocation.text : ErrorLocation → String
  | path p => if p.isEmpty then "" else s!" in {p.text}"
  | source e => s!" in '{e.text}' at line {e.line}, column {e.column}"

/-- A cause and where it lies. -/
structure CompileError where
  cause : Cause
  location : ErrorLocation

namespace CompileError

/-- The kind of the error. -/
def kind (e : CompileError) : ErrorKind := e.cause.kind

/-- The wording of the error without its place. -/
def message (e : CompileError) : String := e.cause.message

/-- The wording of the error and its place. -/
def text (e : CompileError) : String := e.message ++ e.location.text

end CompileError

/-- A rejection within structural criteria. -/
def Rejection.within (r : Rejection) (p : ContextPath) : CompileError := ⟨.rejected r, .path p⟩

/-- A rejection of the source between two byte offsets. -/
def Rejection.inSource (r : Rejection) (source : List Char) (extent : Language.Extent) :
    CompileError :=
  ⟨.rejected r, .source (.ofRange source extent.start extent.stop)⟩

/-- An error of the textual language shown in its source. -/
def Language.ParseError.inSource (e : Language.ParseError) (source : List Char) : CompileError :=
  ⟨.unparsable e, .source (.ofPoint source e.position e.width)⟩

end Criteria
