import Criteria.CommandLine.Invocation
import Criteria.Json.Reader
import Criteria.Language.Compile
import Criteria.Predicate.Json
import Criteria.Predicate.Text
import Criteria.Schema.Document
import Criteria.Structural.Convert

/-! # Running the program

What the program writes and how it ends, as a function of its arguments and of what it reads.
-/

set_option autoImplicit false

namespace Criteria.CommandLine

/-- Why a file cannot be read. -/
inductive ReadFailure where
  | notFound
  | permissionDenied
  | notADirectory
  | isADirectory
  | notText
  | other (text : String)
  deriving DecidableEq

/-- The wording of a failure to read. -/
def ReadFailure.message : ReadFailure → String
  | notFound => "No such file or directory (os error 2)"
  | permissionDenied => "Permission denied (os error 13)"
  | notADirectory => "Not a directory (os error 20)"
  | isADirectory => "Is a directory (os error 21)"
  | notText => "stream did not contain valid UTF-8"
  | other text => text

/-- What the program reads: files by their path, and its standard input. -/
structure Surroundings where
  fileText : String → Except ReadFailure String
  standardInput : Except ReadFailure String

/-- How the program ends, and what it has written. -/
structure Outcome where
  code : Nat
  output : String := ""
  errors : String := ""
  deriving DecidableEq

namespace Outcome

/-- A successful end. -/
def success (output : String) : Outcome := { code := 0, output }

/-- An end because the program cannot do what it is asked to. -/
def failure (message : String) : Outcome := { code := 1, errors := s!"Error: {message}\n" }

/-- An end because criteria are rejected. -/
def rejection (format : DiagnosticFormat) (e : CompileError) : Outcome :=
  { code := 1, errors := (Diagnostic.ofError e).render format true ++ "\n" }

/-- An end because the arguments make no sense. -/
def misuse : Outcome := { code := 2, errors := "error: invalid arguments\n" }

end Outcome

/-- The limits from a configuration file, or the default limits. -/
def loadLimits (s : Surroundings) : Option String → Except String Limits
  | none => .ok {}
  | some path =>
    match s.fileText path with
    | .error e => .error s!"Could not read config '{path}': {e.message}: {e.message}"
    | .ok text =>
      match Limits.read? text with
      | none => .error "Invalid config: not a record of limits"
      | some limits => .ok limits

/-- The schema from a file. -/
def loadSchema (s : Surroundings) (path : String) : Except String Schema :=
  let failed := s!"Failed to load schema '{path}': "
  match s.fileText path with
  | .error e => .error (failed ++ s!"Could not read schema '{path}': {e.message}: {e.message}")
  | .ok text =>
    match SchemaDocument.read? text with
    | none => .error (failed ++ "Invalid schema document: not a record of types")
    | some document =>
      match document.toSchema with
      | .error e => .error (failed ++ e.message)
      | .ok schema => .ok schema

/-- The criteria from a file or from standard input. -/
def loadCriteria (s : Surroundings) (file : Option String) :
    Except String (List (String × Json)) := do
  let text ←
    match file with
    | some path =>
      match s.fileText path with
      | .error e => .error s!"Error reading file '{path}': {e.message}"
      | .ok text => .ok text
    | none =>
      match s.standardInput with
      | .error e => .error s!"Error reading from stdin: {e.message}"
      | .ok text => .ok text
  match Json.read? text with
  | none => .error "Error parsing criteria JSON: not a value"
  | some (.object criteria) => .ok criteria
  | some _ => .error "Criteria must be a JSON object"

/-- A predicate as the program writes it. -/
def predicateOutput (json : Bool) (p : Predicate) : String :=
  (if json then p.toJson.pretty else p.text) ++ "\n"

/-- One line for each type of a schema. -/
def schemaOutput (schema : Schema) : String :=
  String.join (schema.types.map fun e =>
    s!"{e.name} ({e.attributes.length} attributes, {e.relationships.length} relationships)\n")

/-- The end of a run that yields a predicate or an error in criteria. -/
def Invocation.finish (i : Invocation) (result : Except CompileError Predicate) : Outcome :=
  match result with
  | .ok p => .success (predicateOutput i.json p)
  | .error e => .rejection i.format e

/-- The run of an invocation: the configuration is read first, then the schema, then the
criteria. -/
def Invocation.run (i : Invocation) (s : Surroundings) : Except String Outcome :=
  match i.command with
  | .version => .ok (.success "operation-compiler 0.1.0\n")
  | .compile path typeName operation => do
    let limits ← loadLimits s i.config
    let schema ← loadSchema s path
    pure (i.finish (Language.compile ⟨schema, []⟩ limits typeName operation))
  | .convert path typeName file => do
    let limits ← loadLimits s i.config
    let schema ← loadSchema s path
    let criteria ← loadCriteria s file
    pure (i.finish (Structural.convert ⟨schema, []⟩ limits typeName criteria))
  | .check path => do
    let _ ← loadLimits s i.config
    let schema ← loadSchema s path
    pure (.success (schemaOutput schema))

/-- The run of the program with the given arguments. -/
def run (arguments : List String) (s : Surroundings) : Outcome :=
  match Invocation.ofArguments? arguments with
  | none => .misuse
  | some i =>
    match i.run s with
    | .ok outcome => outcome
    | .error message => .failure message

end Criteria.CommandLine
