import Criteria.CommandLine.Options
import Criteria.Report.Diagnostic

/-! # Invocations

What the arguments of the program ask for: a command, and options that all commands share. The
shared options may stand in front of the command or behind it; behind it they count more.
-/

set_option autoImplicit false

namespace Criteria.CommandLine

/-- What the program is asked to do. -/
inductive Command where
  | compile (schema typeName operation : String)
  | convert (schema typeName : String) (file : Option String)
  | check (schema : String)
  | version
  deriving DecidableEq

/-- A command and how its results are shown. -/
structure Invocation where
  command : Command
  json : Bool := false
  format : DiagnosticFormat := .text
  config : Option String := none
  verbose : Bool := false
  deriving DecidableEq

/-- The options that all commands share. -/
def sharedOptions : List OptionSpec :=
  [⟨"json", none, .flag⟩, ⟨"format", none, .value⟩, ⟨"config", none, .value⟩,
    ⟨"verbose", some 'v', .flag⟩]

/-- The option that asks for the version in place of a command. -/
def versionOption : OptionSpec := ⟨"version", some 'V', .final⟩

/-- The option for the schema file. -/
def schemaOption : OptionSpec := ⟨"schema", some 's', .value⟩

/-- The option for the type that criteria are about. -/
def typeOption : OptionSpec := ⟨"type", some 't', .value⟩

/-- The option for the file with criteria. -/
def fileOption : OptionSpec := ⟨"file", some 'f', .value⟩

/-- The value of an option that names a file, which must not be empty. -/
def filePath? (g : Given) (name : String) : Option (Option String) :=
  match g.option? name with
  | some "" => none
  | path => some path

/-- The command of a name with its own arguments. -/
def command? (name : String) (g : Given) : Option Command := do
  let schema ← (← filePath? g "schema")
  match name, g.operands with
  | "compile", [operation] =>
    let typeName ← g.option? "type"
    some (.compile schema typeName operation)
  | "convert", [] =>
    let typeName ← g.option? "type"
    let file ← filePath? g "file"
    some (.convert schema typeName file)
  | "check", [] => some (.check schema)
  | _, _ => none

/-- The options of the command of a name. -/
def commandOptions? : String → Option (List OptionSpec)
  | "compile" => some [schemaOption, typeOption]
  | "convert" => some [schemaOption, typeOption, fileOption]
  | "check" => some [schemaOption]
  | _ => none

/-- The form of diagnostics that is asked for, text by default. -/
def format? (g : Given) : Option DiagnosticFormat :=
  match g.option? "format" with
  | none => some .text
  | some name => (DiagnosticFormat.ofName name).toOption

/-- What the arguments ask for, if they make sense. The values of shared options in front are
checked even where those behind the command count, or the version is asked for. -/
def Invocation.ofArguments? (arguments : List String) : Option Invocation := do
  let (front, rest) ← leading? (versionOption :: sharedOptions) {} arguments
  let _ ← format? front
  let _ ← filePath? front "config"
  if front.flag "version" then some { command := .version }
  else
    let name :: own := rest | none
    let specs ← commandOptions? name
    let behind ← mixed? (specs ++ sharedOptions) {} own
    let format ← format? (if behind.flag "format" then behind else front)
    let config ← filePath? (if behind.flag "config" then behind else front) "config"
    let command ← command? name behind
    some {
      command
      json := front.flag "json" || behind.flag "json"
      format
      config
      verbose := front.flag "verbose" || behind.flag "verbose" }

end Criteria.CommandLine
