import Criteria.CommandLine.Run

/-! # The program

The outer layer: reads files and standard input, runs the command and writes what it has to
say. Standard input is read only when a command needs it.
-/

set_option autoImplicit false

namespace Criteria.CommandLine

/-- The failure that an input or output error stands for. -/
def ReadFailure.ofError : IO.Error → ReadFailure
  | .noFileOrDirectory _ _ _ => .notFound
  | .permissionDenied _ _ _ => .permissionDenied
  | .inappropriateType _ _ _ => .isADirectory
  | e => .other (toString e)

/-- The text that bytes hold. -/
def textOfBytes (bytes : ByteArray) : Except ReadFailure String :=
  match String.fromUTF8? bytes with
  | some text => .ok text
  | none => .error .notText

/-- What reading a file yields. -/
def fileText (path : String) : IO (Except ReadFailure String) := do
  try
    return textOfBytes (← IO.FS.readBinFile path)
  catch e =>
    return .error (.ofError e)

/-- The files that an invocation names. -/
def Invocation.paths (i : Invocation) : List String :=
  i.config.toList ++
    match i.command with
    | .compile schema _ _ => [schema]
    | .convert schema _ file => schema :: file.toList
    | .check schema => [schema]
    | .version => []

/-- Whether an invocation reads criteria from standard input. -/
def Invocation.readsInput (i : Invocation) : Bool :=
  match i.command with
  | .convert _ _ none => true
  | _ => false

/-- Runs the program with the files and the standard input around it. -/
def runHere (arguments : List String) : IO UInt32 := do
  let invocation := Invocation.ofArguments? arguments
  let paths := (invocation.map Invocation.paths).getD []
  let files ← paths.mapM fun path => return (path, ← fileText path)
  let input ←
    if (invocation.map Invocation.readsInput).getD false then
      textOfBytes <$> (← IO.getStdin).readBinToEnd
    else pure (.ok "")
  let outcome := run arguments {
    fileText := fun path => (files.lookup path).getD (.error .notFound)
    standardInput := input }
  IO.print outcome.output
  IO.eprint outcome.errors
  return UInt32.ofNat outcome.code

end Criteria.CommandLine

/-- Runs the program. -/
def main (arguments : List String) : IO UInt32 := Criteria.CommandLine.runHere arguments
