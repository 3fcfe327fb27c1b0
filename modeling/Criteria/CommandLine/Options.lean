/-! # Command-line options

Options have a long name and possibly a letter, and are flags or take a value. A value stands in
the same argument, behind the letter or an equals sign, or in the next argument, which must not
look like an option. Flags given as letters may share an argument. No option may be given twice
at the same place. A final flag ends the reading: nothing behind it counts, not even a mistake.
-/

set_option autoImplicit false

namespace Criteria.CommandLine

/-- What an option does: a flag stands alone, a final flag also hides all that stands behind it,
and a value option needs a value. -/
inductive OptionKind where
  | flag
  | final
  | value
  deriving DecidableEq

/-- An option that a command understands. -/
structure OptionSpec where
  name : String
  letter : Option Char
  kind : OptionKind
  deriving DecidableEq

/-- The options and other arguments given to a command. A flag that is given has an empty
value. -/
structure Given where
  options : List (String × String) := []
  operands : List String := []
  deriving DecidableEq

namespace Given

/-- The value of an option. -/
def option? (g : Given) (name : String) : Option String := g.options.lookup name

/-- Whether a flag is given. -/
def flag (g : Given) (name : String) : Bool := (g.option? name).isSome

/-- Whether a final flag is given. -/
def isFinal (g : Given) (specs : List OptionSpec) : Bool :=
  specs.any fun spec => spec.kind = .final && g.flag spec.name

/-- One more option, unless it is there already. -/
def addOption? (g : Given) (name value : String) : Option Given :=
  if g.flag name then none else some { g with options := g.options ++ [(name, value)] }

end Given

/-- Whether an argument looks like an option: a hyphen and more behind it. -/
def looksLikeOption (argument : String) : Bool :=
  match argument.toList with
  | '-' :: _ :: _ => true
  | _ => false

/-- The options in an argument of letters: those with their values, and the name of a last one
whose value stands in the next argument. -/
def letters? (specs : List OptionSpec) (g : Given) : List Char → Option (Given × Option String)
  | [] => some (g, none)
  | c :: cs => do
    let spec ← specs.find? (·.letter = some c)
    match spec.kind with
    | .flag =>
      let g ← g.addOption? spec.name ""
      letters? specs g cs
    | .final => (g.addOption? spec.name "").map fun g => (g, none)
    | .value =>
      match cs with
      | [] => some (g, some spec.name)
      | '=' :: value => (g.addOption? spec.name (String.ofList value)).map fun g => (g, none)
      | value => (g.addOption? spec.name (String.ofList value)).map fun g => (g, none)

/-- The option in an argument of a long name: with its value, or its name if the value stands in
the next argument. -/
def long? (specs : List OptionSpec) (g : Given) (text : List Char) :
    Option (Given × Option String) := do
  let name := String.ofList (text.takeWhile (· != '='))
  let spec ← specs.find? (·.name = name)
  match text.dropWhile (· != '='), spec.kind with
  | [], .value => some (g, some spec.name)
  | [], _ => (g.addOption? spec.name "").map fun g => (g, none)
  | _ :: value, .value => (g.addOption? spec.name (String.ofList value)).map fun g => (g, none)
  | _ :: _, _ => none

/-- The options in one argument that looks like options. -/
def optionsIn? (specs : List OptionSpec) (g : Given) (argument : String) :
    Option (Given × Option String) :=
  match argument.toList with
  | '-' :: '-' :: text => long? specs g text
  | '-' :: text => letters? specs g text
  | _ => none

/-- Options up to the first other argument or through a final flag, and the other arguments from
there on. -/
def leading? (specs : List OptionSpec) (g : Given) : List String → Option (Given × List String)
  | [] => some (g, [])
  | argument :: arguments =>
    if argument = "--" then none
    else if looksLikeOption argument then
      match optionsIn? specs g argument with
      | none => none
      | some (g, none) => if g.isFinal specs then some (g, []) else leading? specs g arguments
      | some (g, some name) =>
        match arguments with
        | [] => none
        | value :: arguments =>
          if looksLikeOption value then none
          else (g.addOption? name value).bind fun g => leading? specs g arguments
    else some (g, argument :: arguments)

/-- Options and other arguments in any order, up to a final flag; behind `--` everything is another
argument. -/
def mixed? (specs : List OptionSpec) (g : Given) : List String → Option Given
  | [] => some g
  | argument :: arguments =>
    if argument = "--" then some { g with operands := g.operands ++ arguments }
    else if looksLikeOption argument then
      match optionsIn? specs g argument with
      | none => none
      | some (g, none) => if g.isFinal specs then some g else mixed? specs g arguments
      | some (g, some name) =>
        match arguments with
        | [] => none
        | value :: arguments =>
          if looksLikeOption value then none
          else (g.addOption? name value).bind fun g => mixed? specs g arguments
    else mixed? specs { g with operands := g.operands ++ [argument] } arguments

end Criteria.CommandLine
