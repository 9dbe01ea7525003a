/-
RubyOutline/CommandLine.lean

Commands as they are written on the command line.

Options and operands of a command may be mixed, up to a `--`, after which there are operands only.
The value of an option is the next argument, whatever it looks like, or follows a long option
after an equals sign and a short one right away.  Of an option given twice the last one counts.
-/
import RubyOutline.FileSystem
import RubyOutline.Settings

namespace RubyOutline.CommandLine

inductive UsageError
  | noSuchOption (name : String)
  | missingValue (option : String)
  | unexpectedValue (option : String)
  | badChoice (option value : String)
  | missingCommand
  | noSuchCommand (name : String)
  | missingFiles
  | extraOperand (text : String)
  | noSuchPath (text : String)
  | folderGiven (text : String)
deriving DecidableEq, Repr

namespace UsageError

def message : UsageError → String
  | .noSuchOption name => s!"No such option: {name}"
  | .missingValue option => s!"Option '{option}' requires an argument."
  | .unexpectedValue option => s!"Option '{option}' does not take a value."
  | .badChoice option value => s!"Invalid value for '{option}': {Text.quoted value}."
  | .missingCommand => "Missing command."
  | .noSuchCommand name => s!"No such command {Text.quoted name}."
  | .missingFiles => "Missing argument 'FILES...'."
  | .extraOperand text => s!"Got unexpected extra argument ({text})"
  | .noSuchPath text => s!"Path {Text.quoted text} does not exist."
  | .folderGiven text => s!"File {Text.quoted text} is a directory."

end UsageError

/-! ### Options and operands -/

/-- An option of a command. -/
structure OptionSpec where
  long : String
  short : Option Char := none
  takesValue : Bool := true

/-- The options given, each by its long name and with its value if it takes one, and the
operands. -/
structure Arguments where
  options : List (String × String) := []
  operands : List String := []
deriving DecidableEq, Repr

namespace Arguments

def addOption (name value : String) (a : Arguments) : Arguments :=
  { a with options := (name, value) :: a.options }

def addOperand (operand : String) (a : Arguments) : Arguments :=
  { a with operands := operand :: a.operands }

/-- The value of an option, the last one if there are several. -/
def value? (a : Arguments) (name : String) : Option String :=
  a.options.reverse.lookup name

end Arguments

/-- What an argument is by itself. -/
inductive Word
  | endOfOptions
  | operand
  | option (spec : OptionSpec) (attached : Option String)

/-- A long option, with the value after its equals sign. -/
def longOption? (specs : List OptionSpec) (arg : String) : Option Word :=
  let cs := arg.toList
  let name := String.ofList (cs.takeWhile (· != '='))
  let attached := match cs.dropWhile (· != '=') with
    | [] => none
    | _ :: value => some (String.ofList value)
  (specs.find? (·.long == name)).map (.option · attached)

/-- What an argument is by itself. -/
def classify (specs : List OptionSpec) (arg : String) : Except UsageError Word :=
  match arg.toList with
  | ['-', '-'] => .ok .endOfOptions
  | '-' :: c :: rest =>
    match longOption? specs arg with
    | some word => .ok word
    | none =>
      if c = '-' then .error (.noSuchOption arg)
      else
        match specs.find? (·.short == some c) with
        | none => .error (.noSuchOption (String.ofList ['-', c]))
        | some spec => .ok (.option spec (if rest.isEmpty then none else some (String.ofList rest)))
  | _ => .ok .operand

/-- Tells options from operands.  Unless `mixed`, all that follows the first operand are operands
too. -/
def split (specs : List OptionSpec) (mixed : Bool) : List String → Except UsageError Arguments
  | [] => .ok {}
  | arg :: rest => do
    match ← classify specs arg, rest with
    | .endOfOptions, rest => return { operands := rest }
    | .operand, rest =>
      if mixed then return (← split specs mixed rest).addOperand arg
      else return { operands := arg :: rest }
    | .option spec none, rest =>
      if !spec.takesValue then return (← split specs mixed rest).addOption spec.long ""
      match rest with
      | value :: rest => return (← split specs mixed rest).addOption spec.long value
      | [] => throw (.missingValue spec.long)
    | .option spec (some value), rest =>
      if spec.takesValue then return (← split specs mixed rest).addOption spec.long value
      else throw (.unexpectedValue spec.long)

/-! ### Commands -/

inductive OutputFormat
  | tree
  | json
deriving DecidableEq, Repr

def OutputFormat.all : List OutputFormat := [.tree, .json]

def OutputFormat.label : OutputFormat → String
  | .tree => "tree"
  | .json => "json"

inductive HelpPage
  | main
  | outline
  | serve
deriving DecidableEq, Repr

inductive Command
  | version
  | help (page : HelpPage)
  | outline (files : List String) (config : Option String) (format : OutputFormat)
  | serve (config : Option String) (transport : Option Transport)
deriving DecidableEq, Repr

def helpOption : OptionSpec := { long := "--help", takesValue := false }
def versionOption : OptionSpec := { long := "--version", takesValue := false }
def configOption : OptionSpec := { long := "--config", short := some 'c' }
def formatOption : OptionSpec := { long := "--format" }
def transportOption : OptionSpec := { long := "--transport" }

/-- The value of an option that takes one of some words. -/
def choice {α : Type} (a : Arguments) (option : OptionSpec) (choices : List α)
    (label : α → String) : Except UsageError (Option α) :=
  match a.value? option.long with
  | none => .ok none
  | some value =>
    match choices.find? (label · == value) with
    | some found => .ok (some found)
    | none => .error (.badChoice option.long value)

def parseOutline (args : List String) : Except UsageError Command := do
  let a ← split [configOption, formatOption, helpOption] true args
  if (a.value? "--help").isSome then return .help .outline
  let format ← choice a formatOption OutputFormat.all OutputFormat.label
  if a.operands.isEmpty then throw .missingFiles
  return .outline a.operands (a.value? "--config") (format.getD .tree)

def parseServe (args : List String) : Except UsageError Command := do
  let a ← split [configOption, transportOption, helpOption] true args
  if (a.value? "--help").isSome then return .help .serve
  let transport ← choice a transportOption Transport.all Transport.label
  match a.operands with
  | [] => return .serve (a.value? "--config") transport
  | extra :: _ => throw (.extraOperand extra)

/-- The command that arguments write. -/
def Command.parse (args : List String) : Except UsageError Command := do
  let a ← split [versionOption, helpOption] false args
  match a.options, a.operands with
  | ("--version", _) :: _, _ => return .version
  | _ :: _, _ => return .help .main
  | [], [] => throw .missingCommand
  | [], "outline" :: args => parseOutline args
  | [], "serve" :: args => parseServe args
  | [], name :: _ => throw (.noSuchCommand name)

end RubyOutline.CommandLine
