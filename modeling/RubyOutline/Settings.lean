/-
RubyOutline/Settings.lean

The settings of the outline service, with their defaults: how clients reach it, how sources are
read, which macros are recognised on top of the default table, and what is logged where.  Bounds
on numbers are part of the types.  Texts may hold surrogates, and settings with such texts are
settings like others; it is the table of the macros that cannot be built of them
(`MacroSettings.buildTable`).
-/
import RubyOutline.MacroTable.Checked
import RubyOutline.Source

namespace RubyOutline

/-- A number between two bounds. -/
structure Bounded (low high : Nat) where
  val : Nat
  low_le : low ≤ val := by decide
  le_high : val ≤ high := by decide
deriving DecidableEq, Repr

inductive Transport
  | sse
  | stdio
deriving DecidableEq, Repr, Inhabited

namespace Transport

def all : List Transport := [.sse, .stdio]

def label : Transport → String
  | .sse => "sse"
  | .stdio => "stdio"

end Transport

def defaultPort : Bounded 1024 65535 := ⟨8766, by decide, by decide⟩

structure ServerSettings where
  transport : Transport := .stdio
  host : AnyText := "127.0.0.1"
  port : Bounded 1024 65535 := defaultPort
deriving DecidableEq, Repr

def defaultFileSizeKb : Bounded 1 10240 := ⟨1024, by decide, by decide⟩

structure ParserSettings where
  positionEncoding : PositionEncoding := .utf16
  maxFileSizeKb : Bounded 1 10240 := defaultFileSizeKb
deriving DecidableEq, Repr

/-- The recognised macros, as changes to the default table. -/
structure MacroSettings where
  testAliases : List AnyText := MacroTable.empty.testAliases.map .string
  testBaseSuffix : AnyText := MacroTable.empty.testBaseSuffix
  extraCallbacks : List AnyText := []
  disabledCallbacks : List AnyText := []
  attributeMacros : List AnyText := MacroTable.empty.attributeMacros.map .string
deriving DecidableEq, Repr

namespace MacroSettings

/-- The table with the macros of the extra callbacks, which come in before the disabled ones go out,
so a name on both lists is disabled.  No name in a source holds a surrogate, so a name that does
makes no difference here, and a suffix that does is as good as none. -/
def tableWith (s : MacroSettings) (macros : List CallbackMacro) : MacroTable :=
  { (MacroTable.rails.withCallbacks macros).withoutCallbacks (AnyText.strings s.disabledCallbacks)
    with
    testAliases := AnyText.strings s.testAliases
    testBaseSuffix := s.testBaseSuffix.string?.getD ""
    attributeMacros := AnyText.strings s.attributeMacros }

/-- The macro of an extra callback, which is checked like any other. -/
def extraMacro (name : AnyText) : Checked CallbackMacro :=
  CallbackMacro.check (.object [("name", .ofText name)])

/-- The table that macro settings describe.  There is none if one of the extra callbacks has a name
that no macro can have. -/
def buildTable (s : MacroSettings) : Checked MacroTable :=
  (Checked.inTurn (s.extraCallbacks.map extraMacro)).map s.tableWith

end MacroSettings

/-- How severe a message is. -/
inductive LogLevel
  | debug
  | info
  | warning
  | error
deriving DecidableEq, Repr, Inhabited

namespace LogLevel

def all : List LogLevel := [.debug, .info, .warning, .error]

def label : LogLevel → String
  | .debug => "DEBUG"
  | .info => "INFO"
  | .warning => "WARNING"
  | .error => "ERROR"

def number : LogLevel → Nat
  | .debug => 10
  | .info => 20
  | .warning => 30
  | .error => 40

end LogLevel

inductive LogFormat
  | console
  | plain
  | json
deriving DecidableEq, Repr, Inhabited

namespace LogFormat

def all : List LogFormat := [.console, .plain, .json]

def label : LogFormat → String
  | .console => "console"
  | .plain => "plain"
  | .json => "json"

end LogFormat

structure LogSettings where
  level : LogLevel := .info
  format : LogFormat := .console
  /-- The path of the log file, if there is one. -/
  file : Option AnyText := none
  rotation : AnyText := "10 MB"
  retention : AnyText := "7 days"
deriving DecidableEq, Repr

structure Settings where
  server : ServerSettings := {}
  parser : ParserSettings := {}
  macros : MacroSettings := {}
  logging : LogSettings := {}
deriving DecidableEq, Repr

instance : Inhabited Settings := ⟨{}⟩

end RubyOutline
