/-
RubyOutline/CommandLine/SetUp.lean

What a command does before it does what it is for: it loads its settings, opens its logs and builds
the table of its macros.  Any of these can fail.  A command expects that of the loading alone, and
only of some errors there (`LoadError.isReported`): these it tells its caller.
-/
import RubyOutline.CommandLine.Report
import RubyOutline.Outliner

namespace RubyOutline

/-- A text that is no YAML, or a scalar that counts as a wrong value for its tag.  Of other scalars
that do not fit their tags nobody has thought. -/
def Yaml.YamlError.isReported : Yaml.YamlError → Bool
  | .malformed | .badCharacter | .badInt .. | .longInt _ | .badFloat _ | .badDate _ => true
  | .hugeCharacter | .emptyNumber | .badBool _ | .notDate | .notText => false

/-- A path with the character that no name can hold counts as a wrong value, and all else as a fault
of the system. -/
def FileError.isReported : FileError → Bool
  | .nullCharacter => true
  | _ => false

/-- The errors that a command catches when it loads its settings: a file that is no text, no YAML or
no mapping, and settings that are refused.  All others get past it. -/
def LoadError.isReported : LoadError → Bool
  | .notText .. | .rootType _ | .rejected .. => true
  | .yaml e => e.isReported
  | .environment (.notJson _) | .environment (.badOption _) => true
  | .environment (.file e) | .file e => e.isReported
  | .missing _ | .keyType | .environment (.reservedKey _) | .environment (.home _) => false

namespace CommandLine

/-- What a run is given from outside. -/
structure Surroundings where
  env : Environment
  fs : FileSystem
  /-- The time in a format. -/
  time : String → String

/-- What a command works with. -/
structure Ready where
  settings : Settings
  table : MacroTable
  /-- The log file, if there is one. -/
  logFile : Option Path
deriving DecidableEq, Repr

namespace Ready

def outliner (r : Ready) : Outliner := .ofSettings r.settings r.table

/-- The greatest size of a file. -/
def sizeLimit (r : Ready) : SizeLimit := .whole r.settings.parser.maxFileSizeKb.val

end Ready

/-- The settings of a command, or the report of an error of loading them. -/
def loadSettings (given : Surroundings) (config : Option String) : Except Report Settings :=
  (Settings.load given.env given.fs (config.map Path.ofString)).mapError fun e =>
    if e.isReported then failureReport e.message else crashReport (.load e)

/-- What a command works with, or the report of a run that has come to nothing.  The logs are open
when the table is built. -/
def setUp (given : Surroundings) (config : Option String) : Except Report Ready := do
  let settings ← loadSettings given config
  let logFile ← (settings.logging.openSinks given.fs given.time).mapError fun e =>
    crashReport (.logging e)
  match settings.macros.buildTable with
  | .accepted table => return ⟨settings, table, logFile⟩
  | .rejected issues =>
    throw { crashReport (.table issues) with
      logging := settings.logging
      logFile
      log := settings.logging.written [] }

end CommandLine

end RubyOutline
