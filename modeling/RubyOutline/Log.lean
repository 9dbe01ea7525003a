/-
RubyOutline/Log.lean

Log records and what becomes of them.  A record is kept if its level reaches the configured one.
It is written as a line that begins with the time, which is left to the writer, or as a JSON
object.  Levels are numbers, and only six of them have names.

The path of the log file is a template in which the time can be a field.
-/
import RubyOutline.FileSystem
import RubyOutline.Log.Rotation
import RubyOutline.Settings
import RubyOutline.Text.Template
import RubyOutline.Value

namespace RubyOutline

structure LogRecord where
  level : Int
  /-- Who speaks. -/
  origin : String
  message : String
deriving DecidableEq, Repr

namespace LogRecord

def of (level : LogLevel) (origin message : String) : LogRecord :=
  ⟨level.number, origin, message⟩

/-- A record of a named logger.  The logger without a name is the root. -/
def ofLogger (name : String) (level : Int) (message : String) : LogRecord :=
  ⟨level, if name = "" then "root" else name, message⟩

def levelNames : List (Int × String) :=
  [(10, "DEBUG"), (20, "INFO"), (30, "WARNING"), (40, "ERROR"), (50, "CRITICAL")]

def levelName (level : Int) : String :=
  (levelNames.lookup level).getD s!"Level {level}"

/-- The number of a level's name or of one of its other names. -/
def levelNumber? (name : String) : Option Int :=
  match name with
  | "NOTSET" => some 0
  | "WARN" => some 30
  | "FATAL" => some 50
  | name => (levelNames.find? (·.2 == name)).map (·.1)

/-- A text with spaces after it, up to a width. -/
def padded (width : Nat) (s : String) : String :=
  s ++ String.ofList (List.replicate (width - s.length) ' ')

/-- A record as text, without the time. -/
def text (r : LogRecord) : String :=
  s!"{padded 8 (levelName r.level)} {r.origin} {r.message}"

/-- The lines of a record's text, the time being in front of the first. -/
def lines (time : String) (r : LogRecord) : List String :=
  (s!"{time} {r.text}".toList.splitOn '\n').map String.ofList

/-- The lines of a record's text in a file that is read with uniform line ends. -/
def fileLines (time : String) (r : LogRecord) : List String :=
  let text := s!"{time} {r.text}\n"
  ((Text.uniformLineEnds text.toList).splitOn '\n').dropLast.map String.ofList

def toValue (r : LogRecord) : Value :=
  .object [("level", .string (levelName r.level)), ("no", .int r.level),
    ("origin", .string r.origin), ("message", .string r.message)]

end LogRecord

/-- Why logging could not be set up. -/
inductive LogError
  | rotation (error : RotationError)
  | template (error : Text.TemplateError)
  | file (error : FileError)
  /-- A surrogate in the path.  Names of files are strings, so it leads to none. -/
  | brokenPath
deriving DecidableEq, Repr

namespace LogError

def message : LogError → String
  | .rotation e => e.message
  | .template e => e.message
  | .file e => e.message
  | .brokenPath => "surrogates not allowed"

end LogError

namespace LogSettings

/-- The path of the log file at a time, which is given by its format. -/
def filePath (folder : List String) (time : String → String) (template : String) :
    Except LogError Path := do
  let name ← (Text.Template.fill time template).mapError .template
  return (Path.ofString name).absolute folder

/-- Sets up logging, and answers the path of the log file.  Without a file there is nothing to
rotate. -/
def openSinks (s : LogSettings) (fs : FileSystem) (time : String → String) :
    Except LogError (Option Path) := do
  match s.file with
  | none => return none
  | some file =>
    (file.string?.forM Text.Template.check).mapError .template
    (Rotation.check s.rotation).mapError .rotation
    (Rotation.checkRetention s.retention).mapError .rotation
    match file with
    | .string template =>
      let path ← filePath fs.here time template
      (fs.checkAppend path).mapError .file
      return some path
    | .broken .. => throw .brokenPath

/-- The record that announces the settings. -/
def announcement (s : LogSettings) : LogRecord :=
  .of .debug "docsym.utils.logging"
    s!"Logging configured: level={s.level.label} format={s.format.label}"

def admits (s : LogSettings) (r : LogRecord) : Bool := s.level.number ≤ r.level

/-- The records that are written, the announcement first. -/
def written (s : LogSettings) (records : List LogRecord) : List LogRecord :=
  (s.announcement :: records).filter s.admits

end LogSettings

end RubyOutline
