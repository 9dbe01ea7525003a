/-
RubyOutline/Settings/File.lean

Settings from a file.  The file holds a YAML mapping, or nothing; what it says wins over the
environment.
-/
import RubyOutline.Settings.Given
import RubyOutline.Yaml.Visit

namespace RubyOutline

/-- Why there are no settings. -/
inductive LoadError
  | missing (path : Path)
  | file (error : FileError)
  | notText (fault : Utf8.Fault) (first : UInt8)
  | yaml (error : Yaml.YamlError)
  | rootType (type : String)
  | keyType
  | environment (error : EnvironmentError)
  | rejected (path : Option Path) (issues : List Issue)
deriving DecidableEq, Repr

namespace LoadError

def faultReason : Utf8.FaultKind → String
  | .invalidStart => "invalid start byte"
  | .invalidContinuation => "invalid continuation byte"
  | .unexpectedEnd => "unexpected end of data"

/-- The place of a fault.  One at the end of a file is counted from its own first byte. -/
def faultPlace (fault : Utf8.Fault) (first : UInt8) : String :=
  let start := if fault.kind = .unexpectedEnd then 0 else fault.start
  if fault.length = 1 then
    let byte := String.ofList (Text.hexDigits 2 first.toNat)
    s!"byte 0x{byte} in position {start}"
  else s!"bytes in position {start}-{start + fault.length - 1}"

def placeText (place : List Step) : String :=
  ".".intercalate (place.map fun
    | .key name => name
    | .index i => toString i)

/-- Issues with their places. -/
def issuesText (issues : List Issue) : String :=
  "; ".intercalate (issues.map fun i => s!"{placeText i.place}: {i.kind.code}")

def message : LoadError → String
  | .missing path => s!"Config file not found: {path}"
  | .file e => e.message
  | .notText fault first =>
    s!"'utf-8' codec can't decode {faultPlace fault first}: {faultReason fault.kind}"
  | .yaml e => e.message
  | .rootType type => s!"YAML root must be a mapping, not {type}"
  | .keyType => "YAML root keys must be strings"
  | .environment (.notJson name) => s!"Invalid JSON in environment variable {name}"
  | .environment (.badOption key) => s!"Option {key} has no use for its value"
  | .environment (.reservedKey key) => s!"Key {key} cannot be set"
  | .environment (.home e) => e.message
  | .environment (.file e) => e.message
  | .rejected none issues => s!"Invalid configuration: {issuesText issues}"
  | .rejected (some path) issues => s!"Invalid configuration in {path}: {issuesText issues}"

end LoadError

namespace Settings

/-- The name of a value's type. -/
def typeName : Value → String
  | .null => "NoneType"
  | .bool _ => "bool"
  | .int _ => "int"
  | .float _ => "float"
  | .string _ | .brokenString _ => "str"
  | .bytes _ => "bytes"
  | .date _ => "date"
  | .moment _ => "datetime"
  | .list _ => "list"
  | .set _ => "set"
  | .map _ => "dict"

/-- The key of an entry is a text. -/
def isTextKey : Value → Bool
  | .string _ | .brokenString _ => true
  | _ => false

/-- The entries of a map, whose keys must be texts. -/
def entriesOf (root : Value) : Except LoadError (List (Value × Value)) :=
  match root with
  | .null => .ok []
  | .map entries =>
    if entries.all fun (key, _) => isTextKey key then .ok entries else .error .keyType
  | v => .error (.rootType (typeName v))

/-- The value that the bytes of a settings file write. -/
def valueOfBytes (bytes : List UInt8) : Except LoadError Value :=
  match Utf8.fault? bytes with
  | some fault => .error (.notText fault (bytes.getD fault.start 0))
  | none =>
    match Yaml.load (Text.uniformLineEnds (Utf8.decode bytes)) with
    | .ok v => .ok v
    | .error e => .error (.yaml e)

/-- Settings given as entries, over those of the environment. -/
def accept (env : Environment) (fs : FileSystem) (path : Option Path)
    (given : List (Value × Value)) : Except LoadError Settings :=
  match ofEntries env fs given with
  | .error e => .error (.environment e)
  | .ok (.rejected issues) => .error (.rejected path issues)
  | .ok (.accepted settings) => .ok settings

/-- Settings of the file at a path and of the environment; without a path, of the environment
alone. -/
def load (env : Environment) (fs : FileSystem) : Option Path → Except LoadError Settings
  | none => accept env fs none []
  | some path =>
    match fs.follow path.toString with
    | .error (.nameTooLong path) => .error (.file (.nameTooLong path))
    | .error _ => .error (.missing path)
    | .ok .folder => .error (.file (.isFolder path))
    | .ok (.file file) => do accept env fs path (← entriesOf (← valueOfBytes file.bytes))

end Settings

end RubyOutline
