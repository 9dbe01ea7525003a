/-
RubyOutline/Settings/Environment.lean

Settings from environment variables.

`DOCSYM_<SECTION>` holds a whole section as JSON, `DOCSYM_<SECTION>__<FIELD>` a single field, as
JSON where the field holds a list and as plain text elsewhere.  A single field wins over the
section's own JSON.  Case does not matter in the names of variables, nor in the keys of a section's
JSON.  All of this is as `EnvironmentOptions` says, of which these are the defaults.
-/
import RubyOutline.FileSystem
import RubyOutline.Settings.Checked
import RubyOutline.Text.Case
import RubyOutline.Value.Json
import RubyOutline.Value.Overlay

namespace RubyOutline

/-- The environment: names and values in order, a later one of the same name winning. -/
abbrev Environment := List (String × String)

/-- How variables are read. -/
structure EnvironmentOptions where
  /-- What all names begin with. -/
  start : String := "DOCSYM_"
  caseSensitive : Bool := false
  /-- Variables without a text count as missing. -/
  ignoreEmpty : Bool := false
  /-- What stands between the parts of a name.  Without it only whole sections have variables. -/
  delimiter : String := "__"
  /-- The greatest number of parts after the section. -/
  mostParts : Option Nat := none
  /-- The text that stands for no value. -/
  nullWord : Option String := none
deriving DecidableEq, Repr

/-- Why the environment cannot be read. -/
inductive EnvironmentError
  /-- A variable that should hold JSON and does not. -/
  | notJson (name : String)
  /-- An option whose value is of no use. -/
  | badOption (key : String)
  /-- A key that names no setting and no option, and cannot. -/
  | reservedKey (key : String)
  /-- A file with variables in the home of nobody. -/
  | home (error : HomeError)
  /-- A file with variables that cannot be looked up. -/
  | file (error : FileError)
deriving DecidableEq, Repr

namespace EnvironmentOptions

/-- A name as it is compared with others. -/
def spelling (o : EnvironmentOptions) (name : String) : String :=
  if o.caseSensitive then name else Text.lowercase name

/-- The name of a section's variable. -/
def sectionName (o : EnvironmentOptions) (key : String) : String := o.spelling (o.start ++ key)

/-- The parts of a name after that of the section. -/
def nameParts (o : EnvironmentOptions) (name : String) : List String :=
  let parts := name.splitOn o.delimiter
  match o.mostParts with
  | some most =>
    if most < parts.length then
      parts.take (most - 1) ++ [o.delimiter.intercalate (parts.drop (most - 1))]
    else parts
  | none => parts

end EnvironmentOptions

namespace Environment

/-- The variables as they count, each written over its namesake. -/
def normalize (o : EnvironmentOptions) (env : Environment) : Environment :=
  (env.filter fun (_, text) => !(o.ignoreEmpty && text = "")).foldl
    (fun vars (name, text) =>
      let name := o.spelling name
      if vars.any (·.1 == name) then
        vars.map fun (n, t) => if n == name then (n, text) else (n, t)
      else vars ++ [(name, text)])
    []

/-- What follows a start of a text. -/
def afterStart? (start text : String) : Option String :=
  if start.toList.isPrefixOf text.toList then
    some (String.ofList (text.toList.drop start.length))
  else none

/-- The JSON value of a variable. -/
def json (name text : String) : Except EnvironmentError Value :=
  match Value.ofJson? text with
  | some v => .ok v
  | none => .error (.notJson name)

/-- Writes a value at the end of a path of keys.  A path through something that is no map leads
nowhere, and no value gives way to any value but an empty map. -/
def writeAt (path : List String) (last : String) (value : Value) (entries : List (Value × Value)) :
    List (Value × Value) :=
  match path with
  | [] =>
    match value, Value.lookup? last entries with
    | .null, some (.map []) => Value.insertEntry entries (.string last) value
    | .null, some _ => entries
    | _, _ => Value.insertEntry entries (.string last) value
  | key :: path =>
    match Value.lookup? key entries with
    | none => Value.insertEntry entries (.string key) (.map (writeAt path last value []))
    | some (.map inner) =>
      Value.insertEntry entries (.string key) (.map (writeAt path last value inner))
    | some _ => entries

/-- A name is that of a field that holds a list.  The start of all names may stand in front. -/
def namesList (o : EnvironmentOptions) (fields : List (String × Bool)) (name : String) : Bool :=
  fields.any fun (field, isList) =>
    isList && (o.spelling name = field || o.spelling name = o.spelling (o.start ++ field))

/-- The fields of a section that have variables of their own. -/
def fieldsOf (o : EnvironmentOptions) (fields : List (String × Bool)) (sectionName : String)
    (vars : Environment) : Except EnvironmentError (List (Value × Value)) :=
  if o.delimiter = "" then .ok []
  else
    vars.foldlM
      (fun entries (name, text) =>
        match afterStart? (sectionName ++ o.delimiter) name with
        | none => .ok entries
        | some rest => do
          let parts := o.nameParts rest
          let path := parts.dropLast
          let last := parts.getLastD ""
          let value ←
            if path.isEmpty && namesList o fields last && text != "" then json name text
            else pure (if some text = o.nullWord then .null else .string text)
          return writeAt path last value entries)
      []

/-- The entries with the names of fields as they are declared. -/
def declaredKeys (o : EnvironmentOptions) (fields : List (String × Bool))
    (entries : List (Value × Value)) : List (Value × Value) :=
  if o.caseSensitive then entries
  else
    entries.foldl
      (fun out (k, v) =>
        let key := match k with
          | .string s =>
            .string (((fields.find? fun (field, _) => field == Text.lowercase s).map (·.1)).getD s)
          | k => k
        Value.insertEntry out key v)
      []

/-- What variables say about a section, if anything. -/
def sectionValue (o : EnvironmentOptions) (vars : Environment) (key : String)
    (fields : List (String × Bool)) : Except EnvironmentError (Option Value) := do
  let name := o.sectionName key
  match vars.lookup name with
  | some text =>
    if some text = o.nullWord then return some .null
    match ← json name text with
    | .null => return none
    | .map entries =>
      let single ← fieldsOf o fields name vars
      return some (.map (declaredKeys o fields (Value.overlayEntries entries single)))
    | v => return some v
  | none =>
    let single ← fieldsOf o fields name vars
    return if single.isEmpty then none else some (.map (declaredKeys o fields single))

/-- What variables say about the settings. -/
def entries (o : EnvironmentOptions) (vars : Environment) :
    Except EnvironmentError (List (Value × Value)) := do
  let found ← Settings.sections.mapM fun (key, fields) => do
    return (key, ← sectionValue o vars key fields)
  return found.filterMap fun (key, v) => v.map (.string key, ·)

end Environment

end RubyOutline
