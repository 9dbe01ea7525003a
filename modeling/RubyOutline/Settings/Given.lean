/-
RubyOutline/Settings/Given.lean

Settings given directly, over those of the environment.

Each key of the root is the name of a section, in any case; of several spellings of one section
the first counts.  Other keys can be options, which say how the environment is read and whether
there is a file with more variables.  What remains is refused.
-/
import RubyOutline.FileSystem
import RubyOutline.Settings.EnvironmentFile

namespace RubyOutline

/-- What is given, with its options taken out. -/
structure Given where
  options : EnvironmentOptions := {}
  /-- The files with environment variables. -/
  files : List String := []
  entries : List (Value × Value)

namespace Given

/-- The keys that are options.  Those that no function below asks for change nothing. -/
def optionKeys : List String :=
  ["_case_sensitive", "_nested_model_default_partial_update", "_env_prefix", "_env_file",
   "_env_file_encoding", "_env_ignore_empty", "_env_nested_delimiter", "_env_nested_max_split",
   "_env_parse_none_str", "_env_parse_enums", "_cli_prog_name", "_cli_parse_args",
   "_cli_settings_source", "_cli_parse_none_str", "_cli_hide_none_type", "_cli_avoid_json",
   "_cli_enforce_required", "_cli_use_class_docs_for_groups", "_cli_exit_on_error", "_cli_prefix",
   "_cli_flag_prefix_char", "_cli_implicit_flags", "_cli_ignore_unknown_args", "_cli_kebab_case",
   "_cli_shortcuts", "_secrets_dir"]

/-- The key that can be neither a setting nor an option. -/
def reservedKey : String := "__pydantic_self__"

/-- The value of an option, if it has one. -/
def option? (entries : List (Value × Value)) (key : String) : Option Value :=
  match Value.lookup? key entries with
  | some .null => none
  | v => v

def textOption? (entries : List (Value × Value)) (key : String) : Option String :=
  match option? entries key with
  | some (.string s) => some s
  | _ => none

/-- The start of the names of variables, which must be a text. -/
def startOption (entries : List (Value × Value)) : Except EnvironmentError String :=
  match option? entries "_env_prefix" with
  | none => .ok ({} : EnvironmentOptions).start
  | some (.string s) => .ok s
  | some _ => .error (.badOption "_env_prefix")

/-- The files with environment variables: none, one or several. -/
def fileOption (entries : List (Value × Value)) : Except EnvironmentError (List String) :=
  match option? entries "_env_file" with
  | none => .ok []
  | some (.string s) => .ok [s]
  | some (.list vs) => vs.mapM fun
    | .string s => .ok s
    | _ => .error (.reservedKey "_env_file")
  | some _ => .error (.reservedKey "_env_file")

/-- How the environment is read. -/
def optionsOf (entries : List (Value × Value)) : Except EnvironmentError EnvironmentOptions := do
  let defaults : EnvironmentOptions := {}
  return {
    start := ← startOption entries
    caseSensitive := (option? entries "_case_sensitive").any Value.isYes
    ignoreEmpty := (option? entries "_env_ignore_empty").any Value.isYes
    delimiter := match option? entries "_env_nested_delimiter" with
      | none => defaults.delimiter
      | some (.string s) => s
      | some _ => ""
    mostParts := match option? entries "_env_nested_max_split" with
      | some (.int n) => if 1 ≤ n then some n.toNat else none
      | _ => none
    nullWord := textOption? entries "_env_parse_none_str" }

/-- The section that a key names. -/
def section? (key : Value) : Option String :=
  match key with
  | .string s => (Settings.sections.map (·.1)).find? (· == Text.lowercase s)
  | _ => none

/-- The entries with sections under their own names, only the first of each section. -/
def sectionEntries (entries : List (Value × Value)) : List (Value × Value) :=
  entries.foldl
    (fun out (key, v) =>
      match section? key with
      | none => out ++ [(key, v)]
      | some name => if (Value.lookup? name out).isSome then out else out ++ [(.string name, v)])
    []

def isOption : Value → Bool
  | .string s => optionKeys.contains s
  | _ => false

/-- Tells options from settings. -/
def ofEntries (entries : List (Value × Value)) : Except EnvironmentError Given := do
  if (Value.lookup? reservedKey entries).isSome then throw (.reservedKey reservedKey)
  return {
    files := ← fileOption entries
    options := ← optionsOf entries
    entries := sectionEntries (entries.filter fun (key, _) => !isOption key) }

/-! ### Variables in files -/

/-- The variables of a file, if it is there. -/
def variablesAt (fs : FileSystem) (name : String) : Except EnvironmentError Environment := do
  let path ← (fs.expandHome (.ofString name)).mapError .home
  match fs.follow path.toString with
  | .ok (.file file) => return Environment.ofText (FileSystem.textOf file.bytes).toList
  | .error (.nameTooLong path) => throw (.file (.nameTooLong path))
  | _ => return []

/-- The variables of the files that are there. -/
def fileVariables (g : Given) (fs : FileSystem) : Except EnvironmentError Environment :=
  List.flatten <$> g.files.mapM (variablesAt fs)

/-- A variable of a file that belongs to a section. -/
def isUsed (o : EnvironmentOptions) (name : String) : Bool :=
  Settings.sections.any fun (key, _) => (o.sectionName key).toList.isPrefixOf name.toList

/-- What the variables of files say about the settings.  One that belongs to no section is an
entry under its own name. -/
def fileEntries (o : EnvironmentOptions) (inFiles : Environment) :
    Except EnvironmentError (List (Value × Value)) := do
  let vars := Environment.normalize o inFiles
  let found ← Environment.entries o vars
  let others := vars.filter fun (name, text) =>
    text != "" && !isUsed o name && !(o.start != "" && Settings.isSection name)
  return found ++ others.map fun (name, text) => (.string name, .string text)

end Given

namespace Settings

/-- Settings given directly over those of the environment and of the files that are named. -/
def ofEntries (env : Environment) (fs : FileSystem) (entries : List (Value × Value)) :
    Except EnvironmentError (Checked Settings) := do
  let g ← Given.ofEntries entries
  let inFiles ← g.fileVariables fs
  let above ← Environment.entries g.options (Environment.normalize g.options env)
  let below ← Given.fileEntries g.options inFiles
  return check (Value.overlayEntries below (Value.overlayEntries above g.entries))

end Settings

end RubyOutline
