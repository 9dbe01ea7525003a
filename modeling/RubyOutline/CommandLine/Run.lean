/-
RubyOutline/CommandLine/Run.lean

What the commands do.

`outline` prints the outlines of its files one after the other.  Files do not touch one another: a
file that fails is logged and leaves the others alone, and it makes the exit code 1 in the end.
Only a path that asks for the home of nobody ends the run at once.
Parse trees come from outside, so a run asks for a grammar once for every document it is going to
parse, in some monad of the caller's.
-/
import RubyOutline.CommandLine.SetUp
import RubyOutline.DocumentFile
import RubyOutline.Symbol.Listing
import RubyOutline.Symbol.Lsp
import RubyOutline.Text.Escape
import RubyOutline.Value.Json

namespace RubyOutline.CommandLine

def versionText : String := "cli, version 0.1.0\n"

def helpText : HelpPage → String
  | .main => "Usage: cli [OPTIONS] COMMAND [ARGS]...

  Document symbols for Ruby and Rails.

  Builds editor outlines of Ruby files: classes, modules and methods, plus
  Minitest test declarations and Rails lifecycle callbacks.

Options:
  --version  Show the version and exit.
  --help     Show this message and exit.

Commands:
  outline  Print the outline of one or more Ruby files.
  serve    Start the MCP server.
"
  | .outline => "Usage: cli outline [OPTIONS] FILES...

  Print the outline of one or more Ruby files.

  The json format prints LSP DocumentSymbol objects, one document per file,
  keyed by file URI.

Options:
  -c, --config PATH     Path to configuration file
  --format [tree|json]  Output format
  --help                Show this message and exit.
"
  | .serve => "Usage: cli serve [OPTIONS]

  Start the MCP server.

  Exposes document outlines as MCP tools over the chosen transport.

Options:
  -c, --config PATH        Path to configuration file
  --transport [stdio|sse]  MCP transport type (defaults to server.transport from
                           config)
  --help                   Show this message and exit.
"

/-! ### Paths -/

/-- A path that must exist. -/
def checkPath (fs : FileSystem) (text : String) : Except Report FileSystem.Found :=
  match fs.follow text with
  | .ok found => .ok found
  | .error .nullCharacter => .error (crashReport (.path .nullCharacter))
  | .error _ => .error (usageReport (.noSuchPath text))

/-- A path that must exist and be no folder. -/
def checkFile (fs : FileSystem) (text : String) : Except Report Unit := do
  match ← checkPath fs text with
  | .file _ => return ()
  | .folder => throw (usageReport (.folderGiven text))

/-- Looks whether the paths of a command can be used. -/
def Command.check (fs : FileSystem) : Command → Except Report Unit
  | .outline files config _ => do
    config.forM fun path => discard (checkPath fs path)
    files.forM (checkFile fs)
  | .serve config _ => config.forM fun path => discard (checkPath fs path)
  | _ => return ()

/-! ### One file -/

/-- What became of a file. -/
structure FileReport where
  path : Path
  /-- The document that was stored, if the file could be read. -/
  stored : Option Document
  result : Except OutlineError DocumentOutline

namespace FileReport

def succeeded (r : FileReport) : Bool := r.result.isOk

/-- What is logged when a document is stored. -/
def storedRecord (d : Document) : LogRecord :=
  .of .debug "docsym.store" s!"Stored {d.uri} at version {d.version}"

/-- What is logged about an outline. -/
def outlineRecords (o : DocumentOutline) : List LogRecord :=
  let d := o.document
  let recovered := LogRecord.of .debug "docsym.parsing.base"
    s!"Recovered from {o.parseErrors.length} parse error(s) in {d.uri}"
  let outlined := LogRecord.of .debug "docsym.handlers.document_symbol"
    s!"Outlined {d.uri} (version {d.version}): {o.symbols.length} top-level symbols"
  (if o.damaged then [recovered] else []) ++ [outlined] ++
    o.parseErrors.map (.of .warning "docsym.__main__")

/-- What is logged about a file. -/
def records (r : FileReport) : List LogRecord :=
  r.stored.toList.map storedRecord ++
    match r.result with
    | .ok o => outlineRecords o
    | .error e =>
      [.of .error "docsym.__main__" s!"Failed to outline {r.path}: {e.message}"]

/-- The outline as an indented list under the path. -/
def listing (r : FileReport) : String :=
  match r.result with
  | .ok o => String.join ((s!"{r.path}:" :: Symbol.listingAll 1 o.symbols).map (· ++ "\n"))
  | .error _ => ""

/-- The outline under the URI of the document. -/
def outlineEntry (r : FileReport) : Option (Value × Value) :=
  match r.result with
  | .ok o => some (.string o.document.uri, .list (Symbol.toLspAll o.symbols))
  | .error _ => none

end FileReport

/-- Reads a file into the store of the run and outlines it. -/
def outlineFile {m : Type → Type} [Monad m] (grammarFor : Document → m Grammar)
    (ready : Ready) (fs : FileSystem) (store : DocumentStore) (file : String) :
    m (Except HomeError (FileReport × DocumentStore)) := do
  let path := Path.ofString file
  match DocumentFile.load fs fs path (some ready.sizeLimit) with
  | .error e => return .error e
  | .ok (.error e) => return .ok (⟨path, none, .error e⟩, store)
  | .ok (.ok d) =>
    let grammar ← grammarFor d
    let (result, store) := ready.outliner.handle grammar (store.set d) d.uri []
    return .ok (⟨path, some d, result⟩, store)

/-- Reads and outlines files one after the other, up to the first that asks for a home that is not
there.  All of them are read into one store. -/
def outlineFiles {m : Type → Type} [Monad m] (grammarFor : Document → m Grammar)
    (ready : Ready) (fs : FileSystem) (store : DocumentStore) :
    List String → m (List FileReport × Option HomeError)
  | [] => return ([], none)
  | file :: files => do
    match ← outlineFile grammarFor ready fs store file with
    | .error e => return ([], some e)
    | .ok (report, store) =>
      let (reports, stop) ← outlineFiles grammarFor ready fs store files
      return (report :: reports, stop)

/-! ### Commands -/

/-- What the reports of files print.  The outlines in JSON are printed in one piece at the end, and
so not at all if the run was ended before. -/
def printed (format : OutputFormat) (reports : List FileReport) (ended : Bool) : String :=
  match format with
  | .tree => Text.withoutEscapes (String.join (reports.map (·.listing)))
  | .json =>
    if ended then ""
    else (Value.ofEntries (reports.filterMap (·.outlineEntry))).toIndentedJson ++ "\n"

/-- The report of a run over files. -/
def reportFiles (ready : Ready) (format : OutputFormat) (reports : List FileReport)
    (stop : Option HomeError) : Report where
  stdout := printed format reports stop.isSome
  crash := stop.map .home
  logging := ready.settings.logging
  logFile := ready.logFile
  log := ready.settings.logging.written (reports.flatMap (·.records))
  exitCode := if stop.isNone && reports.all (·.succeeded) then 0 else 1

/-- The record of a server that has been started. -/
def serverRecord (table : MacroTable) : LogRecord :=
  .of .info "docsym.server"
    s!"Document symbol server created ({table.callbacks.length} callbacks)"

/-- Carries out a command.  `serve` only starts the server. -/
def Command.run {m : Type → Type} [Monad m] (grammarFor : Document → m Grammar)
    (given : Surroundings) : Command → m Report
  | .version => return { stdout := versionText, exitCode := 0 }
  | .help page => return { stdout := helpText page, exitCode := 0 }
  | .outline files config format =>
    match setUp given config with
    | .error report => return report
    | .ok ready => do
      let (reports, stop) ← outlineFiles grammarFor ready given.fs .empty files
      return reportFiles ready format reports stop
  | .serve config _ =>
    match setUp given config with
    | .error report => return report
    | .ok ready =>
      return {
        logging := ready.settings.logging
        logFile := ready.logFile
        log := ready.settings.logging.written [serverRecord ready.table]
        exitCode := 0 }

/-- Carries out what arguments ask for. -/
def run {m : Type → Type} [Monad m] (grammarFor : Document → m Grammar) (given : Surroundings)
    (args : List String) : m Report :=
  match Command.parse args with
  | .error e => return usageReport e
  | .ok command =>
    match command.check given.fs with
    | .error report => return report
    | .ok () => command.run grammarFor given

end RubyOutline.CommandLine
