/-
RubyOutline/Service.lean

The outline service: outlines of files and of sources sent inline, over one document store.  It
starts with the table of its settings, and does not start if there is none.  Every call is answered,
unless its path asks for the home of nobody.  A failed call is reported under the URI and version it
was made with, a superseded one under the version that was superseded.
-/
import RubyOutline.DocumentFile
import RubyOutline.Symbol.Lsp

namespace RubyOutline

/-- How a call ended. -/
inductive Outcome
  | ok (symbols : List Symbol) (parseErrors : List String)
  | superseded (message : String)
  | error (message : String)

/-- The answer to a call. -/
structure Response where
  uri : String
  version : Int
  outcome : Outcome

namespace Response

def status (r : Response) : String :=
  match r.outcome with
  | .ok _ _ => "ok"
  | .superseded _ => "superseded"
  | .error _ => "error"

def message (r : Response) : Option String :=
  match r.outcome with
  | .ok _ _ => none
  | .superseded message | .error message => some message

def symbols (r : Response) : List Symbol :=
  match r.outcome with
  | .ok symbols _ => symbols
  | _ => []

def parseErrors (r : Response) : List String :=
  match r.outcome with
  | .ok _ parseErrors => parseErrors
  | _ => []

/-- The response with an outline. -/
def ofOutline (o : DocumentOutline) : Response :=
  ⟨o.document.uri, o.document.version, .ok o.symbols o.parseErrors⟩

/-- The response to a call made with a URI and a version. -/
def ofResult (uri : String) (version : Int) : Except OutlineError DocumentOutline → Response
  | .ok outline => ofOutline outline
  | .error (.superseded u expected actual) =>
    ⟨uri, expected, .superseded (OutlineError.superseded u expected actual).message⟩
  | .error e => ⟨uri, version, .error e.message⟩

/-! ### Responses as values -/

def rangeRecord (r : SourceRange) : Value :=
  .object [("start_line", .nat r.start.line), ("start_character", .nat r.start.character),
    ("end_line", .nat r.stop.line), ("end_character", .nat r.stop.character)]

mutual

/-- A symbol with its ranges as flat records. -/
def symbolRecord : Symbol → Value
  | ⟨info, children⟩ =>
    .object [("name", .string info.name), ("kind", .nat info.kind.code),
      ("range", rangeRecord info.range), ("selection_range", rangeRecord info.selectionRange),
      ("children", .list (symbolRecords children))]

def symbolRecords : List Symbol → List Value
  | [] => []
  | s :: ss => symbolRecord s :: symbolRecords ss

end

/-- A response as a record. -/
def toRecord (r : Response) : Value :=
  .object [("uri", .string r.uri), ("version", .int r.version), ("status", .string r.status),
    ("symbols", .list (symbolRecords r.symbols)), ("parse_errors", .strings r.parseErrors),
    ("message", (r.message.map Value.string).getD .null)]

end Response

/-- The service between two calls. -/
structure Service where
  settings : Settings
  table : MacroTable
  /-- The table is that of the settings. -/
  buildTable_eq : settings.macros.buildTable = .accepted table
  store : DocumentStore

namespace Service

def start (settings : Settings) : Checked Service :=
  match h : settings.macros.buildTable with
  | .accepted table => .accepted ⟨settings, table, h, .empty⟩
  | .rejected issues => .rejected issues

/-- The service as it starts with the settings that nobody has changed. -/
def standard : Service := ⟨{}, .rails, rfl, .empty⟩

theorem start_default : start {} = .accepted standard := rfl

def outliner (s : Service) : Outliner := .ofSettings s.settings s.table

/-- Stores a document and outlines it, with edits by other clients while it is parsed. -/
def outlineDocument (s : Service) (grammar : Grammar) (d : Document)
    (edits : List DocumentStore.Edit) : Except OutlineError DocumentOutline × Service :=
  let (result, store) := s.outliner.handle grammar (s.store.set d) d.uri edits
  (result, { s with store })

/-- Outlines a source sent inline. -/
def outlineSource (s : Service) (grammar : Grammar) (d : Document)
    (edits : List DocumentStore.Edit) : Response × Service :=
  let (result, s) := s.outlineDocument grammar d edits
  (.ofResult d.uri d.version result, s)

/-- The greatest size of a file. -/
def sizeLimit (s : Service) : SizeLimit := .whole s.settings.parser.maxFileSizeKb.val

/-- Outlines a file.  There is no answer if a home is asked for that is not there. -/
def outlineFile (s : Service) (grammar : Grammar) (fs : FileSystem) (path : String)
    (edits : List DocumentStore.Edit) : Except HomeError (Response × Service) :=
  (DocumentFile.load fs fs (.ofString path) (some s.sizeLimit)).map fun
    | .error e => (.ofResult path 0 (.error e), s)
    | .ok d =>
      let (result, s) := s.outlineDocument grammar d edits
      (.ofResult path 0 result, s)

end Service

end RubyOutline
