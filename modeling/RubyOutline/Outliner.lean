/-
RubyOutline/Outliner.lean

The answer to an outline request.

A request takes a snapshot of its document, parses and outlines the snapshot, and then looks
whether the store still holds the document at the version of the snapshot; if not, the outline is
thrown away.  The two looks at the store are separate steps (`Outliner.begin` and
`Outliner.finish`), because other clients may change the store in between.
-/
import RubyOutline.Conversion
import RubyOutline.DocumentStore
import RubyOutline.FileSystem
import RubyOutline.Outline
import RubyOutline.Recovery
import RubyOutline.Settings
import RubyOutline.SizeLimit

namespace RubyOutline

/-- What turns sources into parse trees, unless it cannot be loaded. -/
inductive Grammar
  | unavailable (reason : String)
  | available (parse : Source → ParseNode)

/-- Why there is no outline. -/
inductive OutlineError
  | notFound (uri : String)
  | superseded (uri : String) (expected : Int) (actual : Option Int)
  | noGrammar (reason : String)
  | tooLarge (path : Path) (size : Nat) (limit : SizeLimit)
  | file (error : FileError)
deriving DecidableEq, Repr

namespace OutlineError

def versionText : Option Int → String
  | some v => toString v
  | none => "None"

/-- Sizes are in kilobytes. -/
def message : OutlineError → String
  | .notFound uri => s!"Document not found: {uri}"
  | .superseded uri expected actual =>
    s!"Document {uri} superseded: expected version {expected}, found {versionText actual}"
  | .noGrammar reason => s!"Grammar not available for ruby: {reason}"
  | .tooLarge path size limit => s!"{path} is {size} KB, larger than {limit} KB"
  | .file e => e.message

end OutlineError

/-- The outline of a snapshot. -/
structure DocumentOutline where
  document : Document
  symbols : List Symbol
  parseErrors : List String
  /-- The grammar marked the source as damaged. -/
  damaged : Bool

/-- Errors had to be recovered from. -/
def DocumentOutline.hasErrors (o : DocumentOutline) : Bool := !o.parseErrors.isEmpty

/-- How sources are read. -/
structure Outliner where
  encoding : PositionEncoding
  table : MacroTable
deriving DecidableEq, Repr, Inhabited

namespace Outliner

/-- How settings with the table of their macros say that sources are read. -/
def ofSettings (s : Settings) (table : MacroTable) : Outliner := ⟨s.parser.positionEncoding, table⟩

/-- The outline of a snapshot with the given parse tree. -/
def outline (o : Outliner) (d : Document) (root : ParseNode) : DocumentOutline where
  document := d
  symbols := RubyOutline.outline o.table ((Converter.ofSource d.source o.encoding).convertTree root)
  parseErrors := root.recoveries.map (·.message d.uri)
  damaged := root.label.hasError

/-- The first look at the store: the snapshot to work on. -/
def begin (store : DocumentStore) (uri : String) : Except OutlineError Document :=
  match store.get? uri with
  | some d => .ok d
  | none => .error (.notFound uri)

/-- The second look at the store: an outline is given out only if its version is still current. -/
def finish (store : DocumentStore) (outline : DocumentOutline) :
    Except OutlineError DocumentOutline :=
  let d := outline.document
  let current := store.version? d.uri
  if current = some d.version then .ok outline else .error (.superseded d.uri d.version current)

/-- A whole request, with edits by other clients between its two looks at the store.  Without a
grammar it fails after the first. -/
def handle (o : Outliner) (grammar : Grammar) (store : DocumentStore) (uri : String)
    (edits : List DocumentStore.Edit) : Except OutlineError DocumentOutline × DocumentStore :=
  match begin store uri, grammar with
  | .error e, _ => (.error e, store)
  | .ok _, .unavailable reason => (.error (.noGrammar reason), store)
  | .ok d, .available parse =>
    let after := store.applyAll edits
    (finish after (o.outline d (parse d.source)), after)

end Outliner

end RubyOutline
