/-
RubyOutline/Service/Tool.lean

The service's tools, as they are called by name with arguments.  Arguments a tool does not know
are passed over.  The version of a source may also be written as JSON text; text that is a JSON
scalar other than null is then read as an integer like any other string.

Calls and answers are messages in JSON.  A message cannot carry half of a surrogate pair, so a text
with one, although there is nothing wrong with it as an argument, gets no answer.
-/
import RubyOutline.Checked
import RubyOutline.Service
import RubyOutline.Value.Json

namespace RubyOutline

/-- A call of a tool with arguments that have been accepted. -/
inductive ToolCall
  | documentSymbols (path : String)
  | outlineSource (document : Document)
deriving DecidableEq, Repr

/-- Why a tool could not be called. -/
inductive ToolError
  | unknownTool (name : String)
  | unreadableArgument (name : String)
  | badArguments (issues : List Issue)
deriving DecidableEq, Repr

def ToolError.message : ToolError → String
  | .unknownTool name => s!"Unknown tool: {name}"
  | .unreadableArgument name => s!"Unreadable argument: {name}"
  | .badArguments issues =>
    "Bad arguments: " ++ ", ".intercalate (issues.map fun i => i.kind.code)

namespace ToolCall

open Checked

/-- The JSON value that an argument's text writes, where that is no text or number itself.  Text
that is no JSON stays as it is, but an integer too long to be read is an error. -/
def unwrapJson : Value → Except Value.JsonFault Value
  | .string s =>
    match Value.ofJson s with
    | .ok (.list vs) => .ok (.list vs)
    | .ok (.map entries) => .ok (.map entries)
    | .ok .null => .ok .null
    | .error .longInteger => .error .longInteger
    | _ => .ok (.string s)
  | v => .ok v

/-- Arguments with the version taken out of JSON text. -/
def unwrapVersion (arguments : List (Value × Value)) : Except ToolError (List (Value × Value)) :=
  arguments.mapM fun
    | (.string "version", v) => do
      let v ← (unwrapJson v).mapError fun _ => ToolError.unreadableArgument "version"
      return (.string "version", v)
    | entry => return entry

def checkDocumentSymbols (arguments : List (Value × Value)) : Checked AnyText :=
  Check.required arguments "path" Check.text

def checkOutlineSource (arguments : List (Value × Value)) : Checked (AnyText × AnyText × Int) :=
  (fun source uri version => (source, uri, version)) <$>
    Check.required arguments "source" Check.text
    <*> Check.fieldOr arguments "uri" (.string "untitled:source.rb") Check.text
    <*> Check.fieldOr arguments "version" 1 Check.int

/-- Arguments that have been checked. -/
def accept {α : Type} : Checked α → Except ToolError α
  | accepted a => .ok a
  | rejected issues => .error (.badArguments issues)

/-- The string that an argument is. -/
def readable (name : String) : AnyText → Except ToolError String
  | .string s => .ok s
  | .broken .. => .error (.unreadableArgument name)

/-- A call by the name of the tool. -/
def ofArguments (tool : String) (arguments : List (Value × Value)) : Except ToolError ToolCall :=
  match tool with
  | "docsym_document_symbols" => do
    let path ← accept (checkDocumentSymbols arguments)
    return documentSymbols (← readable "path" path)
  | "docsym_outline_source" => do
    let (source, uri, version) ← accept (checkOutlineSource (← unwrapVersion arguments))
    let source ← readable "source" source
    return outlineSource ⟨← readable "uri" uri, .ofString source, version⟩
  | _ => .error (.unknownTool tool)

end ToolCall

namespace Service

/-- Answers the call of a tool. -/
def call (s : Service) (grammar : Grammar) (fs : FileSystem) :
    ToolCall → Except HomeError (Response × Service)
  | .documentSymbols path => s.outlineFile grammar fs path []
  | .outlineSource d => .ok (s.outlineSource grammar d [])

end Service

/-- Where the server listens.  A host and a port that are given win over the settings, unless they
are as good as nothing: no text, or zero. -/
def ServerSettings.checkEndpoint (s : ServerSettings) (host port : Value) :
    Checked (AnyText × Int) :=
  (·, ·) <$>
    (if host.isYes then (Check.text host).under (.key "host") else .accepted s.host)
    <*> (if port.isYes then (Check.int port).under (.key "port") else .accepted s.port.val)

end RubyOutline
