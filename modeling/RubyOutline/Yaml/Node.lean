/-
RubyOutline/Yaml/Node.lean

The nodes that a stream of tokens writes.

A stream holds at most one document.  Its nodes form a graph: an anchor names a node for the rest
of the document, from where the node begins, and an alias is one more way to the same node, also
from within it.  So nodes are numbered and refer to each other by number (`NodeId`), and the graph
keeps the order in which they were finished.  An empty place is an empty plain scalar.

Tokens are looked at one at a time, and a fault of the stream counts only once a token behind it
is asked for.
-/
import RubyOutline.Yaml.Schema
import RubyOutline.Yaml.Token

namespace RubyOutline.Yaml

/-- The number of a node in its graph. -/
abbrev NodeId := Nat

inductive Node
  | scalar (type : NodeType) (text : Text.Codes)
  | sequence (type : NodeType) (items : List NodeId)
  | mapping (type : NodeType) (entries : List (NodeId × NodeId))
deriving Inhabited, Repr

namespace Node

def type : Node → NodeType
  | .scalar type _ | .sequence type _ | .mapping type _ => type

/-- A node that is still to be read. -/
def unread : Node := .scalar .null []

end Node

/-- The nodes of a document. -/
structure Graph where
  nodes : Array Node
  /-- The nodes in the order in which they were finished. -/
  finished : List NodeId
  root : NodeId
deriving Repr

namespace Graph

/-- What is still to be read, the tag handles and anchors known, and the nodes so far. -/
structure Input where
  stream : TokenStream
  handles : List (String × String)
  anchors : List (String × NodeId) := []
  nodes : Array Node := #[]
  /-- The nodes that are finished, last one first. -/
  finished : List NodeId := []

abbrev Reader := StateT Input (Except YamlError)

/-! ### Tokens -/

/-- The next token, or none at the end of the stream. -/
def next? : Reader (Option Token) := do
  let { tokens, fault } := (← get).stream
  match tokens.head?, fault with
  | none, some e => throw e
  | t, _ => return t

def skipToken : Reader Unit :=
  modify fun input => { input with stream.tokens := input.stream.tokens.tail }

/-- The next token is one of some kinds. -/
def nextIs (p : Token → Bool) : Reader Bool := do
  return (← next?).any p

/-- Takes a token, if it is the next one. -/
def takeIf (t : Token) : Reader Bool := do
  if ← nextIs (· = t) then
    skipToken
    return true
  else return false

/-! ### Nodes begun and finished -/

/-- The number of a node that begins here.  An anchor can be given once. -/
def beginNode (anchor : Option String) : Reader NodeId := do
  let input ← get
  let id := input.nodes.size
  let anchors ← match anchor with
    | none => pure input.anchors
    | some a => do
      if (input.anchors.lookup a).isSome then throw .malformed
      pure ((a, id) :: input.anchors)
  set { input with anchors, nodes := input.nodes.push .unread }
  return id

def finishNode (id : NodeId) (node : Node) : Reader NodeId := do
  modify fun input =>
    { input with nodes := input.nodes.setIfInBounds id node, finished := id :: input.finished }
  return id

def scalarNode (anchor : Option String) (type : NodeType) (text : Text.Codes) : Reader NodeId := do
  finishNode (← beginNode anchor) (.scalar type text)

/-- The node of an empty place. -/
def emptyNode : Reader NodeId := scalarNode none (plainType []) []

/-! ### Properties -/

def defaultHandles : List (String × String) := [("!", "!"), ("!!", "tag:yaml.org,2002:")]

/-- What stands in front of a node. -/
structure Properties where
  anchor : Option String
  tag : Option Tag

/-- The anchor and the tag in front of a node, in either order. -/
def properties : Reader Properties := do
  match ← next? with
  | some (.anchor a) =>
    skipToken
    match ← next? with
    | some (.tag t) =>
      skipToken
      return ⟨some a, some t⟩
    | _ => return ⟨some a, none⟩
  | some (.tag t) =>
    skipToken
    match ← next? with
    | some (.anchor a) =>
      skipToken
      return ⟨some a, some t⟩
    | _ => return ⟨none, some t⟩
  | _ => return ⟨none, none⟩

/-- The tag of a single exclamation mark: the node is typed as if it were plain. -/
def isUntyped (t : Tag) : Bool := t.handle.isNone && t.suffix = "!"

/-- The type that a tag asks for, if it asks for one. -/
def typeOf (t : Tag) : Reader (Option NodeType) := do
  match t.handle with
  | none => return if isUntyped t then none else some (.ofTag t.suffix)
  | some handle =>
    match (← get).handles.lookup handle with
    | some expansion => return some (.ofTag (expansion ++ t.suffix))
    | none => throw .malformed

/-! ### Nodes read -/

/-- Where a node stands.  The items of a sequence right under a key need no indentation. -/
inductive Place
  | flow
  | block
  | underKey
deriving DecidableEq

def endsItem (t : Token) : Bool := t = .blockEntry || t = .blockEnd

def endsLooseItem (t : Token) : Bool := endsItem t || t = .key || t = .value

def endsPart (t : Token) : Bool := t = .key || t = .value || t = .blockEnd

/-- An element ends before a comma or the closing bracket. -/
def endsElement (close t : Token) : Bool := t = .flowEntry || t = close

/-- Goes on to the next element between brackets.  The answer is `false` at the closing bracket,
which is taken. -/
def nextElement (close : Token) (first : Bool) : Reader Bool := do
  if ← takeIf close then return false
  if !first then
    if !(← takeIf .flowEntry) then throw .malformed
  return !(← takeIf close)

mutual

/-- A node with its properties, or an alias. -/
def read (place : Place) : (fuel : Nat) → Reader NodeId
  | 0 => throw .malformed
  | fuel + 1 => do
    match ← next? with
    | some (.alias name) =>
      skipToken
      match (← get).anchors.lookup name with
      | some id => return id
      | none => throw .malformed
    | _ =>
      let found ← properties
      let type ← match found.tag with
        | none => pure none
        | some t => typeOf t
      content place found type fuel

/-- A node after its properties. -/
def content (place : Place) (found : Properties) (type : Option NodeType) :
    (fuel : Nat) → Reader NodeId
  | 0 => throw .malformed
  | fuel + 1 => do
    let sequence (items : Reader (List NodeId)) : Reader NodeId := do
      let id ← beginNode found.anchor
      finishNode id (.sequence (type.getD .sequence) (← items))
    let mapping (entries : Reader (List (NodeId × NodeId))) : Reader NodeId := do
      let id ← beginNode found.anchor
      finishNode id (.mapping (type.getD .mapping) (← entries))
    match ← next?, place with
    | some (.scalar text plain), _ =>
      skipToken
      let own := if plain || found.tag.any isUntyped then plainType text else .text
      scalarNode found.anchor (type.getD own) text
    | some .sequenceStart, _ => sequence (skipToken *> elements true fuel)
    | some .mappingStart, _ => mapping (skipToken *> pairs true fuel)
    | some .blockEntry, .underKey => sequence (looseItems fuel)
    | some .blockSequenceStart, .block | some .blockSequenceStart, .underKey =>
      sequence (skipToken *> items fuel)
    | some .blockMappingStart, .block | some .blockMappingStart, .underKey =>
      mapping (skipToken *> entries fuel)
    | _, _ =>
      if found.anchor.isNone && found.tag.isNone then throw .malformed
      scalarNode found.anchor (type.getD (plainType [])) []

/-- A node, or an empty one where it ends before it begins. -/
def part (place : Place) (ends : Token → Bool) : (fuel : Nat) → Reader NodeId
  | 0 => throw .malformed
  | fuel + 1 => do
    if ← nextIs ends then emptyNode else read place fuel

/-- The items of a block sequence. -/
def items : (fuel : Nat) → Reader (List NodeId)
  | 0 => throw .malformed
  | fuel + 1 => do
    if ← takeIf .blockEntry then
      let item ← part .block endsItem fuel
      return item :: (← items fuel)
    if ← takeIf .blockEnd then return []
    throw .malformed

/-- The items of a block sequence that is not indented. -/
def looseItems : (fuel : Nat) → Reader (List NodeId)
  | 0 => throw .malformed
  | fuel + 1 => do
    if ← takeIf .blockEntry then
      let item ← part .block endsLooseItem fuel
      return item :: (← looseItems fuel)
    return []

/-- The entries of a block mapping. -/
def entries : (fuel : Nat) → Reader (List (NodeId × NodeId))
  | 0 => throw .malformed
  | fuel + 1 => do
    if ← takeIf .key then
      let key ← part .underKey endsPart fuel
      let value ← if ← takeIf .value then part .underKey endsPart fuel else emptyNode
      return (key, value) :: (← entries fuel)
    if ← takeIf .blockEnd then return []
    throw .malformed

/-- The elements of a sequence in brackets.  A pair among them is a mapping of its own. -/
def elements (first : Bool) : (fuel : Nat) → Reader (List NodeId)
  | 0 => throw .malformed
  | fuel + 1 => do
    if !(← nextElement .sequenceEnd first) then return []
    let element ← if ← takeIf .key then do
        let id ← beginNode none
        finishNode id (.mapping .mapping [← pair .sequenceEnd fuel])
      else read .flow fuel
    return element :: (← elements false fuel)

/-- The pairs of a mapping in braces.  A key may stand without a value. -/
def pairs (first : Bool) : (fuel : Nat) → Reader (List (NodeId × NodeId))
  | 0 => throw .malformed
  | fuel + 1 => do
    if !(← nextElement .mappingEnd first) then return []
    let entry ← if ← takeIf .key then pair .mappingEnd fuel else do
        let key ← read .flow fuel
        pure (key, ← emptyNode)
    return entry :: (← pairs false fuel)

/-- A pair in brackets, after its key has been announced. -/
def pair (close : Token) : (fuel : Nat) → Reader (NodeId × NodeId)
  | 0 => throw .malformed
  | fuel + 1 => do
    let key ← part .flow (fun t => t = .value || endsElement close t) fuel
    let value ← if ← takeIf .value then part .flow (endsElement close) fuel else emptyNode
    return (key, value)

end

/-! ### Documents -/

/-- The directives in front of a document.  Each may be given once. -/
def directives (fuel : Nat) (versioned : Bool) (handles : List (String × String)) :
    Reader (List (String × String)) := do
  match fuel, ← next? with
  | fuel + 1, some (.directive d) =>
    skipToken
    match d with
    | .version major =>
      if versioned || major != 1 then throw .malformed
      directives fuel true handles
    | .tagHandle handle expansion =>
      if (handles.lookup handle).isSome then throw .malformed
      directives fuel versioned ((handle, expansion) :: handles)
    | .other => directives fuel versioned handles
  | _, _ => return handles

/-- The next token is the end of the stream or stands in front of a document's node. -/
def startsDocument : Option Token → Bool
  | none | some (.directive _) | some .documentStart | some .documentEnd => true
  | _ => false

/-- Takes all document ends that follow. -/
def skipDocumentEnds : (fuel : Nat) → Reader Unit
  | 0 => return
  | fuel + 1 => do
    if ← takeIf .documentEnd then skipDocumentEnds fuel

/-- The front of a document that announces itself.  The answer is `false` where the stream ends
instead. -/
def startDocument (fuel : Nat) : Reader Bool := do
  skipDocumentEnds fuel
  if (← next?).isNone then return false
  let handles ← directives fuel false []
  if !(← takeIf .documentStart) then throw .malformed
  modify fun input => { input with handles := handles ++ defaultHandles }
  return true

/-- The one document of a stream, if it has any. -/
def document (fuel : Nat) : Reader (Option NodeId) := do
  let root ← match ← next? with
    | none => pure none
    | some (.directive _) | some .documentStart =>
      if !(← startDocument fuel) then pure none
      else if startsDocument (← next?) then some <$> emptyNode
      else some <$> read .block fuel
    | _ => some <$> read .block fuel
  if root.isSome && (← startDocument fuel) then throw .malformed
  return root

end Graph

/-- The nodes of a text, if it holds a document. -/
def Graph.ofText (text : List Char) : Except YamlError (Option Graph) := do
  let stream := TokenStream.ofText text
  let (root, input) ← (document (3 * stream.tokens.length + 3)).run
    { stream, handles := defaultHandles }
  return root.map fun root => ⟨input.nodes, input.finished.reverse, root⟩

end RubyOutline.Yaml
