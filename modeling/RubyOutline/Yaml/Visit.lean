/-
RubyOutline/Yaml/Visit.lean

The value of a document.

Which fault of a document is found first depends on the order in which its nodes are visited.  A
scalar is read as soon as it is visited.  A collection is only put into a queue then, and its parts
are visited when its turn comes; so all scalars of the root come before those further down.  A node
is visited only once, however many aliases lead to it.  The entry `<<` of a mapping merges the
entries of other mappings, which stand before the mapping's own and give way to them; this happens
when the mapping's turn comes.

Once all nodes have been visited, values are put together from the parts.  A node that holds
itself has no finite value, and is unfolded as far as `unfoldings` says.
-/
import RubyOutline.Yaml.Node

namespace RubyOutline.Yaml

/-- A document of which some nodes have been visited. -/
structure Visit where
  nodes : Array Node
  /-- The values of the scalars visited so far. -/
  scalars : Array (Option Value)
  visited : Array Bool
  /-- The collections whose turn has not come, last one first. -/
  waiting : List NodeId := []

namespace Visit

abbrev Visitor := StateT Visit (Except YamlError)

def node (id : NodeId) : Visitor Node := do
  return (← get).nodes.getD id default

def setNode (id : NodeId) (n : Node) : Visitor Unit :=
  modify fun c => { c with nodes := c.nodes.setIfInBounds id n }

/-! ### Scalars -/

/-- The text of a scalar.  A mapping stands for the scalar under its value key. -/
def scalarText : (fuel : Nat) → NodeId → Visitor Text.Codes
  | 0, _ => throw .malformed
  | fuel + 1, id => do
    match ← node id with
    | .scalar _ text => return text
    | .sequence _ _ => throw .malformed
    | .mapping _ entries =>
      match ← entries.findM? fun (key, _) => return (← node key).type = .valueKey with
      | some (_, value) => scalarText fuel value
      | none => throw .malformed

/-- The value of a node as a scalar of a type. -/
def scalarValue (type : NodeType) (id : NodeId) : Visitor Value := do
  let text ← scalarText ((← get).nodes.size + 1) id
  match type with
  | .null => return .null
  | .bool => .bool <$> boolOfText text
  | .int => .int <$> intOfText text
  | .float => .float <$> floatOfText text
  | .binary => .bytes <$> bytesOfText text
  | .timestamp =>
    match ← node id with
    | .scalar _ _ => dateOfText text
    | _ => throw .notText
  | .text => return .ofCodes text
  | _ => throw .malformed

/-- Visits a node. -/
def visit (id : NodeId) : Visitor Unit := do
  if (← get).visited.getD id true then return
  let type := (← node id).type
  if type.isHashable then
    let v ← scalarValue type id
    modify fun c =>
      { c with
        visited := c.visited.setIfInBounds id true
        scalars := c.scalars.setIfInBounds id (some v) }
  else
    modify fun c =>
      { c with visited := c.visited.setIfInBounds id true, waiting := id :: c.waiting }

/-! ### Merging -/

/-- Makes the key of an entry a string, if it is a value key. -/
def settleKey (key : NodeId) : Visitor Unit := do
  if let .scalar .valueKey text ← node key then setNode key (.scalar .text text)

mutual

/-- The entries of a mapping, after those that it asks for have been merged in. -/
def merge : (fuel : Nat) → NodeId → Visitor (List (NodeId × NodeId))
  | 0, _ => throw .malformed
  | fuel + 1, id => do
    let .mapping type entries ← node id | throw .malformed
    let (asked, own) ← entries.partitionM fun (key, _) => return (← node key).type = .mergeKey
    own.forM fun (key, _) => settleKey key
    if asked.isEmpty then return own
    setNode id (.mapping type own)
    let merged ← asked.mapM fun (_, value) => mergedEntries fuel value
    let all := merged.flatten ++ own
    setNode id (.mapping type all)
    return all

/-- The entries that a merged node brings in.  Of several mappings the first wins. -/
def mergedEntries : (fuel : Nat) → NodeId → Visitor (List (NodeId × NodeId))
  | 0, _ => throw .malformed
  | fuel + 1, id => do
    match ← node id with
    | .sequence _ items => return (← items.mapM (merge fuel)).reverse.flatten
    | _ => merge fuel id

end

/-! ### Collections -/

def visitEntry (key value : NodeId) : Visitor Unit := do
  visit key
  if !(← node key).type.isHashable then throw .malformed
  visit value

/-- Visits the parts of a collection. -/
def visitParts (id : NodeId) : Visitor Unit := do
  let n ← node id
  match n.type, n with
  | .sequence, .sequence _ items => items.forM visit
  | .orderedMap, .sequence _ items | .pairs, .sequence _ items =>
    items.forM fun item => do
      let .mapping _ [(key, value)] ← node item | throw .malformed
      visit key
      visit value
  | .mapping, .mapping _ _ | .set, .mapping _ _ =>
    (← merge (2 * (← get).nodes.size + 2) id).forM fun (key, value) => visitEntry key value
  | _, _ => throw .malformed

/-- Takes the collections that wait, and then those that have come to wait meanwhile. -/
def visitWaiting : (fuel : Nat) → Visitor Unit
  | 0 => return
  | fuel + 1 => do
    let waiting := (← get).waiting.reverse
    if waiting.isEmpty then return
    modify fun c => { c with waiting := [] }
    waiting.forM visitParts
    visitWaiting fuel

/-- Visits all nodes of a graph. -/
def visitAll (g : Graph) : Except YamlError Visit := do
  let count := g.nodes.size
  let start : Visit := ⟨g.nodes, Array.replicate count none, Array.replicate count false, []⟩
  let (_, c) ← (do visit g.root; visitWaiting (count + 1) : Visitor Unit).run start
  return c

/-! ### Values -/

/-- A node without its parts. -/
def hollow (n : Node) : Value :=
  match n.type with
  | .sequence | .orderedMap | .pairs => .list []
  | .mapping => .map []
  | .set => .set []
  | _ => .null

/-- The value of a node, put together from the values of its parts. -/
def assemble (c : Visit) (values : Array Value) (id : NodeId) : Value :=
  let part (id : NodeId) := values.getD id .null
  let pair (id : NodeId) : Value :=
    match c.nodes.getD id default with
    | .mapping _ [(key, value)] => .list [part key, part value]
    | _ => .null
  match c.scalars.getD id none, c.nodes.getD id default with
  | some v, _ => v
  | none, .scalar _ _ => .null
  | none, .sequence type items => .list (items.map (if type = .sequence then part else pair))
  | none, .mapping type entries =>
    let written := Value.writtenEntries (entries.map fun (key, value) => (part key, part value))
    if type = .set then .set (written.map (·.1)) else .map written

/-- How often a node is unfolded within itself. -/
def unfoldings : Nat := 5

/-- The value of a graph's root.  A node comes after its parts, save where it holds itself. -/
def valueOf (c : Visit) (g : Graph) : Value :=
  let assembleAll (values : Array Value) : Array Value :=
    g.finished.foldl (fun values id => values.setIfInBounds id (c.assemble values id)) values
  (Nat.repeat assembleAll unfoldings (c.nodes.map hollow)).getD g.root .null

end Visit

/-- The value that a YAML text writes.  A text without a document writes null. -/
def load (text : List Char) : Except YamlError Value := do
  match ← Graph.ofText text with
  | none => return .null
  | some g => return (← Visit.visitAll g).valueOf g

end RubyOutline.Yaml
