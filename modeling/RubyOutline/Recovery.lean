/-
RubyOutline/Recovery.lean

Where the grammar had to recover from an error: an `ERROR` node stands for source it could not
read, a missing node for a token it supplied itself.  `ParseNode.recoveries` collects the topmost
ones in source order.  It enters only children that carry a mark of recovery, which is enough
because the grammar marks every node above an error.
-/
import RubyOutline.ParseNode

namespace RubyOutline

/-- One recovery, at its first byte. -/
inductive Recovery
  | unread (start : Point) (length : Int)
  | supplied (kind : String) (start : Point)
deriving DecidableEq, Repr

namespace Recovery

/-- Lines and columns are shown from one. -/
def message (uri : String) : Recovery → String
  | .unread start length =>
    s!"Parse error in {uri}:{start.row + 1}:{start.column + 1} (len={length})"
  | .supplied kind start => s!"Missing '{kind}' in {uri}:{start.row + 1}:{start.column + 1}"

end Recovery

namespace ParseNode

/-- The recovery that a node itself stands for. -/
def recovery? (n : ParseNode) : Option Recovery :=
  if n.kind = "ERROR" then some (.unread n.span.start ((n.span.stopByte : Int) - n.span.startByte))
  else if n.label.missing then some (.supplied n.kind n.span.start)
  else none

/-- The children that carry a mark of recovery. -/
def markedChildren (n : ParseNode) : List ParseNode :=
  n.children.filter fun c => c.label.hasError || c.label.missing

theorem sizeOf_markedChildren_lt (n : ParseNode) : sizeOf n.markedChildren < sizeOf n :=
  Nat.lt_of_le_of_lt (sizeOf_filter_le _ _) n.sizeOf_children_lt

/-- The recoveries in the pending nodes, the next one first. -/
def recoveriesFrom : List ParseNode → List Recovery
  | [] => []
  | n :: pending =>
    match n.recovery? with
    | some r => r :: recoveriesFrom pending
    | none => recoveriesFrom (n.markedChildren ++ pending)
termination_by pending => sizeOf pending
decreasing_by
  · simp only [List.cons.sizeOf_spec]
    omega
  · exact sizeOf_append_lt n.sizeOf_markedChildren_lt

/-- The recoveries of a tree, if its root carries the mark of one. -/
def recoveries (root : ParseNode) : List Recovery :=
  if root.label.hasError then recoveriesFrom [root] else []

end ParseNode

end RubyOutline
