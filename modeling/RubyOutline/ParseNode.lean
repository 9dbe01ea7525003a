/-
RubyOutline/ParseNode.lean

The parse tree of a Ruby source as a grammar delivers it, with all its punctuation.  A node has a
kind, the bytes and points it spans, whether it is named (not mere punctuation), the two marks of
error recovery, and the field of its parent that it fills.  Its `id` tells it from all other
nodes of its tree.

A tree can be written as a table of rows in pre-order (`ParseNode.ofTable`); the ids are then the
row numbers.
-/
import RubyOutline.ParentTable
import RubyOutline.Sizes

namespace RubyOutline

/-- A row and a byte column. -/
structure Point where
  row : Nat
  column : Nat
deriving DecidableEq, Repr, Inhabited

/-- The stretch of source a node covers. -/
structure Span where
  startByte : Nat
  start : Point
  stopByte : Nat
  stop : Point
deriving DecidableEq, Repr, Inhabited

/-- What a parse node is apart from its place in the tree. -/
structure ParseLabel where
  kind : String
  span : Span
  named : Bool
  hasError : Bool
  missing : Bool
  field : Option String
deriving DecidableEq, Repr, Inhabited

structure ParseNode where
  id : Nat
  label : ParseLabel
  children : List ParseNode
deriving Inhabited

namespace ParseNode

def kind (n : ParseNode) : String := n.label.kind
def span (n : ParseNode) : Span := n.label.span

def namedChildren (n : ParseNode) : List ParseNode :=
  n.children.filter (·.label.named)

/-- The first child, named or not, that fills a field. -/
def child? (n : ParseNode) (field : String) : Option ParseNode :=
  n.children.find? (·.label.field == some field)

/-- The first child, named or not, of a kind. -/
def childOfKind? (n : ParseNode) (kind : String) : Option ParseNode :=
  n.children.find? (·.kind == kind)

theorem mem_of_child? {n c : ParseNode} {field : String} (h : n.child? field = some c) :
    c ∈ n.children :=
  List.mem_of_find?_eq_some h

theorem mem_of_mem_namedChildren {n c : ParseNode} (h : c ∈ n.namedChildren) : c ∈ n.children :=
  (List.mem_filter.1 h).1

theorem sizeOf_children_lt (n : ParseNode) : sizeOf n.children < sizeOf n := by
  cases n
  simp only [mk.sizeOf_spec]
  omega

theorem sizeOf_lt_of_mem {n c : ParseNode} (h : c ∈ n.children) : sizeOf c < sizeOf n :=
  Nat.lt_trans (List.sizeOf_lt_of_mem h) n.sizeOf_children_lt

/-! ### All nodes of a tree -/

mutual

/-- A node and all those below it, in pre-order. -/
def nodes : ParseNode → List ParseNode
  | ⟨id, label, children⟩ => ⟨id, label, children⟩ :: nodesOf children

/-- The nodes of the trees of a list, one tree after the other. -/
def nodesOf : List ParseNode → List ParseNode
  | [] => []
  | n :: ns => n.nodes ++ nodesOf ns

end

/-- The nodes below a node, in pre-order. -/
def descendants (n : ParseNode) : List ParseNode := nodesOf n.children

theorem nodes_eq (n : ParseNode) : n.nodes = n :: n.descendants := by
  cases n
  rw [nodes, descendants]

theorem mem_nodes_self (n : ParseNode) : n ∈ n.nodes := by
  rw [nodes_eq]
  exact List.mem_cons_self

theorem mem_nodes_of_mem_descendants {n m : ParseNode} (h : m ∈ n.descendants) : m ∈ n.nodes := by
  rw [nodes_eq]
  exact List.mem_cons_of_mem _ h

theorem mem_nodesOf {ns : List ParseNode} {m : ParseNode} :
    m ∈ nodesOf ns ↔ ∃ n ∈ ns, m ∈ n.nodes := by
  induction ns with
  | nil => simp [nodesOf]
  | cons n ns ih => simp [nodesOf, ih]

theorem mem_descendants_of_mem {n c m : ParseNode} (hc : c ∈ n.children) (hm : m ∈ c.nodes) :
    m ∈ n.descendants :=
  mem_nodesOf.2 ⟨c, hc, hm⟩

mutual

theorem sizeOf_le_of_mem_nodes {m : ParseNode} :
    (n : ParseNode) → m ∈ n.nodes → sizeOf m ≤ sizeOf n
  | ⟨id, label, children⟩, h => by
    rw [nodes] at h
    rcases List.mem_cons.1 h with rfl | h
    · exact Nat.le_refl _
    · have := sizeOf_lt_of_mem_nodesOf children h
      simp only [mk.sizeOf_spec]
      omega

theorem sizeOf_lt_of_mem_nodesOf {m : ParseNode} :
    (ns : List ParseNode) → m ∈ nodesOf ns → sizeOf m < sizeOf ns
  | [], h => by simp [nodesOf] at h
  | n :: ns, h => by
    rw [nodesOf] at h
    simp only [List.cons.sizeOf_spec]
    rcases List.mem_append.1 h with h | h
    · have := sizeOf_le_of_mem_nodes n h
      omega
    · have := sizeOf_lt_of_mem_nodesOf ns h
      omega

end

theorem sizeOf_lt_of_mem_descendants {n m : ParseNode} (h : m ∈ n.descendants) :
    sizeOf m < sizeOf n :=
  Nat.lt_trans (sizeOf_lt_of_mem_nodesOf _ h) n.sizeOf_children_lt

/-- What holds of a node whenever it holds of all nodes below it holds of every node. -/
@[elab_as_elim]
theorem descendants_induction {motive : ParseNode → Prop}
    (step : ∀ n : ParseNode, (∀ m ∈ n.descendants, motive m) → motive n) (n : ParseNode) :
    motive n :=
  step n fun m _ => descendants_induction step m
termination_by sizeOf n
decreasing_by exact sizeOf_lt_of_mem_descendants ‹_›

/-- The nodes below a node's descendant are descendants as well. -/
theorem mem_nodes_trans {n m k : ParseNode} (hm : m ∈ n.nodes) (hk : k ∈ m.nodes) :
    k ∈ n.nodes := by
  induction n using descendants_induction with
  | step n ih =>
    rw [nodes_eq, List.mem_cons] at hm
    rcases hm with rfl | hm
    · exact hk
    · obtain ⟨c, hc, hmc⟩ := mem_nodesOf.1 hm
      have hcn : c ∈ n.descendants := mem_descendants_of_mem hc c.mem_nodes_self
      exact mem_nodes_of_mem_descendants (mem_descendants_of_mem hc (ih c hcn hmc))

theorem mem_descendants_trans {n m k : ParseNode} (hm : m ∈ n.descendants) (hk : k ∈ m.nodes) :
    k ∈ n.descendants := by
  obtain ⟨c, hc, hmc⟩ := mem_nodesOf.1 hm
  exact mem_descendants_of_mem hc (mem_nodes_trans hmc hk)

theorem mem_descendants_of_mem_children {root n c : ParseNode} (hn : n ∈ root.nodes)
    (hc : c ∈ n.children) : c ∈ root.descendants := by
  have hbelow : c ∈ n.descendants := mem_descendants_of_mem hc c.mem_nodes_self
  rw [nodes_eq, List.mem_cons] at hn
  rcases hn with rfl | hn
  · exact hbelow
  · exact mem_descendants_trans hn (mem_nodes_of_mem_descendants hbelow)

theorem mem_nodes_of_mem_children {root n c : ParseNode} (hn : n ∈ root.nodes)
    (hc : c ∈ n.children) : c ∈ root.nodes :=
  mem_nodes_of_mem_descendants (mem_descendants_of_mem_children hn hc)

/-- The ids of a tree tell its nodes from one another. -/
def DistinctIds (root : ParseNode) : Prop := (root.nodes.map (·.id)).Nodup

instance (root : ParseNode) : Decidable root.DistinctIds :=
  inferInstanceAs (Decidable (List.Nodup _))

/-! ### Bottom-up order -/

theorem sizeOf_namedChildren_lt (n : ParseNode) : sizeOf n.namedChildren < sizeOf n :=
  Nat.lt_of_le_of_lt (sizeOf_filter_le _ _) n.sizeOf_children_lt

/-- The nodes still to be visited, the next one first, and those already visited, the last one
first.  The last child of a node is visited before the others. -/
def postOrderFrom : List ParseNode → List ParseNode → List ParseNode
  | [], visited => visited
  | n :: pending, visited =>
    postOrderFrom (n.namedChildren.reverse ++ pending) (n :: visited)
termination_by pending => sizeOf pending
decreasing_by
  refine sizeOf_append_lt ?_
  rw [sizeOf_reverse]
  exact n.sizeOf_namedChildren_lt

/-- The nodes reached through named children, every node after all those below it. -/
def postOrder (root : ParseNode) : List ParseNode :=
  postOrderFrom [root] []

/-! ### Tables -/

/-- A row of a tree written as a table, with the number of the row it hangs under. -/
structure Row where
  label : ParseLabel
  parent : Option Nat
deriving DecidableEq, Repr, Inhabited

/-- The tree of a table in pre-order: the first row that hangs under no other. -/
def ofTable (table : Array Row) : Option ParseNode :=
  (ParentTable.hang 1 (fun row : Row => row.parent.elim 0 (· + 1))
    (fun i row children => ⟨i, row.label, children⟩) table)[0]?.bind (·.head?)

end ParseNode

end RubyOutline
