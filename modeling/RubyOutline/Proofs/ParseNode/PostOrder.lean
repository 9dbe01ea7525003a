/-
RubyOutline/Proofs/ParseNode/PostOrder.lean

The bottom-up order of a tree by recursion: `n.namedPostOrder` lists the nodes reached through
named children, those of the first child first and the node itself last.  The stack of pending
nodes visits a node before its children and the last child first, and the list of visited nodes is
built from its end, so together they give just this order (`postOrder_eq`).
-/
import RubyOutline.ParseNode

namespace RubyOutline.ParseNode

mutual

/-- The nodes reached through named children, every node after all those below it. -/
def namedPostOrder : ParseNode → List ParseNode
  | ⟨id, label, children⟩ => namedPostOrderOf children ++ [⟨id, label, children⟩]

/-- The nodes reached through the named nodes of a list. -/
def namedPostOrderOf : List ParseNode → List ParseNode
  | [] => []
  | n :: ns =>
    if n.label.named then n.namedPostOrder ++ namedPostOrderOf ns else namedPostOrderOf ns

end

theorem namedPostOrderOf_eq_flatMap (ns : List ParseNode) :
    namedPostOrderOf ns = (ns.filter (·.label.named)).flatMap namedPostOrder := by
  induction ns with
  | nil => rfl
  | cons n ns ih =>
    rw [namedPostOrderOf, List.filter_cons]
    split
    · rw [List.flatMap_cons, ih]
    · exact ih

theorem namedPostOrder_eq (n : ParseNode) :
    n.namedPostOrder = n.namedChildren.flatMap namedPostOrder ++ [n] := by
  cases n
  rw [namedPostOrder, namedPostOrderOf_eq_flatMap, namedChildren]

/-- The pending nodes are done from the last one to the first. -/
theorem postOrderFrom_eq (pending visited : List ParseNode) :
    postOrderFrom pending visited = pending.reverse.flatMap namedPostOrder ++ visited := by
  fun_induction postOrderFrom pending visited with
  | case1 visited => rfl
  | case2 n pending visited ih =>
    -- the children are pending in reverse, and the reversed list of pending nodes ends with them
    rw [ih, List.reverse_append, List.reverse_reverse, List.flatMap_append, List.reverse_cons,
      List.flatMap_append, List.flatMap_singleton, namedPostOrder_eq n]
    simp only [List.append_assoc, List.singleton_append]

theorem postOrder_eq (root : ParseNode) : root.postOrder = root.namedPostOrder := by
  rw [postOrder, postOrderFrom_eq, List.reverse_singleton, List.flatMap_singleton,
    List.append_nil]

theorem mem_nodes_of_mem_namedPostOrder {n m : ParseNode} (h : m ∈ n.namedPostOrder) :
    m ∈ n.nodes := by
  induction n using descendants_induction with
  | step n ih =>
    rw [namedPostOrder_eq, List.mem_append, List.mem_singleton] at h
    rcases h with h | rfl
    · obtain ⟨c, hc, hm⟩ := List.mem_flatMap.1 h
      have hcn : c ∈ n.children := mem_of_mem_namedChildren hc
      have hmc : m ∈ c.nodes := ih c (mem_descendants_of_mem hcn c.mem_nodes_self) hm
      exact mem_nodes_of_mem_descendants (mem_descendants_of_mem hcn hmc)
    · exact mem_nodes_self _

end RubyOutline.ParseNode
