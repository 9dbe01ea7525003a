/-
RubyOutline/Proofs/ParseNode/ChildrenFirst.lean

What the bottom-up order of a tree promises.  It holds every node that is reached from the root
through named children (`mem_postOrder_iff`), no id twice (`nodup_postOrder`), and in it every node
comes after its named children (`childrenFirst_postOrder`).

`ChildrenFirst` is said of a list as it grows at its end: what is added finds its named children in
front of it.  So it holds of the nodes that a walk has done at any moment, and by going down child
by child everything that is reached below a node stands in front of the node
(`ChildrenFirst.mem_of_transGen`).
-/
import Mathlib.Data.List.Flatten
import Mathlib.Logic.Relation
import RubyOutline.Proofs.ParseNode.DistinctIds
import RubyOutline.Proofs.ParseNode.PostOrder
import RubyOutline.Proofs.ParseNode.SourceOrder

namespace RubyOutline.ParseNode

/-! ### Named children -/

/-- A node is a named child of another one. -/
def HasNamedChild (p c : ParseNode) : Prop := c ∈ p.namedChildren

/-- A node is reached from another one through named children. -/
abbrev ReachesNamed : ParseNode → ParseNode → Prop := Relation.ReflTransGen HasNamedChild

/-- A node is reached from another one through named children, in one step at least. -/
abbrev ReachesBelow : ParseNode → ParseNode → Prop := Relation.TransGen HasNamedChild

theorem mem_namedPostOrder_self (n : ParseNode) : n ∈ n.namedPostOrder := by
  rw [namedPostOrder_eq]
  exact List.mem_append_right _ List.mem_cons_self

theorem mem_namedPostOrder_of_child {n c m : ParseNode} (hc : c ∈ n.namedChildren)
    (hm : m ∈ c.namedPostOrder) : m ∈ n.namedPostOrder := by
  rw [namedPostOrder_eq]
  exact List.mem_append_left _ (List.mem_flatMap.2 ⟨c, hc, hm⟩)

/-- The order holds what is reached, and nothing else. -/
theorem mem_namedPostOrder_iff {n m : ParseNode} : m ∈ n.namedPostOrder ↔ n.ReachesNamed m := by
  constructor
  · intro h
    induction n using descendants_induction with
    | step n ih =>
      rw [namedPostOrder_eq, List.mem_append, List.mem_singleton] at h
      rcases h with h | rfl
      · obtain ⟨c, hc, hm⟩ := List.mem_flatMap.1 h
        have hbelow : c ∈ n.descendants :=
          mem_descendants_of_mem (mem_of_mem_namedChildren hc) c.mem_nodes_self
        exact .head hc (ih c hbelow hm)
      · exact .refl
  · intro h
    induction h using Relation.ReflTransGen.head_induction_on with
    | refl => exact mem_namedPostOrder_self m
    | head hc _ ih => exact mem_namedPostOrder_of_child hc ih

theorem mem_postOrder_iff {root m : ParseNode} : m ∈ root.postOrder ↔ root.ReachesNamed m := by
  rw [postOrder_eq]
  exact mem_namedPostOrder_iff

/-! ### No node twice -/

/-- The order is a selection of the nodes of the tree. -/
theorem namedPostOrder_subperm (n : ParseNode) : n.namedPostOrder.Subperm n.nodes := by
  induction n using descendants_induction with
  | step n ih =>
    have hnamed : (n.namedChildren.flatMap nodes).Sublist n.descendants := by
      rw [descendants, nodesOf_eq_flatMap]
      exact List.filter_sublist.flatMap nodes
    have hbelow : (n.namedChildren.flatMap namedPostOrder).Subperm n.descendants := by
      refine (flatMap_subperm_flatMap_nodes fun c hc => ?_).trans hnamed.subperm
      exact ih c (mem_descendants_of_mem (mem_of_mem_namedChildren hc) c.mem_nodes_self)
    -- the node itself stands last here and first there
    rw [namedPostOrder_eq, nodes_eq]
    exact List.perm_append_comm.subperm.trans ((List.subperm_cons n).2 hbelow)

theorem nodup_postOrder {root : ParseNode} (hids : root.DistinctIds) :
    (root.postOrder.map (·.id)).Nodup := by
  rw [postOrder_eq]
  exact hids.nodup_of_subperm root.namedPostOrder_subperm

/-! ### Children first -/

/-- A list in which every node comes after its named children. -/
inductive ChildrenFirst : List ParseNode → Prop
  | nil : ChildrenFirst []
  | concat {order : List ParseNode} {n : ParseNode} (h : ChildrenFirst order)
      (hchildren : n.namedChildren ⊆ order) : ChildrenFirst (order ++ [n])

namespace ChildrenFirst

theorem append {xs ys : List ParseNode} (hxs : ChildrenFirst xs) (hys : ChildrenFirst ys) :
    ChildrenFirst (xs ++ ys) := by
  induction hys with
  | nil =>
    rw [List.append_nil]
    exact hxs
  | concat _ hchildren ih =>
    rw [← List.append_assoc]
    exact ih.concat (List.Subset.trans hchildren (List.subset_append_right xs _))

theorem flatMap {ns : List ParseNode} {f : ParseNode → List ParseNode}
    (h : ∀ n ∈ ns, ChildrenFirst (f n)) : ChildrenFirst (ns.flatMap f) := by
  induction ns with
  | nil => exact .nil
  | cons n ns ih =>
    obtain ⟨hn, hns⟩ := List.forall_mem_cons.1 h
    rw [List.flatMap_cons]
    exact hn.append (ih hns)

/-- At the moment when a node is done its named children are done. -/
theorem subset_of_eq {order before after : List ParseNode} {n : ParseNode}
    (h : ChildrenFirst order) (hsplit : order = before ++ n :: after) :
    n.namedChildren ⊆ before := by
  induction h generalizing after with
  | nil => simp at hsplit
  | concat _ hchildren ih =>
    rcases List.eq_nil_or_concat after with rfl | ⟨rest, last, rfl⟩
    · obtain ⟨rfl, hlast⟩ := List.append_inj' hsplit rfl
      cases hlast
      exact hchildren
    · rw [List.concat_eq_append, ← List.cons_append, ← List.append_assoc] at hsplit
      exact ih (List.append_inj' hsplit rfl).1

/-- At the moment when a node is done whatever is reached below it is done. -/
theorem mem_of_transGen {order before after : List ParseNode} {n m : ParseNode}
    (h : ChildrenFirst order) (hsplit : order = before ++ n :: after) (hm : n.ReachesBelow m) :
    m ∈ before := by
  induction hm using Relation.TransGen.head_induction_on generalizing before after with
  | single hc => exact h.subset_of_eq hsplit hc
  | head hc _ ih =>
    -- the child stands further in front, and what is below it still further
    obtain ⟨before', between, rfl⟩ := List.append_of_mem (h.subset_of_eq hsplit hc)
    rw [List.append_assoc, List.cons_append] at hsplit
    exact List.mem_append_left _ (ih hsplit)

end ChildrenFirst

theorem childrenFirst_namedPostOrder (n : ParseNode) : ChildrenFirst n.namedPostOrder := by
  induction n using descendants_induction with
  | step n ih =>
    rw [namedPostOrder_eq]
    refine .concat (.flatMap fun c hc => ?_) fun c hc => ?_
    · exact ih c (mem_descendants_of_mem (mem_of_mem_namedChildren hc) c.mem_nodes_self)
    · exact List.mem_flatMap.2 ⟨c, hc, mem_namedPostOrder_self c⟩

theorem childrenFirst_postOrder (root : ParseNode) : ChildrenFirst root.postOrder := by
  rw [postOrder_eq]
  exact childrenFirst_namedPostOrder root

/-! ### Statements -/

/-- The statements that a node stands for are reached from it. -/
theorem reachesNamed_of_mem_statements {n m : ParseNode} (h : m ∈ n.statements) :
    n.ReachesNamed m := by
  induction n using descendants_induction with
  | step n ih =>
    rw [statements_eq] at h
    split at h
    · cases h
    · rw [statementsOf_eq_flatMap] at h
      obtain ⟨c, hc, hm⟩ := List.mem_flatMap.1 h
      have hbelow : c ∈ n.descendants :=
        mem_descendants_of_mem (mem_of_mem_namedChildren hc) c.mem_nodes_self
      exact .head hc (ih c hbelow hm)
    · obtain rfl := List.mem_singleton.1 h
      exact .refl

theorem reachesBelow_of_mem_statementsOf {n m : ParseNode} (h : m ∈ statementsOf n.children) :
    n.ReachesBelow m := by
  rw [statementsOf_eq_flatMap] at h
  obtain ⟨c, hc, hm⟩ := List.mem_flatMap.1 h
  exact .head' hc (reachesNamed_of_mem_statements hm)

/-- The statements of a node are reached below it, whatever is left out. -/
theorem reachesBelow_of_mem_statementsExcept {n m : ParseNode} {except : List (Option ParseNode)}
    (h : m ∈ n.statementsExcept except) : n.ReachesBelow m := by
  rw [statementsExcept, statementsOf_eq_flatMap] at h
  obtain ⟨c, hc, hm⟩ := List.mem_flatMap.1 h
  obtain ⟨hkept, hnamed⟩ := List.mem_filter.1 hc
  have hchild : c ∈ n.namedChildren := List.mem_filter.2 ⟨(List.mem_filter.1 hkept).1, hnamed⟩
  exact .head' hchild (reachesNamed_of_mem_statements hm)

end RubyOutline.ParseNode
