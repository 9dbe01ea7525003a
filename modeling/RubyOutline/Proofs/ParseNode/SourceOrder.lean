/-
RubyOutline/Proofs/ParseNode/SourceOrder.lean

Parse trees in source order: every node ends no earlier than it starts, and siblings are disjoint
and stand one after the other.  With nodes within their parents the order carries over from
siblings to whatever stands below them (`Precedes.of_mem_nodes`), so that whatever is collected
from the children of a node, one child after the other, is in source order if what is collected
from each child is (`pairwise_precedes_flatMap`).  The statements of a node are collected like
this.
-/
import RubyOutline.ParseNode.Statements
import RubyOutline.Proofs.ParseNode.SpansNested

namespace RubyOutline.ParseNode

/-- A node ends before another one starts. -/
def Precedes (a b : ParseNode) : Prop := a.span.inBytes.stop ≤ b.span.inBytes.start

instance (a b : ParseNode) : Decidable (a.Precedes b) :=
  inferInstanceAs (Decidable (a.span.inBytes.stop ≤ b.span.inBytes.start))

/-- Throughout a tree, nodes end no earlier than they start, and of two siblings the first precedes
the second. -/
def InSourceOrder (root : ParseNode) : Prop :=
  ∀ n ∈ root.nodes, n.span.inBytes.start ≤ n.span.inBytes.stop ∧ n.children.Pairwise Precedes

instance (root : ParseNode) : Decidable root.InSourceOrder :=
  inferInstanceAs (Decidable (∀ n ∈ root.nodes, _ ∧ n.children.Pairwise Precedes))

/-! ### Order below siblings -/

variable {root : ParseNode}

/-- What stands below a node precedes what stands below another one that the node precedes. -/
theorem Precedes.of_mem_nodes (hspans : root.SpansNested) {a b : ParseNode} (h : a.Precedes b)
    (ha : a ∈ root.nodes) (hb : b ∈ root.nodes) {m k : ParseNode} (hm : m ∈ a.nodes)
    (hk : k ∈ b.nodes) : m.Precedes k := by
  have hstop : m.span.inBytes.stop ≤ a.span.inBytes.stop := (hspans.contains ha hm).2
  have hstart : b.span.inBytes.start ≤ k.span.inBytes.start := (hspans.contains hb hk).1
  exact Position.le_trans hstop (Position.le_trans h hstart)

theorem pairwise_precedes_flatMap (hspans : root.SpansNested) {ns : List ParseNode}
    (hroot : ∀ n ∈ ns, n ∈ root.nodes) (hns : ns.Pairwise Precedes)
    {f : ParseNode → List ParseNode} (hbelow : ∀ n ∈ ns, ∀ m ∈ f n, m ∈ n.nodes)
    (hf : ∀ n ∈ ns, (f n).Pairwise Precedes) : (ns.flatMap f).Pairwise Precedes := by
  rw [List.pairwise_flatMap]
  refine ⟨hf, hns.imp_of_mem fun {a b} ha hb hab m hm k hk => ?_⟩
  exact hab.of_mem_nodes hspans (hroot a ha) (hroot b hb) (hbelow a ha m hm) (hbelow b hb k hk)

/-! ### Statements -/

theorem statementsOf_eq_flatMap (ns : List ParseNode) :
    statementsOf ns = (ns.filter (·.label.named)).flatMap statements := by
  induction ns with
  | nil => rfl
  | cons n ns ih =>
    rw [statementsOf, List.filter_cons]
    split
    · rw [List.flatMap_cons, ih]
    · exact ih

/-- The statements of some siblings are in order if those of each sibling are. -/
theorem pairwise_precedes_statementsOf_of (hspans : root.SpansNested) {ns : List ParseNode}
    (hroot : ∀ n ∈ ns, n ∈ root.nodes) (hns : ns.Pairwise Precedes)
    (hf : ∀ n ∈ ns, n.statements.Pairwise Precedes) : (statementsOf ns).Pairwise Precedes := by
  have hmem : ∀ n ∈ ns.filter (·.label.named), n ∈ ns := fun n hn => (List.mem_filter.1 hn).1
  rw [statementsOf_eq_flatMap]
  refine pairwise_precedes_flatMap hspans (fun n hn => hroot n (hmem n hn)) (hns.filter _) ?_ ?_
  · intro n _ m hm
    exact mem_nodes_of_mem_statements n hm
  · intro n hn
    exact hf n (hmem n hn)

theorem pairwise_precedes_statements (hspans : root.SpansNested) (horder : root.InSourceOrder)
    {n : ParseNode} (hn : n ∈ root.nodes) : n.statements.Pairwise Precedes := by
  induction n using descendants_induction with
  | step n ih =>
    rw [statements_eq]
    split
    · exact .nil
    · -- the statements of a body are those of its children
      refine pairwise_precedes_statementsOf_of hspans (fun c hc => mem_nodes_of_mem_children hn hc)
        (horder n hn).2 fun c hc => ?_
      exact ih c (mem_descendants_of_mem hc c.mem_nodes_self) (mem_nodes_of_mem_children hn hc)
    · exact List.pairwise_singleton _ _

theorem pairwise_precedes_statementsOf (hspans : root.SpansNested) (horder : root.InSourceOrder)
    {ns : List ParseNode} (hroot : ∀ n ∈ ns, n ∈ root.nodes) (hns : ns.Pairwise Precedes) :
    (statementsOf ns).Pairwise Precedes :=
  pairwise_precedes_statementsOf_of hspans hroot hns fun n hn =>
    pairwise_precedes_statements hspans horder (hroot n hn)

theorem pairwise_precedes_statementsExcept (hspans : root.SpansNested)
    (horder : root.InSourceOrder) {n : ParseNode} (hn : n ∈ root.nodes)
    (except : List (Option ParseNode)) : (n.statementsExcept except).Pairwise Precedes := by
  refine pairwise_precedes_statementsOf hspans horder (fun c hc => ?_) ((horder n hn).2.filter _)
  exact mem_nodes_of_mem_children hn (List.mem_filter.1 hc).1

end RubyOutline.ParseNode
