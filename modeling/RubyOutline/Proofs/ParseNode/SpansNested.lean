/-
RubyOutline/Proofs/ParseNode/SpansNested.lean

Parse trees whose nodes lie within their parents.  Points are compared as the positions they are
in bytes, so that rows come before columns and containment is that of ranges.  Named nodes and
punctuation alike are asked to lie within their parents; bytes and points need not agree.
-/
import RubyOutline.ParseNode
import RubyOutline.Position

namespace RubyOutline

/-- A point as a position counted in bytes. -/
def Point.inBytes (p : Point) : Position := ⟨p.row, p.column⟩

/-- The points of a span as a range counted in bytes. -/
def Span.inBytes (s : Span) : SourceRange := ⟨s.start.inBytes, s.stop.inBytes⟩

namespace ParseNode

/-- Throughout a tree, nodes lie within their parents. -/
def SpansNested (root : ParseNode) : Prop :=
  ∀ n ∈ root.nodes, ∀ c ∈ n.children, n.span.inBytes.Contains c.span.inBytes

instance (root : ParseNode) : Decidable root.SpansNested :=
  inferInstanceAs (Decidable (∀ n ∈ root.nodes, ∀ c ∈ n.children, _))

/-- Whatever stands below a node, however deep, lies within it. -/
theorem SpansNested.contains {root n m : ParseNode} (h : root.SpansNested) (hn : n ∈ root.nodes)
    (hm : m ∈ n.nodes) : n.span.inBytes.Contains m.span.inBytes := by
  induction n using descendants_induction with
  | step n ih =>
    rw [nodes_eq, List.mem_cons] at hm
    rcases hm with rfl | hm
    · exact .refl _
    · obtain ⟨c, hc, hmc⟩ := mem_nodesOf.1 hm
      have hbelow : c ∈ n.descendants := mem_descendants_of_mem hc c.mem_nodes_self
      exact (h n hn c hc).trans (ih c hbelow (mem_nodes_of_mem_children hn hc) hmc)

end ParseNode

end RubyOutline
