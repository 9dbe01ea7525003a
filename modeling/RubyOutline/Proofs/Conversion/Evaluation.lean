/-
RubyOutline/Proofs/Conversion/Evaluation.lean

Conversions of given trees, computed.  The conversion is by recursion on what stands below a node
and does not unfold by itself; `Converter.convertWithin` counts down a bound instead, and is the
same for every tree of no more nodes than the bound (`Converter.convert_eq_convertWithin`).  So the
conversion of a given tree, and with it its outline, can be left to `decide`.
-/
import RubyOutline.Proofs.Outline.Walk
import RubyOutline.Proofs.ParseNode.DistinctIds
import RubyOutline.Proofs.SyntaxNode.Map

namespace RubyOutline

namespace ParseNode

/-- Below a node there are fewer nodes than with it. -/
theorem length_nodes_lt_of_mem_descendants {n m : ParseNode} (h : m ∈ n.descendants) :
    m.nodes.length < n.nodes.length := by
  induction n using descendants_induction with
  | step n ih =>
    obtain ⟨c, hc, hm⟩ := mem_nodesOf.1 h
    have hle : m.nodes.length ≤ c.nodes.length := by
      rw [nodes_eq c, List.mem_cons] at hm
      rcases hm with rfl | hm
      · exact Nat.le_refl _
      · exact Nat.le_of_lt (ih c (mem_descendants_of_mem hc c.mem_nodes_self) hm)
    have hsub : c.nodes.length ≤ n.descendants.length := (nodes_sublist_descendants hc).length_le
    rw [nodes_eq n, List.length_cons]
    omega

/-- A node in a source of one line, from one column to another.  An empty one was supplied by the
grammar, and marks whatever it stands in. -/
def inLine (id : Nat) (kind : String) (start stop : Nat) (field : Option String)
    (children : List ParseNode) : ParseNode :=
  ⟨id, ⟨kind, ⟨start, ⟨0, start⟩, stop, ⟨0, stop⟩⟩, true,
    start == stop || children.any (·.label.hasError), start == stop, field⟩, children⟩

end ParseNode

namespace Converter

open ParseNode

/-- A node from one byte, row and column to another. -/
def spanning (id : Nat) (kind : String) (start stop : Nat × Nat × Nat) (field : Option String)
    (children : List ParseNode) : ParseNode :=
  ⟨id, ⟨kind, ⟨start.1, ⟨start.2.1, start.2.2⟩, stop.1, ⟨stop.2.1, stop.2.2⟩⟩, true, false, false,
    field⟩, children⟩

/-- The conversion of a tree of no more nodes than the bound. -/
def convertWithin (cv : Converter) : Nat → ParseNode → SyntaxNode
  | 0, n => ⟨cv.range n, .other n.kind []⟩
  | bound + 1, n =>
    ⟨cv.range n, (cv.layer (fun _ => none) n).map (cv.convertWithin bound)
      fun b => ⟨cv.range b, .block ((blockBody b).map (cv.convertWithin bound))⟩⟩

theorem convert_eq_convertWithin (cv : Converter) (bound : Nat) {n : ParseNode}
    (h : n.nodes.length ≤ bound) : cv.convert n = cv.convertWithin bound n := by
  induction bound generalizing n with
  | zero =>
    rw [nodes_eq, List.length_cons] at h
    omega
  | succ bound ih =>
    have hbelow : ∀ m ∈ n.descendants, cv.convert m = cv.convertWithin bound m := fun m hm =>
      ih (by have := length_nodes_lt_of_mem_descendants hm; omega)
    rw [convert_eq_map, convertWithin]
    refine congrArg (SyntaxNode.mk (cv.range n)) (Form.map_congr ?_ ?_)
    · intro c hc
      exact hbelow c (mem_descendants_of_mem_holes hc)
    · intro b hb
      have hb : b ∈ n.descendants := mem_descendants_of_mem_holes hb
      rw [convertBlock]
      congr 2
      refine List.map_congr_left fun c hc => hbelow c ?_
      exact mem_descendants_of_mem_blockBody_below hb hc

/-- The outline of a given tree, in a form that computes. -/
theorem outline_convertTree_eq (cv : Converter) (table : MacroTable) (bound : Nat)
    {root : ParseNode} (hids : root.DistinctIds) (h : root.nodes.length ≤ bound) :
    outline table (cv.convertTree root) = (cv.convertWithin bound root).symbols table none := by
  rw [convertTree_eq hids, outline_eq, cv.convert_eq_convertWithin bound h]

end Converter

end RubyOutline
