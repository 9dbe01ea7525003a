/-
RubyOutline/Conversion.lean

From parse trees to syntax trees.  Whatever is attached to a call as its block becomes a block.  The
whole conversion follows from its layers in two ways:

* `Converter.convert` fills every hole of a layer by converting it, from the top down;
* `Converter.convertTree` goes through the named nodes bottom-up (`ParseNode.postOrder`), keeps
  every result in a memo under the node's id, and looks up the holes there.  A hole that the memo
  lacks, because the node in it is not named, is converted on the spot.
-/
import RubyOutline.Conversion.Layer
import Std.Data.HashMap

namespace RubyOutline

namespace Converter

variable (cv : Converter)

/-! ### Top down -/

/-- The syntax tree of a parse tree, every hole converted in its turn. -/
def convert (n : ParseNode) : SyntaxNode :=
  ⟨cv.range n, (cv.layer (fun _ => none) n).mapHoles (fun c _ => convert c) fun b _hb =>
    ⟨cv.range b, .block ((blockBody b).pmap (fun c _ => convert c) fun _ h => h)⟩⟩
termination_by sizeOf n
decreasing_by
  · exact sizeOf_lt_of_mem_holes ‹_›
  · exact Nat.lt_trans (sizeOf_lt_of_mem_blockBody ‹_›) (sizeOf_lt_of_mem_holes _hb)

/-! ### Bottom up -/

/-- Results under the ids of their nodes. -/
abbrev Memo := Std.HashMap Nat SyntaxNode

/-- The conversion of a node whose holes are looked up first.  A block of a call is converted
again, since in the memo it need not be a block; what stands in it is looked up. -/
def convertWith (memo : Memo) (n : ParseNode) : SyntaxNode :=
  ⟨cv.range n, (cv.layer (fun c => memo[c.id]?) n).mapHoles
    (fun c _ => memo[c.id]?.getD (convertWith memo c))
    fun b _hb => ⟨cv.range b, .block ((blockBody b).pmap
      (fun c _ => memo[c.id]?.getD (convertWith memo c)) fun _ h => h)⟩⟩
termination_by sizeOf n
decreasing_by
  · exact sizeOf_lt_of_mem_holes ‹_›
  · exact Nat.lt_trans (sizeOf_lt_of_mem_blockBody ‹_›) (sizeOf_lt_of_mem_holes _hb)

/-- The results of some nodes, each converted with the results of those before it. -/
def memoAfter (nodes : List ParseNode) : Memo :=
  nodes.foldl (fun memo n => memo.insert n.id (cv.convertWith memo n)) ∅

/-- All results of a tree, under the ids of their nodes. -/
def memoOf (root : ParseNode) : Memo := cv.memoAfter root.postOrder

/-- The syntax tree of a parse tree, from the bottom up.  The root is the last of its nodes in
post-order, so the memo holds it, and what stands in the place of a missing entry is never
asked for. -/
def convertTree (root : ParseNode) : SyntaxNode :=
  (cv.memoOf root)[root.id]?.getD (cv.convert root)

end Converter

end RubyOutline
