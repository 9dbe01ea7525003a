/-
RubyOutline/Proofs/Everywhere.lean

What holds at every node of a syntax tree (`SyntaxNode.Everywhere`), and what follows for outlines
and conversions.

* Every entry of an outline is contributed by some node of the tree.  So what is true of whatever
  any node can contribute, in a scope with any superclass, is true of every symbol at any depth
  (`forall_mem_outline`).
* Every node of a converted tree is the conversion of a parse node, on its own account or as the
  block of a call.  So what is true of these is true everywhere in the tree
  (`Converter.everywhere_convert`).
-/
import RubyOutline.Proofs.Conversion.Containment
import RubyOutline.Proofs.Outline.Walk

namespace RubyOutline

namespace SyntaxNode

/-- A node and all those below it satisfy a predicate. -/
inductive Everywhere (P : SyntaxNode → Prop) : SyntaxNode → Prop
  | intro {n : SyntaxNode} (here : P n) (below : ∀ c ∈ n.childNodes, c.Everywhere P) :
      n.Everywhere P

namespace Everywhere

variable {P Q : SyntaxNode → Prop} {n c : SyntaxNode}

theorem here (h : n.Everywhere P) : P n := by
  cases h with
  | intro here _ => exact here

theorem of_child (h : n.Everywhere P) (hc : c ∈ n.childNodes) : c.Everywhere P := by
  cases h with
  | intro _ below => exact below c hc

theorem mono (hPQ : ∀ m, P m → Q m) (h : n.Everywhere P) : n.Everywhere Q := by
  induction n using childNodes_induction with
  | step n ih => exact .intro (hPQ n h.here) fun c hc => ih c hc (h.of_child hc)

end Everywhere

end SyntaxNode

/-! ### Outlines -/

variable {table : MacroTable}

/-- The entries that a node contributes on its own account. -/
def Contribution.infos : Contribution → List SymbolInfo
  | .container info _ => [info]
  | .leaves infos => infos
  | .passage => []

/-- What a node contributes has a property, whatever the superclass where it stands. -/
def SyntaxNode.Contributes (table : MacroTable) (Q : SymbolInfo → Prop) (n : SyntaxNode) : Prop :=
  ∀ superclass, ∀ info ∈ (n.contribution table superclass).infos, Q info

theorem forall_mem_symbols {Q : SymbolInfo → Prop} {n : SyntaxNode}
    (h : n.Everywhere (·.Contributes table Q)) (context : Context) :
    ∀ s ∈ (n.symbols table context).flatMap Symbol.walk, Q s.info := by
  induction n using SyntaxNode.childNodes_induction generalizing context with
  | step n ih =>
    have hown := h.here context.join
    have hbelow : ∀ (context : Context) (s : Symbol),
        s ∈ (n.childNodes.flatMap (·.symbols table context)).flatMap Symbol.walk → Q s.info := by
      intro context s hs
      rw [List.flatMap_assoc] at hs
      obtain ⟨c, hc, hsc⟩ := List.mem_flatMap.1 hs
      exact ih c hc (h.of_child hc) context s hsc
    intro s hs
    rw [SyntaxNode.symbols_eq] at hs
    cases hcontribution : n.contribution table context.join with
    | container info own =>
      rw [hcontribution] at hown
      simp only [hcontribution, List.flatMap_singleton, Symbol.walk, Symbol.walkAll_eq_flatMap,
        List.mem_cons] at hs
      rcases hs with rfl | hs
      · exact hown info List.mem_cons_self
      · exact hbelow (some own) s hs
    | leaves infos =>
      rw [hcontribution] at hown
      simp only [hcontribution] at hs
      split at hs
      · rw [Symbol.flatMap_walk_leaves] at hs
        obtain ⟨info, hinfo, rfl⟩ := List.mem_map.1 hs
        exact hown info hinfo
      · cases hs
    | passage =>
      simp only [hcontribution] at hs
      exact hbelow context s hs

/-- **Every symbol of an outline is contributed by a node**, so it has whatever property all
contributions have. -/
theorem forall_mem_outline {Q : SymbolInfo → Prop} {root : SyntaxNode}
    (h : root.Everywhere (·.Contributes table Q)) :
    ∀ s ∈ (outline table root).flatMap Symbol.walk, Q s.info := by
  rw [outline_eq]
  exact forall_mem_symbols h none

/-! ### Conversions -/

namespace Converter

open ParseNode

variable {cv : Converter} {P : SyntaxNode → Prop}

theorem childNodes_convertBlock (b : ParseNode) :
    (cv.convertBlock b).childNodes = (blockBody b).map cv.convert := rfl

/-- The children of a converted node are converted nodes from below it, but for its block. -/
theorem mem_childNodes_convert {n : ParseNode} {x : SyntaxNode}
    (hx : x ∈ (cv.convert n).childNodes) :
    ∃ m ∈ n.descendants, x = cv.convert m ∨ x = cv.convertBlock m := by
  rw [convert_eq] at hx
  obtain ⟨m, hm, hx⟩ := Form.mem_holes_mapHoles hx
  exact ⟨m, mem_descendants_of_mem_holes hm, hx⟩

theorem everywhere_convert {root : ParseNode} (hnode : ∀ n ∈ root.nodes, P (cv.convert n))
    (hblock : ∀ n ∈ root.nodes, P (cv.convertBlock n)) {n : ParseNode} (hn : n ∈ root.nodes) :
    (cv.convert n).Everywhere P := by
  induction n using descendants_induction with
  | step n ih =>
    have hbelow : ∀ m ∈ n.descendants, m ∈ root.nodes := fun m hm =>
      mem_nodes_trans hn (mem_nodes_of_mem_descendants hm)
    refine .intro (hnode n hn) fun x hx => ?_
    obtain ⟨m, hm, hx⟩ := mem_childNodes_convert hx
    rcases hx with rfl | rfl
    · exact ih m hm (hbelow m hm)
    · -- what stands in a block is converted on its own account
      refine .intro (hblock m (hbelow m hm)) fun y hy => ?_
      rw [childNodes_convertBlock] at hy
      obtain ⟨k, hk, rfl⟩ := List.mem_map.1 hy
      have hkn : k ∈ n.descendants := mem_descendants_of_mem_blockBody_below hm hk
      exact ih k hkn (hbelow k hkn)

end Converter

end RubyOutline
