/-
RubyOutline/Proofs/Outline/SourceOrder.lean

Outlines of trees in source order are in source order.  The symbols that a node contributes can
come from anywhere below it, so the invariant is about all of them at once: they start within the
node, one no later than the next, and the same holds of the children of each symbol
(`SortedWithin`).  What is collected from nodes that stand one after the other keeps it
(`sortedWithin_flatMap`), since what starts within the first of two nodes starts no later than
what starts within the second.
-/
import RubyOutline.Proofs.Everywhere
import RubyOutline.Proofs.Outline.Containment

namespace RubyOutline

variable {table : MacroTable}

/-! ### Trees in source order -/

/-- A range ends no later than another one starts. -/
def SourceRange.Precedes (a b : SourceRange) : Prop := a.stop ≤ b.start

/-- A node ends no earlier than it starts, and its children stand one after the other. -/
def SyntaxNode.InSourceOrder (n : SyntaxNode) : Prop :=
  n.range.start ≤ n.range.stop ∧ (n.childNodes.map (·.range)).Pairwise SourceRange.Precedes

/-! ### Sorted symbols -/

/-- A symbol starts no later than another one. -/
def Symbol.StartsBy (s t : Symbol) : Prop := s.info.range.start ≤ t.info.range.start

instance (s t : Symbol) : Decidable (s.StartsBy t) :=
  inferInstanceAs (Decidable (s.info.range.start ≤ t.info.range.start))

/-- Symbols start within a range, in the order of their starts, and the children of each symbol
among or below them are in this order as well. -/
structure SortedWithin (r : SourceRange) (ss : List Symbol) : Prop where
  within : ∀ s ∈ ss, r.start ≤ s.info.range.start ∧ s.info.range.start ≤ r.stop
  sorted : ss.Pairwise Symbol.StartsBy
  children : ∀ t ∈ ss.flatMap Symbol.walk, t.children.Pairwise Symbol.StartsBy

theorem SortedWithin.nil (r : SourceRange) : SortedWithin r [] where
  within := nofun
  sorted := .nil
  children := nofun

/-- Symbols of nodes that stand one after the other within a range. -/
theorem sortedWithin_flatMap {r : SourceRange} {ns : List SyntaxNode}
    {f : SyntaxNode → List Symbol} (hwithin : ∀ n ∈ ns, r.Contains n.range)
    (horder : (ns.map (·.range)).Pairwise SourceRange.Precedes)
    (hsorted : ∀ n ∈ ns, SortedWithin n.range (f n)) : SortedWithin r (ns.flatMap f) where
  within := by
    intro s hs
    obtain ⟨n, hn, hs⟩ := List.mem_flatMap.1 hs
    obtain ⟨hstart, hstop⟩ := (hsorted n hn).within s hs
    exact ⟨Position.le_trans (hwithin n hn).1 hstart, Position.le_trans hstop (hwithin n hn).2⟩
  sorted := by
    rw [List.pairwise_map] at horder
    rw [List.pairwise_flatMap]
    refine ⟨fun n hn => (hsorted n hn).sorted, ?_⟩
    refine horder.imp_of_mem fun {a b} ha hb hab s hs t ht => ?_
    have hstop : s.info.range.start ≤ a.range.stop := ((hsorted a ha).within s hs).2
    have hstart : b.range.start ≤ t.info.range.start := ((hsorted b hb).within t ht).1
    exact Position.le_trans hstop (Position.le_trans hab hstart)
  children := by
    intro t ht
    rw [List.flatMap_assoc] at ht
    obtain ⟨n, hn, ht⟩ := List.mem_flatMap.1 ht
    exact (hsorted n hn).children t ht

/-- A single symbol over the symbols of its children. -/
theorem sortedWithin_singleton {r : SourceRange} (hr : r.start ≤ r.stop) {info : SymbolInfo}
    (hinfo : info.range = r) {children : List Symbol} (hchildren : SortedWithin r children) :
    SortedWithin r [⟨info, children⟩] where
  within := by
    intro s hs
    rw [List.mem_singleton.1 hs, hinfo]
    exact ⟨Position.le_rfl, hr⟩
  sorted := List.pairwise_singleton _ _
  children := by
    intro t ht
    rw [List.flatMap_singleton, Symbol.walk, Symbol.walkAll_eq_flatMap, List.mem_cons] at ht
    rcases ht with rfl | ht
    · exact hchildren.sorted
    · exact hchildren.children t ht

/-- Leaves that start within a range in the order of their starts. -/
theorem sortedWithin_leaves {r : SourceRange} {infos : List SymbolInfo}
    (hwithin : ∀ info ∈ infos, r.start ≤ info.range.start ∧ info.range.start ≤ r.stop)
    (hsorted : infos.Pairwise fun a b => a.range.start ≤ b.range.start) :
    SortedWithin r (infos.map .leaf) where
  within := by
    intro s hs
    obtain ⟨info, hinfo, rfl⟩ := List.mem_map.1 hs
    exact hwithin info hinfo
  sorted := List.pairwise_map.2 hsorted
  children := by
    intro t ht
    rw [Symbol.flatMap_walk_leaves] at ht
    obtain ⟨info, _, rfl⟩ := List.mem_map.1 ht
    exact .nil

/-! ### Leaves -/

/-- Of two nodes that stand one after the other, the first starts no later. -/
theorem SourceRange.Precedes.start_le {a b : SourceRange} (h : a.Precedes b)
    (ha : a.start ≤ a.stop) : a.start ≤ b.start :=
  Position.le_trans ha h

/-- The leaves of a call all span the call, or are the fields of its arguments in their order. -/
theorem pairwise_start_le_of_declaredLeaves {superclass : Option String} {range : SourceRange}
    {c : Call SyntaxNode} {leaves : List SymbolInfo}
    (h : c.declaredLeaves table superclass range = some leaves)
    (harguments : c.arguments.Pairwise fun a b => a.range.start ≤ b.range.start) :
    leaves.Pairwise fun a b => a.range.start ≤ b.range.start := by
  cases Call.declares_of_declaredLeaves table h with
  | test | callback =>
    rw [List.pairwise_map]
    exact List.pairwise_of_forall fun _ _ => Position.le_rfl
  | attributes =>
    rw [List.pairwise_filterMap]
    refine harguments.imp fun {a b} hab infoA hA infoB hB => ?_
    rw [(range_of_declaredField hA).1, (range_of_declaredField hB).1]
    exact hab

/-- The leaves of a node are sorted if its children are. -/
theorem pairwise_start_le_of_leaves {superclass : Option String} {n : SyntaxNode}
    {infos : List SymbolInfo} (h : n.contribution table superclass = .leaves infos)
    (hchildren : n.childNodes.Pairwise fun a b => a.range.start ≤ b.range.start) :
    infos.Pairwise fun a b => a.range.start ≤ b.range.start := by
  rcases SyntaxNode.cases_of_leaves h with ⟨name, nameRange, body, -, rfl⟩ | ⟨c, hform, hleaves⟩
  · exact List.pairwise_singleton _ _
  · refine pairwise_start_le_of_declaredLeaves hleaves (hchildren.sublist ?_)
    -- the arguments stand between the receiver and the keywords
    simp only [SyntaxNode.childNodes, hform, Form.holes, Call.holes, List.append_assoc]
    exact (List.sublist_append_left _ _).trans (List.sublist_append_right _ _)

/-- The leaves of a node start within it, for each spans the node or one of its children. -/
theorem start_within_of_leaf {superclass : Option String} {n : SyntaxNode}
    {infos : List SymbolInfo} {info : SymbolInfo} (hranges : n.RangesNested)
    (horder : n.Everywhere SyntaxNode.InSourceOrder)
    (h : n.contribution table superclass = .leaves infos) (hinfo : info ∈ infos) :
    n.range.start ≤ info.range.start ∧ info.range.start ≤ n.range.stop := by
  rcases range_of_leaf h hinfo with ⟨hrange, _⟩ | ⟨c, hc, hrange, _⟩
  · rw [hrange]
    exact ⟨Position.le_rfl, horder.here.1⟩
  · obtain ⟨hstart, hstop⟩ := hranges.contains_child hc
    have hchild : c.range.start ≤ c.range.stop := (horder.of_child hc).here.1
    rw [hrange]
    exact ⟨hstart, Position.le_trans hchild hstop⟩

theorem pairwise_start_le_childNodes {n : SyntaxNode}
    (horder : n.Everywhere SyntaxNode.InSourceOrder) :
    n.childNodes.Pairwise fun a b => a.range.start ≤ b.range.start := by
  have hsiblings := horder.here.2
  rw [List.pairwise_map] at hsiblings
  refine hsiblings.imp_of_mem fun {a b} ha _ hab => ?_
  exact hab.start_le (horder.of_child ha).here.1

/-! ### The invariant -/

theorem sortedWithin_symbols {n : SyntaxNode} (hranges : n.RangesNested)
    (horder : n.Everywhere SyntaxNode.InSourceOrder) (context : Context) :
    SortedWithin n.range (n.symbols table context) := by
  induction n using SyntaxNode.childNodes_induction generalizing context with
  | step n ih =>
    obtain ⟨hproper, hsiblings⟩ := horder.here
    have hchildren : ∀ context,
        SortedWithin n.range (n.childNodes.flatMap (·.symbols table context)) := fun context =>
      sortedWithin_flatMap (fun c hc => hranges.contains_child hc) hsiblings fun c hc =>
        ih c hc (hranges.of_child hc) (horder.of_child hc) context
    rw [SyntaxNode.symbols_eq]
    cases hcontribution : n.contribution table context.join with
    | container info own =>
      exact sortedWithin_singleton hproper (range_of_container hcontribution).1
        (hchildren (some own))
    | leaves infos =>
      simp only
      split
      · exact sortedWithin_leaves
          (fun info hinfo => start_within_of_leaf hranges horder hcontribution hinfo)
          (pairwise_start_le_of_leaves hcontribution (pairwise_start_le_childNodes horder))
      · -- outside of every scope leaves are dropped
        exact .nil _
    | passage => exact hchildren context

/-- **Outlines of trees in source order are in source order**, their top-level symbols as well as
the children of each symbol. -/
theorem pairwise_startsBy_outline {root : SyntaxNode} (hranges : root.RangesNested)
    (horder : root.Everywhere SyntaxNode.InSourceOrder) (table : MacroTable) :
    (outline table root).Pairwise Symbol.StartsBy ∧
      ∀ s ∈ (outline table root).flatMap Symbol.walk, s.children.Pairwise Symbol.StartsBy := by
  rw [outline_eq]
  have h : SortedWithin root.range (root.symbols table none) :=
    sortedWithin_symbols hranges horder none
  exact ⟨h.sorted, h.children⟩

end RubyOutline
