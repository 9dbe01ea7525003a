/-
RubyOutline/Proofs/Conversion/SourceOrder.lean

When the outline of a parse tree in source order is in source order.  What a layer takes from below
a node it takes from left to right, with one exception: a call lists its parts by the part they
play, so that the values of its pairs come after all its other arguments
(`pairwise_precedes_holes_callForm`).  Where the parts of every call stand in the source as they are
listed, the whole outline is in order (`pairwise_startsBy_outline_convertTree`).  An argument that
follows a pair is listed before it, and so is a class that is declared in the argument
(`not_pairwise_startsBy_blockArgumentAfterPair`).
-/
import RubyOutline.Proofs.Conversion.Evaluation
import RubyOutline.Proofs.Outline.SourceOrder
import RubyOutline.Proofs.ParseNode.SourceOrder

namespace RubyOutline

namespace Converter

open ParseNode

variable {cv : Converter} {root : ParseNode}

/-! ### Parts of calls -/

/-- The parts of a call as they are listed: the receiver, the arguments without the pairs, the pairs
and the block. -/
def callParts (n : ParseNode) : List ParseNode :=
  (n.child? "receiver").toList ++ (argumentNodes n).filter (!isPair ·) ++
    (argumentNodes n).filter isPair ++ (n.child? "block").toList

/-- Throughout a tree, the parts of a call stand in the source in the order in which they are
listed. -/
def PartsInOrder (root : ParseNode) : Prop :=
  ∀ n ∈ root.nodes, n.shape = .call → (n.child? "method").isSome → (callParts n).Pairwise Precedes

instance (root : ParseNode) : Decidable (PartsInOrder root) :=
  inferInstanceAs (Decidable (∀ n ∈ root.nodes, _ → _ → (callParts n).Pairwise Precedes))

theorem mem_descendants_of_mem_callParts {n a : ParseNode} (h : a ∈ callParts n) :
    a ∈ n.descendants := by
  simp only [callParts, List.mem_append, Option.mem_toList, List.mem_filter] at h
  rcases h with ((h | h) | h) | h
  · exact mem_descendants_of_child? h
  · exact mem_descendants_of_mem_argumentNodes h.1
  · exact mem_descendants_of_mem_argumentNodes h.1
  · exact mem_descendants_of_child? h

/-- The value of a pair, if it has one and a key as well. -/
def keywordValue (cv : Converter) (p : ParseNode) : List ParseNode :=
  ((cv.keyword p).map (·.value)).toList

theorem mem_nodes_of_mem_keywordValue {p v : ParseNode} (h : v ∈ cv.keywordValue p) :
    v ∈ p.nodes := by
  obtain ⟨k, hk, rfl⟩ := Option.map_eq_some_iff.1 (Option.mem_toList.1 h)
  exact mem_nodes_of_mem_descendants (mem_descendants_of_child? (keyword_value hk))

theorem map_value_filterMap_keyword (cv : Converter) (ps : List ParseNode) :
    (ps.filterMap cv.keyword).map (·.value) = ps.flatMap cv.keywordValue := by
  rw [List.map_filterMap, List.filterMap_eq_flatMap_toList]
  rfl

/-- A call holds its parts, but of its pairs only the values. -/
theorem holes_callForm (cv : Converter) (n method : ParseNode) :
    (cv.callForm n method).holes =
      (n.child? "receiver").toList ++ (argumentNodes n).filter (!isPair ·) ++
        ((argumentNodes n).filter isPair).flatMap cv.keywordValue ++
        (n.child? "block").toList := by
  simp only [callForm, Form.holes, Call.holes, map_value_filterMap_keyword]

theorem pairwise_precedes_holes_callForm (hspans : root.SpansNested) {n method : ParseNode}
    (hn : n ∈ root.nodes) (hparts : (callParts n).Pairwise Precedes) :
    (cv.callForm n method).holes.Pairwise Precedes := by
  have hroot : ∀ a ∈ callParts n, a ∈ root.nodes := fun a ha =>
    mem_nodes_trans hn (mem_nodes_of_mem_descendants (mem_descendants_of_mem_callParts ha))
  rw [callParts] at hparts hroot
  rw [holes_callForm]
  generalize (n.child? "receiver").toList ++ (argumentNodes n).filter (!isPair ·) = before,
    (argumentNodes n).filter isPair = pairs, (n.child? "block").toList = block at hparts hroot ⊢
  simp only [List.mem_append] at hroot
  simp only [List.pairwise_append, List.mem_append] at hparts ⊢
  obtain ⟨⟨hbefore, hpairs, hpair⟩, hblock, hlast⟩ := hparts
  -- only the pairs are replaced, each by something within it
  refine ⟨⟨hbefore, ?_, ?_⟩, hblock, ?_⟩
  · refine pairwise_precedes_flatMap hspans (fun p hp => hroot p (.inl (.inr hp))) hpairs
      (fun p _ v hv => mem_nodes_of_mem_keywordValue hv) fun p _ => ?_
    exact Option.pairwise_toList
  · intro a ha v hv
    obtain ⟨p, hp, hv⟩ := List.mem_flatMap.1 hv
    exact (hpair a ha p hp).of_mem_nodes hspans (hroot a (.inl (.inl ha)))
      (hroot p (.inl (.inr hp))) a.mem_nodes_self (mem_nodes_of_mem_keywordValue hv)
  · intro a ha b hb
    rcases ha with ha | ha
    · exact hlast a (.inl ha) b hb
    · obtain ⟨p, hp, hv⟩ := List.mem_flatMap.1 ha
      exact (hlast p (.inr hp) b hb).of_mem_nodes hspans (hroot p (.inl (.inr hp)))
        (hroot b (.inr hb)) (mem_nodes_of_mem_keywordValue hv) b.mem_nodes_self

/-! ### Layers -/

theorem pairwise_precedes_blockBody (hspans : root.SpansNested) (horder : root.InSourceOrder)
    {b : ParseNode} (hb : b ∈ root.nodes) : (blockBody b).Pairwise Precedes :=
  pairwise_precedes_statementsExcept hspans horder hb _

/-- Whatever stands in the holes of a layer stands there in source order. -/
theorem pairwise_precedes_holes (hspans : root.SpansNested) (horder : root.InSourceOrder)
    (hparts : PartsInOrder root) {known : ParseNode → Option SyntaxNode} {n : ParseNode}
    (hn : n ∈ root.nodes) : (cv.layer known n).holes.Pairwise Precedes := by
  have hform := cv.isLayer_layer known n
  generalize cv.layer known n = form at hform
  cases hform with
  | classDecl | moduleDecl | methodDecl | singletonMethodDecl =>
    exact pairwise_precedes_statementsExcept hspans horder hn _
  | call shape hmethod =>
    exact pairwise_precedes_holes_callForm hspans hn (hparts n hn shape (by simp [hmethod]))
  | string | chainedString | simpleSymbol | delimitedSymbol | constant | constantPath => exact .nil
  | lambda =>
    rw [Form.holes]
    cases hb : n.child? "body" with
    | none => exact .nil
    | some b =>
      have hroot : b ∈ root.nodes := mem_nodes_of_mem_children hn (mem_of_child? hb)
      exact pairwise_precedes_blockBody hspans horder hroot
  | block => exact pairwise_precedes_blockBody hspans horder hn
  | noName | noMethod | interpolated | noPath | traversed =>
    exact pairwise_precedes_statementsOf hspans horder (fun c hc => mem_nodes_of_mem_children hn hc)
      (horder n hn).2

/-! ### Converted trees -/

theorem precedes_range (cv : Converter) {a b : ParseNode} (h : a.Precedes b) :
    (cv.range a).Precedes (cv.range b) :=
  cv.position_le h

/-- A converted node is in source order, for its children have the ranges of its holes. -/
theorem inSourceOrder_convert (hspans : root.SpansNested) (horder : root.InSourceOrder)
    (hparts : PartsInOrder root) {n : ParseNode} (hn : n ∈ root.nodes) :
    (cv.convert n).InSourceOrder := by
  have hranges : (cv.convert n).childNodes.map (·.range) =
      (cv.layer (fun _ => none) n).holes.map cv.range := by
    rw [convert_eq_map]
    exact Form.map_holes_map _ cv.range_convert fun _ => rfl
  refine ⟨?_, ?_⟩
  · rw [range_convert]
    exact cv.position_le (horder n hn).1
  · rw [hranges, List.pairwise_map]
    exact (pairwise_precedes_holes hspans horder hparts hn).imp cv.precedes_range

theorem inSourceOrder_convertBlock (hspans : root.SpansNested) (horder : root.InSourceOrder)
    {b : ParseNode} (hb : b ∈ root.nodes) : (cv.convertBlock b).InSourceOrder := by
  have hranges : (cv.convertBlock b).childNodes.map (·.range) = (blockBody b).map cv.range := by
    rw [childNodes_convertBlock, List.map_map]
    exact List.map_congr_left fun c _ => cv.range_convert c
  refine ⟨cv.position_le (horder b hb).1, ?_⟩
  rw [hranges, List.pairwise_map]
  exact (pairwise_precedes_blockBody hspans horder hb).imp cv.precedes_range

/-- **Outlines come in source order if the parts of every call do.**  The top-level symbols and the
children of every symbol start one no later than the next, in the client's positions and whatever
the table, if nodes lie within their parents, siblings are disjoint and in order, and no call has
an argument after a pair, or a receiver or a block elsewhere than before and after its
arguments. -/
theorem pairwise_startsBy_outline_convertTree (source : Source) (encoding : PositionEncoding)
    (table : MacroTable) (hids : root.DistinctIds) (hspans : root.SpansNested)
    (horder : root.InSourceOrder) (hparts : PartsInOrder root) :
    let symbols := outline table ((ofSource source encoding).convertTree root)
    symbols.Pairwise Symbol.StartsBy ∧
      ∀ s ∈ symbols.flatMap Symbol.walk, s.children.Pairwise Symbol.StartsBy := by
  intro symbols
  have hinOrder : ((ofSource source encoding).convert root).Everywhere SyntaxNode.InSourceOrder :=
    everywhere_convert (fun n hn => inSourceOrder_convert hspans horder hparts hn)
      (fun n hn => inSourceOrder_convertBlock hspans horder hn) root.mem_nodes_self
  simp only [symbols, convertTree_eq hids]
  exact pairwise_startsBy_outline (rangesNested_convert _ hspans root.mem_nodes_self) hinOrder table

/-- The call of `wrap class A; end, k: class B; end`. -/
def pairAfterArgument : ParseNode :=
  inLine 0 "call" 0 34 none [inLine 1 "identifier" 0 4 (some "method") [],
    inLine 2 "argument_list" 5 34 (some "arguments")
      [inLine 3 "class" 5 17 none [inLine 4 "constant" 11 12 (some "name") []],
       inLine 5 "pair" 19 34 none [inLine 6 "hash_key_symbol" 19 20 (some "key") [],
         inLine 7 "class" 22 34 (some "value") [inLine 8 "constant" 28 29 (some "name") []]]]]

theorem pairwise_startsBy_outline_convertTree_pairAfterArgument :
    let symbols := outline .rails ((ofSource (.ofString "wrap class A; end, k: class B; end")
      .utf16).convertTree pairAfterArgument)
    pairAfterArgument.DistinctIds ∧ pairAfterArgument.SpansNested ∧
    pairAfterArgument.InSourceOrder ∧ PartsInOrder pairAfterArgument ∧
    symbols.map (·.info.name) = ["A", "B"] ∧
    symbols.Pairwise Symbol.StartsBy ∧
      ∀ s ∈ symbols.flatMap Symbol.walk, s.children.Pairwise Symbol.StartsBy := by
  intro symbols
  have hids : pairAfterArgument.DistinctIds := by decide
  have hspans : pairAfterArgument.SpansNested := by decide
  have horder : pairAfterArgument.InSourceOrder := by decide
  have hparts : PartsInOrder pairAfterArgument := by decide
  refine ⟨hids, hspans, horder, hparts, ?_,
    pairwise_startsBy_outline_convertTree _ _ .rails hids hspans horder hparts⟩
  simp only [symbols]
  rw [outline_convertTree_eq _ .rails 9 hids (by decide)]
  decide

/-- The call of `wrap k: class A; end, &class B; end`. -/
def blockArgumentAfterPair : ParseNode :=
  inLine 0 "call" 0 35 none [inLine 1 "identifier" 0 4 (some "method") [],
    inLine 2 "argument_list" 5 35 (some "arguments")
      [inLine 3 "pair" 5 20 none [inLine 4 "hash_key_symbol" 5 6 (some "key") [],
         inLine 5 "class" 8 20 (some "value") [inLine 6 "constant" 14 15 (some "name") []]],
       inLine 7 "block_argument" 22 35 none
         [inLine 8 "class" 23 35 none [inLine 9 "constant" 29 30 (some "name") []]]]]

/-- A class in the value of a pair is listed after a class in the argument that follows the
pair. -/
theorem not_pairwise_startsBy_blockArgumentAfterPair :
    blockArgumentAfterPair.DistinctIds ∧ blockArgumentAfterPair.SpansNested ∧
    blockArgumentAfterPair.InSourceOrder ∧
    ¬ (outline .rails ((ofSource (.ofString "wrap k: class A; end, &class B; end")
      .utf16).convertTree blockArgumentAfterPair)).Pairwise Symbol.StartsBy := by
  have hids : blockArgumentAfterPair.DistinctIds := by decide
  refine ⟨hids, by decide, by decide, ?_⟩
  rw [outline_convertTree_eq _ .rails 10 hids (by decide)]
  decide

end Converter

end RubyOutline
