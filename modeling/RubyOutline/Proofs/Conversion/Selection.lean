/-
RubyOutline/Proofs/Conversion/Selection.lean

Ranges select what they are the ranges of.  A parser places a node by two byte offsets and the
points of these; if the offsets stand between characters (`ParseNode.PlacedIn`), then what a client
selects in the text by the node's range is the node's own text (`select?_range`).  A class, a module
or a method is named by the text of one node, so its name is what the range of the name selects.
The name of the method of an object is put together from two nodes, and need not stand in the source
as it is given.
-/
import RubyOutline.Proofs.Conversion.Declarations
import RubyOutline.Proofs.Everywhere
import RubyOutline.Proofs.Source.Selection

namespace RubyOutline

/-! ### Placed nodes -/

/-- A node is placed in a text: it starts and ends between characters, at the points it says. -/
structure ParseNode.PlacedIn (text : String) (n : ParseNode) : Prop where
  startByte : String.Pos.Raw.IsValid text ⟨n.span.startByte⟩
  start : n.span.start = (Source.ofString text).pointAt n.span.startByte
  stopByte : String.Pos.Raw.IsValid text ⟨n.span.stopByte⟩
  stop : n.span.stop = (Source.ofString text).pointAt n.span.stopByte

instance (text : String) (n : ParseNode) : Decidable (n.PlacedIn text) :=
  decidable_of_iff
    (String.Pos.Raw.IsValid text ⟨n.span.startByte⟩ ∧
      n.span.start = (Source.ofString text).pointAt n.span.startByte ∧
      String.Pos.Raw.IsValid text ⟨n.span.stopByte⟩ ∧
      n.span.stop = (Source.ofString text).pointAt n.span.stopByte)
    ⟨fun ⟨hstartByte, hstart, hstopByte, hstop⟩ => ⟨hstartByte, hstart, hstopByte, hstop⟩,
      fun h => ⟨h.startByte, h.start, h.stopByte, h.stop⟩⟩

/-- An offset between characters is the length of what stands before it. -/
theorem exists_encodeChars_of_isValid {text : String} {offset : Nat}
    (h : String.Pos.Raw.IsValid text ⟨offset⟩) :
    ∃ before after, text.toList = before ++ after ∧
      offset = (Utf8.encodeChars before).length := by
  obtain ⟨before, after, rfl, hoffset⟩ := String.Pos.Raw.isValid_iff_exists_append.1 h
  refine ⟨before.toList, after.toList, String.toList_append, ?_⟩
  rw [← Source.bytes_ofString]
  exact congrArg String.Pos.Raw.byteIdx hoffset

namespace Converter

open ParseNode

variable {text : String} {e : PositionEncoding}

/-- What a client selects by the range of a node is its text. -/
theorem select?_range {n : ParseNode} (h : n.PlacedIn text) :
    e.select? text ((ofSource (.ofString text) e).range n) =
      some ((ofSource (.ofString text) e).text n) := by
  obtain ⟨before, after, hbefore, hstart⟩ := exists_encodeChars_of_isValid h.startByte
  obtain ⟨upTo, after', hupTo, hstop⟩ := exists_encodeChars_of_isValid h.stopByte
  rw [range, h.start, h.stop, hstart, hstop, select?_positions e hbefore hupTo, Converter.text,
    hstart, hstop]
  rfl

/-! ### Names -/

/-- A node is a class, a module or a method without an object. -/
def DeclaresPlainly (n : ParseNode) : Prop :=
  n.shape = .classDecl ∨ n.shape = .moduleDecl ∨ n.shape = .methodDecl

instance (n : ParseNode) : Decidable (DeclaresPlainly n) :=
  inferInstanceAs (Decidable (_ ∨ _ ∨ _))

/-- A plain declaration is named by the text of one node, and gives the range of that node. -/
theorem exists_declaration?_convert (cv : Converter) {n name : ParseNode} (h : DeclaresPlainly n)
    (hname : n.child? "name" = some name) :
    ∃ d, (cv.convert n).declaration? = some d ∧ d.name = cv.text name ∧
      d.nameRange = cv.range name := by
  rw [declaration?_convert, declaration?, hname, Option.bind_some]
  rcases h with shape | shape | shape <;> rw [shape] <;> exact ⟨_, rfl, rfl, rfl⟩

/-- **Ranges select what they are the ranges of.**  In a text, which is to say in bytes that are
UTF-8 throughout, and in each of the three encodings, the range of a node that stands between
characters selects the node's text.  So the range of the name of a class, a module or a plain method
selects its name, wherever it stands in the tree; and whatever a converted tree declares is
converted from a node of the parse tree. -/
theorem select?_range_convertTree (text : String) (e : PositionEncoding) {root : ParseNode}
    (hids : root.DistinctIds) :
    let cv := ofSource (.ofString text) e
    (∀ n : ParseNode, n.PlacedIn text →
      e.select? cv.source.text (cv.range n) = some (cv.text n)) ∧
    (∀ n name : ParseNode, DeclaresPlainly n → n.child? "name" = some name →
      name.PlacedIn text →
      ∃ d, (cv.convert n).declaration? = some d ∧ d.name = cv.text name ∧
        e.select? cv.source.text d.nameRange = some d.name) ∧
    (cv.convertTree root).Everywhere fun m => m.declaration? ≠ none →
      ∃ n ∈ root.nodes, m = cv.convert n := by
  intro cv
  have htext : cv.source.text = text := Source.text_ofString text
  rw [htext, convertTree_eq hids]
  refine ⟨fun n hn => select?_range hn, fun n name hplain hname hplaced => ?_, ?_⟩
  · obtain ⟨d, hdeclared, hdname, hrange⟩ := cv.exists_declaration?_convert hplain hname
    refine ⟨d, hdeclared, hdname, ?_⟩
    rw [hrange, hdname]
    exact select?_range hplaced
  · refine everywhere_convert (fun n hn _ => ⟨n, hn, rfl⟩) (fun n _ hblock => ?_)
      root.mem_nodes_self
    exact absurd rfl hblock

/-- The class of `"𝄞"; class Ä` over four lines, with the method `ö` on the second. -/
def classAfterAstral : ParseNode :=
  let label (kind : String) (startByte : Nat) (start : Point) (stopByte : Nat) (stop : Point)
      (field : Option String) : ParseLabel :=
    ⟨kind, ⟨startByte, start, stopByte, stop⟩, true, false, false, field⟩
  ⟨0, label "class" 8 ⟨0, 8⟩ 35 ⟨3, 3⟩ none,
    [⟨1, label "constant" 14 ⟨0, 14⟩ 16 ⟨0, 16⟩ (some "name"), []⟩,
     ⟨2, label "method" 19 ⟨1, 2⟩ 31 ⟨2, 5⟩ none,
      [⟨3, label "identifier" 23 ⟨1, 6⟩ 25 ⟨1, 8⟩ (some "name"), []⟩]⟩]⟩

theorem select?_range_convertTree_classAfterAstral :
    let text := "\"𝄞\"; class Ä\n  def ö\n  end\nend"
    let cv := ofSource (.ofString text) .utf16
    (∀ n ∈ classAfterAstral.nodes, n.PlacedIn text) ∧
    classAfterAstral.nodes.map (fun n => ((cv.range n).start, cv.text n)) =
      [(⟨0, 6⟩, "class Ä\n  def ö\n  end\nend"), (⟨0, 12⟩, "Ä"), (⟨1, 2⟩, "def ö\n  end"),
        (⟨1, 6⟩, "ö")] ∧
    (∀ n ∈ classAfterAstral.nodes,
      PositionEncoding.utf16.select? cv.source.text (cv.range n) = some (cv.text n)) ∧
    (∀ n ∈ classAfterAstral.nodes, ∀ name ∈ n.child? "name",
      ∃ d, (cv.convert n).declaration? = some d ∧ d.name = cv.text name ∧
        PositionEncoding.utf16.select? cv.source.text d.nameRange = some d.name) ∧
    (cv.convertTree classAfterAstral).Everywhere fun m => m.declaration? ≠ none →
      ∃ n ∈ classAfterAstral.nodes, m = cv.convert n := by
  intro text cv
  have hplaced : ∀ n ∈ classAfterAstral.nodes, n.PlacedIn text := by decide
  have hplain : ∀ n ∈ classAfterAstral.nodes, n.child? "name" ≠ none → DeclaresPlainly n := by
    decide
  have hids : classAfterAstral.DistinctIds := by decide
  obtain ⟨hranges, hnames, hdeclared⟩ := select?_range_convertTree text .utf16 hids
  refine ⟨hplaced, by decide, fun n hn => hranges n (hplaced n hn), ?_, hdeclared⟩
  intro n hn name hname
  have hmem : name ∈ classAfterAstral.nodes := mem_nodes_of_mem_children hn (mem_of_child? hname)
  exact hnames n name (hplain n hn (by simp [Option.mem_def.1 hname])) hname (hplaced name hmem)

end Converter

end RubyOutline
