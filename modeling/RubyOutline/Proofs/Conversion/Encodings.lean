/-
RubyOutline/Proofs/Conversion/Encodings.lean

Conversions for clients that count columns differently.  Whatever a client counts, its conversion
is the conversion in bytes with every range counted anew (`Converter.convertTree_inBytes`): texts
are cut out by byte offsets, the holes of a layer are found by kinds, fields and ids, and a result
that ends the walk along a constant path is asked for its segments.  No decision on the way sees a
column.

An outline only carries ranges along (`outline_mapRanges`), so the outlines for two clients are the
outline in bytes, counted in two ways.  Counting leaves the lines alone, and in a source of ASCII
bytes it leaves everything alone.
-/
import RubyOutline.Proofs.Conversion.Evaluation
import RubyOutline.Proofs.Outline.MappedRanges
import RubyOutline.Proofs.Source.Units

namespace RubyOutline

namespace Converter

open ParseNode

variable (cv : Converter) {known known' : ParseNode → Option SyntaxNode}

/-! ### Counting anew -/

/-- The conversion of the same source where columns are counted in bytes. -/
def inBytes : Converter := ⟨cv.source, { cv.lines with encoding := .utf8 }⟩

/-- A range in bytes, as the client counts it. -/
def recount (r : SourceRange) : SourceRange :=
  ⟨⟨r.start.line, cv.lines.column r.start.line r.start.character⟩,
    ⟨r.stop.line, cv.lines.column r.stop.line r.stop.character⟩⟩

theorem recount_range (n : ParseNode) : cv.recount (cv.inBytes.range n) = cv.range n := rfl

/-! ### Layers -/

/-- The walk along the scopes of a path reads texts, and forms of what it knows. -/
theorem constantPath_inBytes (h : ∀ c, known' c = (known c).map (·.mapRanges cv.recount))
    (n : ParseNode) (suffix : List String) :
    cv.constantPath known' n suffix = cv.inBytes.constantPath known n suffix := by
  induction n using descendants_induction generalizing suffix with
  | step n ih =>
    rw [constantPath, constantPath]
    cases n.child? "name" with
    | none => rfl
    | some name =>
      simp only
      split
      · split
        · rfl
        · rename_i scope hscope
          cases scope.shape with
          | scopeResolution =>
            simp only [h scope]
            cases known scope with
            | none => exact ih scope (mem_descendants_of_child? hscope) _
            | some found =>
              obtain ⟨range, form⟩ := found
              rw [Option.map_some, SyntaxNode.mapRanges_eq]
              cases form <;> rfl
          | _ => rfl
      · rfl

theorem classLayer_inBytes (n : ParseNode) :
    cv.classLayer n = (cv.inBytes.classLayer n).map (Form.mapRanges cv.recount) := by
  rw [classLayer, classLayer, Option.map_map]
  rfl

theorem moduleLayer_inBytes (n : ParseNode) :
    cv.moduleLayer n = (cv.inBytes.moduleLayer n).map (Form.mapRanges cv.recount) := by
  rw [moduleLayer, moduleLayer, Option.map_map]
  rfl

theorem methodLayer_inBytes (n : ParseNode) :
    cv.methodLayer n = (cv.inBytes.methodLayer n).map (Form.mapRanges cv.recount) := by
  rw [methodLayer, methodLayer, Option.map_map]
  rfl

theorem singletonMethodLayer_inBytes (n : ParseNode) :
    cv.singletonMethodLayer n =
      (cv.inBytes.singletonMethodLayer n).map (Form.mapRanges cv.recount) := by
  rw [singletonMethodLayer, singletonMethodLayer]
  cases n.child? "object" with
  | none => exact methodLayer_inBytes cv n
  | some object =>
    simp only [Option.map_map]
    rfl

theorem callLayer_inBytes (n : ParseNode) :
    cv.callLayer n = (cv.inBytes.callLayer n).map (Form.mapRanges cv.recount) := by
  rw [callLayer, callLayer, Option.map_map]
  rfl

/-- A form or else the traversal of the node. -/
theorem getD_otherLayer_mapRanges (form : Option (Form ParseNode)) (n : ParseNode) :
    (form.map (Form.mapRanges cv.recount)).getD (otherLayer n) =
      (form.getD (otherLayer n)).mapRanges cv.recount := by
  cases form <;> rfl

/-- **A layer is the layer in bytes**, its ranges counted anew. -/
theorem layer_inBytes (h : ∀ c, known' c = (known c).map (·.mapRanges cv.recount))
    (n : ParseNode) :
    cv.layer known' n = (cv.inBytes.layer known n).mapRanges cv.recount := by
  rw [layer, layer]
  cases n.shape with
  | classDecl =>
    simp only
    rw [classLayer_inBytes, getD_otherLayer_mapRanges]
  | moduleDecl =>
    simp only
    rw [moduleLayer_inBytes, getD_otherLayer_mapRanges]
  | methodDecl =>
    simp only
    rw [methodLayer_inBytes, getD_otherLayer_mapRanges]
  | singletonMethodDecl =>
    simp only
    rw [singletonMethodLayer_inBytes, getD_otherLayer_mapRanges]
  | call =>
    simp only
    rw [callLayer_inBytes, getD_otherLayer_mapRanges]
  | delimitedSymbol =>
    simp only
    split <;> rfl
  | scopeResolution =>
    simp only [constantPath_inBytes cv h]
    split <;> rfl
  | _ => rfl

/-! ### Conversion -/

/-- What becomes of a hole: what the memo knows of it, or its conversion on the spot. -/
def lookUp (memo : Memo) (c : ParseNode) : SyntaxNode :=
  memo[c.id]?.getD (cv.convertWith memo c)

/-- What becomes of a node that is attached to a call as its block. -/
def lookUpBlock (memo : Memo) (b : ParseNode) : SyntaxNode :=
  ⟨cv.range b, .block ((blockBody b).map (cv.lookUp memo))⟩

theorem convertWith_eq_map (memo : Memo) (n : ParseNode) :
    cv.convertWith memo n =
      ⟨cv.range n, (cv.layer (fun c => memo[c.id]?) n).map (cv.lookUp memo)
        (cv.lookUpBlock memo)⟩ := by
  rw [convertWith, ← Form.mapHoles_eq_map]
  simp only [List.pmap_eq_map]
  rfl

/-- Two memos that know the same trees, up to a function on their ranges. -/
def Memo.MappedTo (g : SourceRange → SourceRange) (memo memo' : Memo) : Prop :=
  ∀ id : Nat, memo'[id]? = memo[id]?.map (·.mapRanges g)

variable {cv} {memo memo' : Memo}

/-- With memos that know the same, a node is converted to the same. -/
theorem convertWith_inBytes (h : memo.MappedTo cv.recount memo') (n : ParseNode) :
    cv.convertWith memo' n = (cv.inBytes.convertWith memo n).mapRanges cv.recount := by
  induction n using descendants_induction with
  | step n ih =>
    have hlookUp : ∀ c ∈ n.descendants,
        cv.lookUp memo' c = (cv.inBytes.lookUp memo c).mapRanges cv.recount := by
      intro c hc
      rw [lookUp, lookUp, h, ih c hc]
      cases memo[c.id]? <;> rfl
    have hlayer : cv.layer (fun c => memo'[c.id]?) n =
        (cv.inBytes.layer (fun c => memo[c.id]?) n).mapRanges cv.recount :=
      cv.layer_inBytes (fun c => h c.id) n
    rw [convertWith_eq_map, convertWith_eq_map, hlayer, SyntaxNode.mapRanges_eq, recount_range,
      Form.map_mapRanges, Form.map_map]
    congr 2
    refine Form.map_congr ?_ ?_
    · intro c hc
      exact hlookUp c (mem_descendants_of_mem_holes hc)
    · intro b hb
      have hb : b ∈ n.descendants := mem_descendants_of_mem_holes hb
      have hbody : (blockBody b).map (cv.lookUp memo') =
          ((blockBody b).map (cv.inBytes.lookUp memo)).map (·.mapRanges cv.recount) := by
        rw [List.map_map]
        exact List.map_congr_left fun c hc =>
          hlookUp c (mem_descendants_of_mem_blockBody_below hb hc)
      rw [Function.comp_apply, lookUpBlock, lookUpBlock, SyntaxNode.mapRanges_eq, recount_range,
        hbody]
      rfl

/-- The results for the nodes converted so far are the same. -/
theorem mappedTo_memoAfter (cv : Converter) (nodes : List ParseNode) :
    (cv.inBytes.memoAfter nodes).MappedTo cv.recount (cv.memoAfter nodes) := by
  induction nodes using List.reverseRec with
  | nil =>
    intro id
    rw [memoAfter_nil, memoAfter_nil, Std.HashMap.getElem?_empty]
    rfl
  | append_singleton nodes n ih =>
    intro id
    rw [memoAfter_concat, memoAfter_concat, Std.HashMap.getElem?_insert,
      Std.HashMap.getElem?_insert]
    split
    · rw [convertWith_inBytes ih, Option.map_some]
    · exact ih id

/-- **The conversion of a tree is its conversion in bytes**, every range counted anew. -/
theorem convertTree_inBytes (cv : Converter) (root : ParseNode) :
    cv.convertTree root = (cv.inBytes.convertTree root).mapRanges cv.recount := by
  rw [convertTree, convertTree, getElem?_memoOf_root, getElem?_memoOf_root, Option.getD_some,
    Option.getD_some, convertWith_inBytes (mappedTo_memoAfter cv _)]

end Converter

/-! ### Outlines -/

/-- A range of which only the lines are left. -/
def SourceRange.lines (r : SourceRange) : SourceRange := ⟨⟨r.start.line, 0⟩, ⟨r.stop.line, 0⟩⟩

open Converter

theorem outline_inBytes (s : Source) (root : ParseNode) (table : MacroTable)
    (e : PositionEncoding) :
    outline table ((ofSource s e).convertTree root) =
      (outline table ((ofSource s .utf8).convertTree root)).map
        (Symbol.mapRanges (ofSource s e).recount) := by
  rw [convertTree_inBytes, outline_mapRanges]
  rfl

/-- **Positions never influence structure.**  The outlines of a tree for two encodings are the same
once characters are forgotten and lines kept: the same symbols under the same symbols, with the same
names, kinds and lines.  For a source of ASCII bytes they are the same altogether; and in general
each of them is the outline in bytes, of which the columns are counted anew. -/
theorem outline_encodings (s : Source) (root : ParseNode) (table : MacroTable)
    (e e' : PositionEncoding) :
    let outlineIn (e : PositionEncoding) := outline table ((ofSource s e).convertTree root)
    (outlineIn e).map (Symbol.mapRanges SourceRange.lines) =
      (outlineIn e').map (Symbol.mapRanges SourceRange.lines) ∧
    ((∀ b ∈ s.bytes, b < 0x80) → outlineIn e = outlineIn e') ∧
    outlineIn e = (outlineIn .utf8).map (Symbol.mapRanges (ofSource s e).recount) := by
  intro outlineIn
  have hbytes : ∀ e, outlineIn e =
      (outlineIn .utf8).map (Symbol.mapRanges (ofSource s e).recount) :=
    fun e => outline_inBytes s root table e
  refine ⟨?_, fun hascii => ?_, hbytes e⟩
  · -- counting anew leaves the lines alone
    have hlines : ∀ e, (outlineIn e).map (Symbol.mapRanges SourceRange.lines) =
        (outlineIn .utf8).map (Symbol.mapRanges SourceRange.lines) := by
      intro e
      have hforgotten : SourceRange.lines ∘ (ofSource s e).recount = SourceRange.lines := rfl
      rw [hbytes e, List.map_map]
      refine List.map_congr_left fun symbol _ => ?_
      rw [Function.comp_apply, Symbol.mapRanges_mapRanges, hforgotten]
    rw [hlines e, hlines e']
  · have hrecount : (ofSource s e).recount = (ofSource s e').recount := by
      funext r
      simp only [recount, ofSource, LineMap.column_of_ascii hascii]
    rw [hbytes e, hbytes e', hrecount]

/-- `class X; def m; end; end`, where the name of the class takes `w` bytes. -/
def classWithMethod (w : Nat) : ParseNode :=
  .inLine 0 "program" 0 (23 + w) none
    [.inLine 1 "class" 0 (23 + w) none
      [.inLine 2 "constant" 6 (6 + w) (some "name") [],
       .inLine 3 "body_statement" (8 + w) (18 + w) (some "body")
        [.inLine 4 "method" (8 + w) (18 + w) none
          [.inLine 5 "identifier" (12 + w) (13 + w) (some "name") []]]]]

/-- A name that takes two bytes and one unit of UTF-16, so that the method has another column in
each, and a name of one byte. -/
theorem outline_encodings_classWithMethod :
    let outlineIn (name : String) (w : Nat) (e : PositionEncoding) :=
      outline .rails ((ofSource (.ofString ("class " ++ name ++ "; def m; end; end")) e).convertTree
        (classWithMethod w))
    let starts (symbols : List Symbol) :=
      (symbols.flatMap Symbol.walk).map fun symbol => (symbol.info.name, symbol.info.range.start)
    starts (outlineIn "Á" 2 .utf8) = [("Á", ⟨0, 0⟩), ("m", ⟨0, 10⟩)] ∧
    starts (outlineIn "Á" 2 .utf16) = [("Á", ⟨0, 0⟩), ("m", ⟨0, 9⟩)] ∧
    (outlineIn "Á" 2 .utf8).map (Symbol.mapRanges SourceRange.lines) =
      (outlineIn "Á" 2 .utf16).map (Symbol.mapRanges SourceRange.lines) ∧
    outlineIn "A" 1 .utf8 = outlineIn "A" 1 .utf16 := by
  intro outlineIn starts
  have hall : LineMap.isAscii (Source.ofString "class A; def m; end; end").bytes.toList := by decide
  have hascii : ∀ b ∈ (Source.ofString "class A; def m; end; end").bytes, b < 0x80 :=
    fun b hb => of_decide_eq_true (List.all_eq_true.1 hall b (Array.mem_def.1 hb))
  refine ⟨?_, ?_, (outline_encodings _ (classWithMethod 2) .rails .utf8 .utf16).1,
    (outline_encodings _ (classWithMethod 1) .rails .utf8 .utf16).2.1 hascii⟩
  · simp only [starts, outlineIn]
    rw [outline_convertTree_eq _ .rails 6 (by decide) (by decide)]
    decide
  · simp only [starts, outlineIn]
    rw [outline_convertTree_eq _ .rails 6 (by decide) (by decide)]
    decide

end RubyOutline
