/-
RubyOutline/Proofs/Conversion/Comments.lean

Comments do not matter to the conversion, save in one place.  Whatever a layer looks for among the
children of a node it looks for by a field or by a kind that comments do not have, or it passes
over them, so that with comments removed it is the same layer of the nodes that stay
(`layer_apply`), and by induction the converted trees are the same (`convert_apply`).  The exception
is the superclass of a class, which is whatever comes first in its clause: a comment there is
read as the superclass (`convertTree_apply`, `outline_apply_ne_commentBeforeSuperclass`).
-/
import RubyOutline.Proofs.Conversion.Evaluation
import RubyOutline.Proofs.ParseNode.Comments

namespace RubyOutline

open ParseNode

/-- Of no superclass clause the removal takes a comment that comes first. -/
def CommentRemoval.SparesSuperclasses (r : CommentRemoval) (root : ParseNode) : Prop :=
  ∀ n ∈ root.nodes, n.shape = .classDecl → (n.child? "name").isSome →
    ∀ clause ∈ Converter.superclassClause n, ∀ first ∈ clause.namedChildren.head?, r.keeps first

instance (r : CommentRemoval) (root : ParseNode) : Decidable (r.SparesSuperclasses root) :=
  inferInstanceAs (Decidable (∀ n ∈ root.nodes, _ → _ → ∀ clause ∈ _, ∀ first ∈ _, _))

namespace Converter

variable {r : CommentRemoval} {root : ParseNode}

/-! ### Texts -/

variable (cv : Converter) (r)

@[simp] theorem text_apply (n : ParseNode) : cv.text (r.apply n) = cv.text n := by
  rw [text, r.span_apply, text]

@[simp] theorem range_apply (n : ParseNode) : cv.range (r.apply n) = cv.range n := by
  rw [range, r.span_apply, range]

@[simp] theorem symbolName_apply (n : ParseNode) : cv.symbolName (r.apply n) = cv.symbolName n := by
  rw [symbolName, text_apply, symbolName]

theorem isStringPart_apply (n : ParseNode) : isStringPart (r.apply n) = isStringPart n := by
  simp only [isStringPart, r.kind_apply]

theorem isInterpolation_apply (n : ParseNode) :
    isInterpolation (r.apply n) = isInterpolation n := by
  simp only [isInterpolation, r.kind_apply]

@[simp] theorem fragment_apply (n : ParseNode) : cv.fragment (r.apply n) = cv.fragment n := by
  have hparts : (r.apply n).namedChildren.filter isStringPart =
      (n.namedChildren.filter isStringPart).map r.apply := by
    refine r.filter_namedChildren_apply (isStringPart_apply r) (fun c hc => ?_) n
    refine CommentRemoval.keeps_of_kind fun hkind => ?_
    simp [isStringPart, hkind] at hc
  rw [fragment, hparts, List.map_map, fragment]
  congr 2
  funext c
  exact cv.text_apply r c

theorem any_isInterpolation_apply (n : ParseNode) :
    (r.apply n).namedChildren.any isInterpolation = n.namedChildren.any isInterpolation := by
  refine r.any_namedChildren_apply (isInterpolation_apply r) (fun c hc => ?_) n
  refine CommentRemoval.keeps_of_kind fun hkind => ?_
  simp [isInterpolation, hkind] at hc

theorem stringLayer_apply (pieces : List ParseNode) :
    cv.stringLayer (pieces.map r.apply) = (cv.stringLayer pieces).map r.apply r.apply := by
  simp only [stringLayer, Form.map, List.map_map, Function.comp_def, fragment_apply, List.any_map,
    any_isInterpolation_apply]

theorem constantPath_apply (n : ParseNode) (suffix : List String) :
    cv.constantPath (fun _ => none) (r.apply n) suffix =
      cv.constantPath (fun _ => none) n suffix := by
  induction n using descendants_induction generalizing suffix with
  | step n ih =>
    rw [constantPath, constantPath, r.child?_apply, r.child?_apply]
    cases n.child? "name" with
    | none => rfl
    | some name =>
      simp only [Option.map_some, r.shape_apply, text_apply]
      cases hscope : n.child? "scope" with
      | none => rfl
      | some scope =>
        simp only [Option.map_some, r.shape_apply, text_apply,
          ih scope (mem_descendants_of_child? hscope)]

/-! ### Holes -/

variable {r} {n : ParseNode}

theorem blockBody_apply (hfaithful : r.Faithful root) (hn : n ∈ root.nodes) :
    blockBody (r.apply n) = (blockBody n).map r.apply := by
  have hkind : "block_parameters" ≠ "comment" := by decide
  rw [blockBody, r.child?_apply, r.childOfKind?_apply n hkind, r.map_orElse, blockBody]
  refine CommentRemoval.statementsExcept_apply hfaithful hn [_] ?_
  exact List.forall_mem_singleton.2 (CommentRemoval.stays_orElse
    (CommentRemoval.stays_child? _) (CommentRemoval.stays_childOfKind? hkind))

theorem argumentNodes_apply (r : CommentRemoval) (n : ParseNode) :
    argumentNodes (r.apply n) = (argumentNodes n).map r.apply := by
  rw [argumentNodes, argumentNodes, r.child?_apply]
  cases n.child? "arguments" with
  | none => rfl
  | some list =>
    refine r.filter_namedChildren_apply (fun c => by rw [r.shape_apply]) (fun c hc => ?_) list
    exact CommentRemoval.keeps_of_shape (bne_iff_ne.1 hc)

theorem keyword_apply (cv : Converter) (r : CommentRemoval) (p : ParseNode) :
    cv.keyword (r.apply p) = (cv.keyword p).map fun k => ⟨k.key, r.apply k.value⟩ := by
  rw [keyword, keyword, r.child?_apply, r.child?_apply]
  cases p.child? "key" with
  | none => rfl
  | some key =>
    cases p.child? "value" with
    | none => rfl
    | some value => simp [keyText]

theorem callForm_apply (cv : Converter) (r : CommentRemoval) (n method : ParseNode) :
    cv.callForm (r.apply n) (r.apply method) = (cv.callForm n method).map r.apply r.apply := by
  have hpair : ∀ p, isPair (r.apply p) = isPair p := fun p => by rw [isPair, r.kind_apply, isPair]
  simp only [callForm, Form.map, Call.map, text_apply, range_apply, r.child?_apply,
    argumentNodes_apply, List.filter_map, List.filterMap_map, List.map_filterMap,
    Function.comp_def, hpair, keyword_apply]

/-! ### Layers -/

theorem superclassClause_apply (r : CommentRemoval) (n : ParseNode) :
    superclassClause (r.apply n) = (superclassClause n).map r.apply := by
  have hkind : "superclass" ≠ "comment" := by decide
  rw [superclassClause, r.child?_apply, r.childOfKind?_apply n hkind, r.map_orElse,
    superclassClause]

theorem stays_superclassClause : r.Stays n (superclassClause n) :=
  CommentRemoval.stays_orElse (CommentRemoval.stays_child? _)
    (CommentRemoval.stays_childOfKind? (by decide))

theorem superclassText_apply (cv : Converter)
    (hspares : ∀ clause ∈ superclassClause n, ∀ first ∈ clause.namedChildren.head?, r.keeps first) :
    cv.superclassText (r.apply n) = cv.superclassText n := by
  rw [superclassText, superclassClause_apply, superclassText]
  cases hclause : superclassClause n with
  | none => rfl
  | some clause =>
    have hfirst := hspares clause hclause
    simp only [Option.map_some, Option.bind_some, r.namedChildren_apply]
    cases hchildren : clause.namedChildren with
    | nil => rfl
    | cons first rest =>
      -- what comes first stays, so it comes first again
      rw [hchildren] at hfirst
      rw [List.filter_cons_of_pos (hfirst first rfl)]
      simp

theorem otherLayer_apply (r : CommentRemoval) (n : ParseNode) :
    otherLayer (r.apply n) = (otherLayer n).map r.apply r.apply := by
  rw [otherLayer, r.kind_apply, r.children_apply, ← r.applyTo_eq_map, r.statementsOf_applyTo]
  rfl

theorem classLayer_apply (cv : Converter) (hfaithful : r.Faithful root) (hn : n ∈ root.nodes)
    (hspares : (n.child? "name").isSome → ∀ clause ∈ superclassClause n,
      ∀ first ∈ clause.namedChildren.head?, r.keeps first) :
    cv.classLayer (r.apply n) = (cv.classLayer n).map (·.map r.apply r.apply) := by
  rw [classLayer, classLayer, r.child?_apply]
  cases hname : n.child? "name" with
  | none => rfl
  | some name =>
    have hbody := CommentRemoval.statementsExcept_apply hfaithful hn [some name, superclassClause n]
    have hstays : ∀ found ∈ [some name, superclassClause n], r.Stays n found := by
      rw [← hname]
      simp [CommentRemoval.stays_child?, stays_superclassClause]
    simp [Form.map, superclassClause_apply, ← hbody hstays,
      superclassText_apply cv (hspares (by simp [hname]))]

theorem moduleLayer_apply (cv : Converter) (hfaithful : r.Faithful root) (hn : n ∈ root.nodes) :
    cv.moduleLayer (r.apply n) = (cv.moduleLayer n).map (·.map r.apply r.apply) := by
  rw [moduleLayer, moduleLayer, r.child?_apply]
  cases hname : n.child? "name" with
  | none => rfl
  | some name =>
    have hstays : ∀ found ∈ [some name], r.Stays n found := by
      rw [← hname]
      simp [CommentRemoval.stays_child?]
    have hbody := CommentRemoval.statementsExcept_apply hfaithful hn _ hstays
    simp [Form.map, ← hbody]

theorem methodLayer_apply (cv : Converter) (hfaithful : r.Faithful root) (hn : n ∈ root.nodes) :
    cv.methodLayer (r.apply n) = (cv.methodLayer n).map (·.map r.apply r.apply) := by
  simp only [methodLayer, r.child?_apply]
  cases hname : n.child? "name" with
  | none => rfl
  | some name =>
    have hstays : ∀ found ∈ [some name, n.child? "parameters"], r.Stays n found := by
      rw [← hname]
      simp [CommentRemoval.stays_child?]
    have hbody := CommentRemoval.statementsExcept_apply hfaithful hn _ hstays
    simp [Form.map, ← hbody]

theorem singletonMethodLayer_apply (cv : Converter) (hfaithful : r.Faithful root)
    (hn : n ∈ root.nodes) :
    cv.singletonMethodLayer (r.apply n) =
      (cv.singletonMethodLayer n).map (·.map r.apply r.apply) := by
  rw [singletonMethodLayer, singletonMethodLayer, r.child?_apply]
  cases hobject : n.child? "object" with
  | none => exact methodLayer_apply cv hfaithful hn
  | some object =>
    simp only [Option.map_some, r.child?_apply]
    cases hname : n.child? "name" with
    | none => rfl
    | some name =>
      have hstays : ∀ found ∈ [some name, some object, n.child? "parameters"], r.Stays n found := by
        rw [← hname, ← hobject]
        simp [CommentRemoval.stays_child?]
      have hbody := CommentRemoval.statementsExcept_apply hfaithful hn _ hstays
      simp [Form.map, ← hbody]

theorem callLayer_apply (cv : Converter) (r : CommentRemoval) (n : ParseNode) :
    cv.callLayer (r.apply n) = (cv.callLayer n).map (·.map r.apply r.apply) := by
  rw [callLayer, callLayer, r.child?_apply, Option.map_map, Option.map_map]
  congr 1
  funext method
  exact cv.callForm_apply r n method

/-- With comments removed, the layer of a node is that of the nodes that stay. -/
theorem layer_apply (cv : Converter) (hfaithful : r.Faithful root)
    (hspares : r.SparesSuperclasses root) (hn : n ∈ root.nodes) :
    cv.layer (fun _ => none) (r.apply n) =
      (cv.layer (fun _ => none) n).map r.apply r.apply := by
  rw [layer, layer, r.shape_apply, otherLayer_apply]
  cases hshape : n.shape with
  | classDecl =>
    simp only
    rw [classLayer_apply cv hfaithful hn (hspares n hn hshape), Option.getD_map]
  | moduleDecl =>
    simp only
    rw [moduleLayer_apply cv hfaithful hn, Option.getD_map]
  | methodDecl =>
    simp only
    rw [methodLayer_apply cv hfaithful hn, Option.getD_map]
  | singletonMethodDecl =>
    simp only
    rw [singletonMethodLayer_apply cv hfaithful hn, Option.getD_map]
  | call =>
    simp only
    rw [callLayer_apply, Option.getD_map]
  | string => exact cv.stringLayer_apply r [n]
  | chainedString =>
    -- the pieces are the strings among the children, whatever stands between them
    have hstrings : (r.apply n).namedChildren.filter (·.shape = .string) =
        (n.namedChildren.filter (·.shape = .string)).map r.apply := by
      refine r.filter_namedChildren_apply (fun c => by rw [r.shape_apply]) (fun c hc => ?_) n
      exact CommentRemoval.keeps_of_shape (by rw [of_decide_eq_true hc]; decide)
    simp only
    rw [hstrings, stringLayer_apply]
  | simpleSymbol => simp [Form.map]
  | delimitedSymbol =>
    simp only
    rw [any_isInterpolation_apply, fragment_apply]
    split <;> rfl
  | constant => simp [Form.map]
  | scopeResolution =>
    simp only
    rw [constantPath_apply]
    split <;> rfl
  | lambda =>
    simp only
    rw [r.child?_apply]
    cases hbody : n.child? "body" with
    | none => rfl
    | some body =>
      have hroot : body ∈ root.nodes := mem_nodes_of_mem_children hn (mem_of_child? hbody)
      simp [Form.map, blockBody_apply hfaithful hroot]
  | block =>
    simp only
    rw [blockBody_apply hfaithful hn]
    rfl
  | skipped | body | plain => rfl

/-! ### Trees -/

theorem convert_apply (cv : Converter) (hfaithful : r.Faithful root)
    (hspares : r.SparesSuperclasses root) (hn : n ∈ root.nodes) :
    cv.convert (r.apply n) = cv.convert n := by
  induction n using descendants_induction with
  | step n ih =>
    have hbelow : ∀ m ∈ n.descendants, cv.convert (r.apply m) = cv.convert m := fun m hm =>
      ih m hm (mem_nodes_trans hn (mem_nodes_of_mem_descendants hm))
    rw [convert_eq_map, convert_eq_map, layer_apply cv hfaithful hspares hn, Form.map_map,
      range_apply]
    refine congrArg (SyntaxNode.mk (cv.range n)) (Form.map_congr ?_ ?_)
    · intro c hc
      exact hbelow c (mem_descendants_of_mem_holes hc)
    · -- a block is converted anew from its statements
      intro b hb
      have hb : b ∈ n.descendants := mem_descendants_of_mem_holes hb
      have hroot : b ∈ root.nodes := mem_nodes_trans hn (mem_nodes_of_mem_descendants hb)
      rw [Function.comp_apply, convertBlock, blockBody_apply hfaithful hroot, range_apply,
        List.map_map, convertBlock]
      congr 2
      refine List.map_congr_left fun c hc => hbelow c ?_
      exact mem_descendants_of_mem_blockBody_below hb hc

/-- **Removing comments changes no outline unless it changes a superclass.**  The converted trees
are the same, and with them the outlines for every table, whichever comments go and wherever they
stand, and whatever the new ids.  Only a comment that comes first in a superclass clause has to
stay. -/
theorem convertTree_apply (source : Source) (encoding : PositionEncoding)
    (hids : root.DistinctIds) (hids' : (r.apply root).DistinctIds)
    (hspares : r.SparesSuperclasses root) :
    let cv := ofSource source encoding
    cv.convertTree (r.apply root) = cv.convertTree root ∧
      ∀ table, outline table (cv.convertTree (r.apply root)) =
        outline table (cv.convertTree root) := by
  intro cv
  have htrees : cv.convertTree (r.apply root) = cv.convertTree root := by
    rw [convertTree_eq hids, convertTree_eq hids']
    exact convert_apply cv (CommentRemoval.faithful_of_distinctIds hids') hspares
      root.mem_nodes_self
  exact ⟨htrees, fun table => by rw [htrees]⟩

/-- A test class with a comment after its superclass and one after the name of its test. -/
def commentsInClass : ParseNode :=
  spanning 0 "class" (0, 0, 0) (50, 3, 3) none
    [spanning 1 "constant" (6, 0, 6) (7, 0, 7) (some "name") [],
     spanning 2 "superclass" (8, 0, 8) (18, 0, 18) (some "superclass")
       [spanning 3 "constant" (10, 0, 10) (18, 0, 18) none []],
     spanning 4 "comment" (19, 0, 19) (25, 0, 25) none [],
     spanning 5 "body_statement" (28, 1, 2) (46, 2, 3) (some "body")
       [spanning 6 "call" (28, 1, 2) (46, 2, 3) none
         [spanning 7 "identifier" (28, 1, 2) (32, 1, 6) (some "method") [],
          spanning 8 "argument_list" (32, 1, 6) (46, 2, 3) (some "arguments")
            [spanning 9 "string" (33, 1, 7) (36, 1, 10) none
              [spanning 10 "string_content" (34, 1, 8) (35, 1, 9) none []],
             spanning 11 "comment" (37, 1, 11) (42, 1, 16) none []]]]]

theorem convertTree_apply_commentsInClass :
    let r : CommentRemoval := ⟨fun _ => true, fun i => if i < 4 then i else i - 1⟩
    let cv := ofSource
      (.ofString "class A < TestCase # base\n  test(\"x\" # why\n  )\nend\n") .utf16
    commentsInClass.DistinctIds ∧ (r.apply commentsInClass).DistinctIds ∧
    r.SparesSuperclasses commentsInClass ∧ (r.apply commentsInClass).nodes.length = 10 ∧
    ((outline .rails (cv.convertTree commentsInClass)).flatMap Symbol.walk).map (·.info.name) =
      ["A", "x"] ∧
    cv.convertTree (r.apply commentsInClass) = cv.convertTree commentsInClass ∧
      ∀ table, outline table (cv.convertTree (r.apply commentsInClass)) =
        outline table (cv.convertTree commentsInClass) := by
  intro r cv
  have hids : commentsInClass.DistinctIds := by decide
  have hids' : (r.apply commentsInClass).DistinctIds := by decide
  have hspares : r.SparesSuperclasses commentsInClass := by decide
  refine ⟨hids, hids', hspares, by decide, ?_, convertTree_apply _ _ hids hids' hspares⟩
  rw [outline_convertTree_eq cv .rails 12 hids (by decide)]
  decide

/-- A test class with a comment before its superclass. -/
def commentBeforeSuperclass : ParseNode :=
  spanning 0 "class" (0, 0, 0) (44, 3, 3) none
    [spanning 1 "constant" (6, 0, 6) (7, 0, 7) (some "name") [],
     spanning 2 "superclass" (8, 0, 8) (29, 1, 12) (some "superclass")
       [spanning 3 "comment" (10, 0, 10) (16, 0, 16) none [],
        spanning 4 "constant" (21, 1, 4) (29, 1, 12) none []],
     spanning 5 "body_statement" (32, 2, 2) (40, 2, 10) (some "body")
       [spanning 6 "call" (32, 2, 2) (40, 2, 10) none
         [spanning 7 "identifier" (32, 2, 2) (36, 2, 6) (some "method") [],
          spanning 8 "argument_list" (37, 2, 7) (40, 2, 10) (some "arguments")
            [spanning 9 "string" (37, 2, 7) (40, 2, 10) none
              [spanning 10 "string_content" (38, 2, 8) (39, 2, 9) none []]]]]]

/-- A comment before the superclass is read as the superclass, and the tests of the class are not
listed. -/
theorem outline_apply_ne_commentBeforeSuperclass :
    let r : CommentRemoval := ⟨fun _ => true, fun i => if i < 3 then i else i - 1⟩
    let cv := ofSource (.ofString "class A < # base\n    TestCase\n  test \"x\"\nend\n") .utf16
    commentBeforeSuperclass.DistinctIds ∧ (r.apply commentBeforeSuperclass).DistinctIds ∧
    outline .rails (cv.convertTree (r.apply commentBeforeSuperclass)) ≠
      outline .rails (cv.convertTree commentBeforeSuperclass) := by
  intro r cv
  have hids : commentBeforeSuperclass.DistinctIds := by decide
  have hids' : (r.apply commentBeforeSuperclass).DistinctIds := by decide
  let names (symbols : List Symbol) : List String := (symbols.flatMap Symbol.walk).map (·.info.name)
  have hbefore : names (outline .rails (cv.convertTree commentBeforeSuperclass)) = ["A"] := by
    rw [outline_convertTree_eq cv .rails 11 hids (by decide)]
    decide
  have hafter : names (outline .rails (cv.convertTree (r.apply commentBeforeSuperclass))) =
      ["A", "x"] := by
    rw [outline_convertTree_eq cv .rails 11 hids' (by decide)]
    decide
  refine ⟨hids, hids', fun h => ?_⟩
  rw [h, hbefore] at hafter
  exact absurd hafter (by decide)

end Converter

end RubyOutline
