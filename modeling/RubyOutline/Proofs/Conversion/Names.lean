/-
RubyOutline/Proofs/Conversion/Names.lean

When the outline of a parse tree has an entry without a name.  Every name in an outline is read
off the source, so it is empty where the node it is read from has no text, as the nodes that a
grammar supplies itself to get over an error have none.  Most entries have more to their name than
the text of one node, or are left out if that text is empty; the others have a name if the node has
text (`name_ne_empty_of_mem_outline_convertTree`).  Nothing else keeps an entry without a name out:
a method whose name the grammar had to supply is listed (`exists_nameless_methodOfSuppliedName`).
-/
import RubyOutline.Proofs.Conversion.Evaluation
import RubyOutline.Proofs.Outline.Names

namespace RubyOutline

namespace Converter

open ParseNode

variable {cv : Converter} {table : MacroTable}

/-! ### Names read off one node -/

/-- The constant that an argument is named after: the argument itself, or what it calls a method
on. -/
def namingConstant (a : ParseNode) : Option ParseNode :=
  match a.shape with
  | .constant => some a
  | .call => (a.child? "receiver").filter (·.shape = .constant)
  | _ => none

/-- The node whose text is the whole name under which a node is listed, if it is listed under the
text of one node: that of a class, a module or a method without an object, and of a test that is
named after a constant. -/
def soleName (cv : Converter) (table : MacroTable) (n : ParseNode) : Option ParseNode :=
  match n.shape with
  | .classDecl | .moduleDecl | .methodDecl => n.child? "name"
  | .singletonMethodDecl => if (n.child? "object").isSome then none else n.child? "name"
  | .call =>
    (n.child? "method").bind fun method =>
      if table.isTestAlias (cv.text method) then
        ((argumentNodes n).filter (!isPair ·)).head?.bind namingConstant
      else none
  | _ => none

/-- The nodes that names are read off have text. -/
def NamesGiven (cv : Converter) (table : MacroTable) (root : ParseNode) : Prop :=
  ∀ n ∈ root.nodes, ∀ name ∈ cv.soleName table n, cv.text name ≠ ""

instance (cv : Converter) (table : MacroTable) (root : ParseNode) :
    Decidable (cv.NamesGiven table root) :=
  inferInstanceAs (Decidable (∀ n ∈ root.nodes, ∀ name ∈ cv.soleName table n, _))

/-! ### Names of converted arguments -/

/-- A constant path begins with `::` or has two segments at least. -/
theorem rooted_or_length_of_constantPath {n : ParseNode} {suffix segments : List String}
    {rooted : Bool} (h : cv.constantPath (fun _ => none) n suffix = some (segments, rooted)) :
    rooted = true ∨ suffix.length + 2 ≤ segments.length := by
  induction n using descendants_induction generalizing suffix with
  | step n ih =>
    rw [constantPath] at h
    split at h
    · cases h
    · split at h
      · split at h
        · cases h
          exact .inl rfl
        · rename_i scope hscope
          split at h
          · cases h
            exact .inr (by simp)
          · rcases ih scope (mem_descendants_of_child? hscope) h with hrooted | hlength
            · exact .inl hrooted
            · rw [List.length_cons] at hlength
              exact .inr (by omega)
          · cases h
      · cases h

theorem constantName_convert {n : ParseNode} (h : (cv.convert n).constantName = some "") :
    n.shape = .constant ∧ cv.text n = "" := by
  rw [convert_eq_map] at h
  have hform := cv.isLayer_layer (fun _ => none) n
  generalize cv.layer (fun _ => none) n = form at h hform
  cases hform with
  | constant shape => exact ⟨shape, Option.some.inj h⟩
  | constantPath shape hpath =>
    have hlength := rooted_or_length_of_constantPath hpath
    exact absurd (Option.some.inj h) (constantPathName_ne_empty (hlength.imp_right fun h => by
      simpa using h))
  | _ => cases h

/-- A converted argument with an empty name is named after a constant without text. -/
theorem exists_namingConstant_of_displayName {a : ParseNode}
    (h : (cv.convert a).displayName = some "") :
    ∃ k, namingConstant a = some k ∧ cv.text k = "" := by
  rcases SyntaxNode.constantName_of_displayName h with h | ⟨c, receiver, hform, hreceiver, h⟩
  · obtain ⟨shape, htext⟩ := constantName_convert h
    exact ⟨a, by simp [namingConstant, shape], htext⟩
  · have hlayer := cv.isLayer_layer (fun _ => none) a
    rw [convert_eq_map] at hform
    generalize cv.layer (fun _ => none) a = form at hform hlayer
    cases hlayer with
    | call shape hmethod =>
      simp only [callForm, Form.map, Form.call.injEq] at hform
      rw [← hform] at hreceiver
      obtain ⟨r, hr, rfl⟩ := Option.map_eq_some_iff.1 hreceiver
      have hr : a.child? "receiver" = some r := hr
      obtain ⟨hconstant, htext⟩ := constantName_convert h
      exact ⟨r, by simp [namingConstant, shape, hr, hconstant], htext⟩
    | _ => cases hform

/-! ### Names of converted nodes -/

theorem nameGiven_convert {n : ParseNode}
    (h : ∀ name ∈ cv.soleName table n, cv.text name ≠ "") : (cv.convert n).NameGiven table := by
  rw [convert_eq_map]
  have hform := cv.isLayer_layer (fun _ => none) n
  generalize cv.layer (fun _ => none) n = form at hform
  cases hform with
  | classDecl shape hname | moduleDecl shape hname =>
    exact h _ (by simp [soleName, shape, hname])
  | methodDecl shape hname =>
    rcases shape with shape | ⟨shape, hobject⟩
    · exact h _ (by simp [soleName, shape, hname])
    · exact h _ (by simp [soleName, shape, hobject, hname])
  | singletonMethodDecl shape hobject hname =>
    -- the dot between object and name is always there
    simp [SyntaxNode.NameGiven, Form.map]
  | @call method shape hmethod =>
    intro (halias : table.isTestAlias (cv.text method)) first hfirst hempty
    simp only [Call.map, List.head?_map, Option.mem_def, Option.map_eq_some_iff] at hfirst
    obtain ⟨a, ha, rfl⟩ := hfirst
    obtain ⟨k, hk, htext⟩ := exists_namingConstant_of_displayName hempty
    refine h k ?_ htext
    simp only [soleName, shape, hmethod, Option.bind_some, Option.mem_def]
    rw [if_pos halias, ha, Option.bind_some, hk]
  | _ => trivial

theorem nameGiven_convertBlock (b : ParseNode) : (cv.convertBlock b).NameGiven table := trivial

/-! ### Outlines -/

/-- **Every entry has a name if the nodes that names are read off have text.**  This is all that
it takes: no name of a callback matters, damaged bytes are no less text than others, and nothing is
asked of literals or of the rest of the tree. -/
theorem name_ne_empty_of_mem_outline_convertTree (source : Source) (encoding : PositionEncoding)
    (table : MacroTable) {root : ParseNode} (hids : root.DistinctIds)
    (hnames : (ofSource source encoding).NamesGiven table root) :
    ∀ s ∈ (outline table ((ofSource source encoding).convertTree root)).flatMap Symbol.walk,
      s.info.name ≠ "" := by
  rw [convertTree_eq hids]
  have hgiven : ((ofSource source encoding).convert root).Everywhere (·.NameGiven table) :=
    everywhere_convert (fun n hn => nameGiven_convert (hnames n hn))
      (fun n _ => nameGiven_convertBlock n) root.mem_nodes_self
  exact name_ne_empty_of_nameGiven hgiven

/-- The class of `class A; def self. ; before_save ; end`, in which the grammar supplied the name of
the method and a constant to call back. -/
def suppliedNames : ParseNode :=
  inLine 0 "class" 0 38 none [inLine 1 "constant" 6 7 (some "name") [],
    inLine 2 "singleton_method" 9 18 none
      [inLine 3 "self" 13 17 (some "object") [], inLine 4 "identifier" 18 18 (some "name") []],
    inLine 5 "call" 21 32 none [inLine 6 "identifier" 21 32 (some "method") [],
      inLine 7 "argument_list" 32 32 (some "arguments") [inLine 8 "constant" 32 32 none []]]]

theorem name_ne_empty_of_mem_outline_convertTree_suppliedNames :
    let cv := ofSource (.ofString "class A; def self. ; before_save ; end") .utf16
    suppliedNames.DistinctIds ∧ cv.NamesGiven .rails suppliedNames ∧
    ((outline .rails (cv.convertTree suppliedNames)).flatMap Symbol.walk).map (·.info.name) =
      ["A", "self.", "before_save()"] ∧
    ∀ s ∈ (outline .rails (cv.convertTree suppliedNames)).flatMap Symbol.walk,
      s.info.name ≠ "" := by
  intro cv
  have hids : suppliedNames.DistinctIds := by decide
  have hnames : cv.NamesGiven .rails suppliedNames := by decide
  refine ⟨hids, hnames, ?_, name_ne_empty_of_mem_outline_convertTree _ _ .rails hids hnames⟩
  rw [outline_convertTree_eq cv .rails 9 hids (by decide)]
  decide

/-- The class of `class A; def ; end; end`, in which the grammar supplied the name of the method. -/
def methodOfSuppliedName : ParseNode :=
  inLine 0 "class" 0 23 none [inLine 1 "constant" 6 7 (some "name") [],
    inLine 2 "body_statement" 9 19 (some "body")
      [inLine 3 "method" 9 18 none [inLine 4 "identifier" 13 13 (some "name") []]]]

/-- A method whose name the grammar supplied is listed without a name. -/
theorem exists_nameless_methodOfSuppliedName :
    methodOfSuppliedName.DistinctIds ∧
    ∃ s ∈ (outline .rails ((ofSource (.ofString "class A; def ; end; end") .utf16).convertTree
      methodOfSuppliedName)).flatMap Symbol.walk, s.info.name = "" := by
  have hids : methodOfSuppliedName.DistinctIds := by decide
  have hnames :
      ((outline .rails ((ofSource (.ofString "class A; def ; end; end") .utf16).convertTree
        methodOfSuppliedName)).flatMap Symbol.walk).map (·.info.name) = ["A", ""] := by
    rw [outline_convertTree_eq _ .rails 5 hids (by decide)]
    decide
  refine ⟨hids, List.mem_map.1 ?_⟩
  rw [hnames]
  exact List.mem_cons_of_mem _ List.mem_cons_self

end Converter

end RubyOutline
