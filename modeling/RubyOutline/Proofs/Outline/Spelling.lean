/-
RubyOutline/Proofs/Outline/Spelling.lean

Ways of spelling one tree.  The method of a call can be renamed to another one with the same entry
in the table, as all names are that declare tests and nothing else; and the text of a string can be
cut into other fragments.  Neither shows in an outline.

A call that is renamed is recognised as before in every scope and with every receiver, and neither
its face nor that of any call above it depends on its method.  A string that is cut differently has
the same text, and so the same face.  The rest is congruence (`SyntaxNode.alike_layer`).
-/
import RubyOutline.Proofs.Outline.Congruence
import RubyOutline.Proofs.Outline.Lookups
import RubyOutline.Proofs.SyntaxNode.Layers

namespace RubyOutline

variable {table : MacroTable}

/-! ### Renamed calls -/

/-- A layer with the method renamed if it is a call. -/
def Form.mapMethod (f : String → String) : Form SyntaxNode → Form SyntaxNode
  | .call c => .call { c with method := f c.method }
  | form => form

namespace SyntaxNode

/-- The tree with the methods of all calls renamed, wherever the calls stand. -/
def renameCalls (f : String → String) : SyntaxNode → SyntaxNode :=
  mapLayers id (Form.mapMethod f)

theorem renameCalls_eq (f : String → String) (n : SyntaxNode) :
    n.renameCalls f =
      ⟨n.range, (n.form.map (renameCalls f) (renameCalls f)).mapMethod f⟩ :=
  mapLayers_eq id (Form.mapMethod f) n

/-- A call is like the call of another method with the same entry. -/
theorem alike_mapMethod {f : String → String}
    (hf : ∀ method, table.entry method = table.entry (f method)) (context : Context)
    (range : SourceRange) (form : Form SyntaxNode) :
    Alike table context ⟨range, form⟩ ⟨range, form.mapMethod f⟩ := by
  cases form with
  | call c =>
    have hrecognize : c.recognize table context.join =
        { c with method := f c.method }.recognize table context.join :=
      Call.recognize_congr (hf c.method) rfl
    refine ⟨face_call_congr rfl, ?_⟩
    rw [Form.mapMethod, symbols_eq, symbols_eq, contribution_call, contribution_call, hrecognize]
    rfl
  | _ => exact ⟨rfl, rfl⟩

/-- **Renamed calls cannot be told apart** if the new methods have the entries of the old ones. -/
theorem alike_renameCalls {f : String → String}
    (hf : ∀ method, table.entry method = table.entry (f method)) (context : Context)
    (n : SyntaxNode) : Alike table context n (n.renameCalls f) := by
  induction n using childNodes_induction generalizing context with
  | step n ih =>
    rw [renameCalls_eq]
    have hbelow : Alike table context n ⟨n.range, n.form.map (renameCalls f) (renameCalls f)⟩ :=
      keptByLayers_alike.map fun c hc => ih c hc _
    exact hbelow.trans (alike_mapMethod hf context _ _)

end SyntaxNode

/-- A name that declares tests and nothing else. -/
structure MacroTable.OnlyTestAlias (t : MacroTable) (name : String) : Prop where
  isTestAlias : t.isTestAlias name = true
  callback? : t.callback? name = none
  isAttributeMacro : t.isAttributeMacro name = false

theorem MacroTable.OnlyTestAlias.entry {t : MacroTable} {name : String} (h : t.OnlyTestAlias name) :
    t.entry name = ⟨true, none, false⟩ := by
  rw [MacroTable.entry, h.isTestAlias, h.callback?, h.isAttributeMacro]

/-! ### Strings cut into other fragments -/

namespace SyntaxNode

/-- Two trees that differ in how the texts of strings are cut into fragments at most. -/
inductive Resplit : SyntaxNode → SyntaxNode → Prop
  | layer {range : SourceRange} (pairs : Form (SyntaxNode × SyntaxNode))
      (below : ∀ p ∈ pairs.holes, Resplit p.1 p.2) :
      Resplit (leftOf range pairs) (rightOf range pairs)
  | string {range : SourceRange} {fragments fragments' : List String} (interpolated : Bool)
      (htext : String.join fragments = String.join fragments') :
      Resplit ⟨range, .stringLiteral fragments interpolated⟩
        ⟨range, .stringLiteral fragments' interpolated⟩

theorem keptByLayers_resplit : KeptByLayers fun _ => Resplit := fun _ _ pairs below =>
  .layer pairs below

/-- A string shows its text only, however that is cut. -/
theorem face_stringLiteral_congr {fragments fragments' : List String}
    (h : String.join fragments = String.join fragments') (range : SourceRange)
    (interpolated : Bool) :
    face ⟨range, .stringLiteral fragments interpolated⟩ =
      face ⟨range, .stringLiteral fragments' interpolated⟩ := by
  cases interpolated <;> simp only [face, isSelf, constantName, displayName, declaredField, h]

theorem Resplit.alike {n m : SyntaxNode} (h : n.Resplit m) (context : Context) :
    Alike table context n m := by
  induction h generalizing context with
  | layer pairs below ih => exact alike_layer fun p hp => ih p hp _
  | string interpolated htext => exact ⟨face_stringLiteral_congr htext _ interpolated, rfl⟩

end SyntaxNode

/-! ### Outlines -/

open SyntaxNode

/-- **Spelling variants have one outline.**  Of two names that declare tests and nothing else, one
can be written for the other throughout a tree, and the texts of strings can be cut into any
fragments; also both at once. -/
theorem outline_respelled (table : MacroTable) {a b : String} (ha : table.OnlyTestAlias a)
    (hb : table.OnlyTestAlias b) (root : SyntaxNode) :
    let rename := renameCalls fun method => if method = a then b else method
    outline table (rename root) = outline table root ∧
    ∀ root', root.Resplit root' →
      outline table root' = outline table root ∧
      outline table (rename root') = outline table root := by
  intro rename
  have hentry : ∀ method,
      table.entry method = table.entry (if method = a then b else method) := by
    intro method
    split
    · rename_i hmethod
      rw [hmethod, ha.entry, hb.entry]
    · rfl
  have hrename : ∀ root, outline table (rename root) = outline table root := fun root =>
    (outline_eq_of_alike (alike_renameCalls hentry none root)).symm
  refine ⟨hrename root, fun root' h => ?_⟩
  have hresplit : outline table root' = outline table root :=
    (outline_eq_of_alike (h.alike none)).symm
  exact ⟨hresplit, (hrename root').trans hresplit⟩

/-- A test case with a test, and with a call of the same method on another receiver as the argument
of a callback. -/
def testCaseSpelled (method : String) (fragments : List String) : SyntaxNode :=
  let line (i : Nat) : SourceRange := ⟨⟨i, 2⟩, ⟨i, 40⟩⟩
  let title : SyntaxNode := ⟨line 1, .stringLiteral fragments false⟩
  let receiver : SyntaxNode := ⟨line 2, .constantRef "Checks"⟩
  let argument : SyntaxNode := ⟨line 2, .call ⟨method, line 2, some receiver, [], [], none⟩⟩
  ⟨⟨⟨0, 0⟩, ⟨3, 3⟩⟩, .classDecl "ATest" ⟨⟨0, 6⟩, ⟨0, 11⟩⟩ (some "TestCase")
    [⟨line 1, .call ⟨method, line 1, none, [title], [], none⟩⟩,
     ⟨line 2, .call ⟨"before_save", line 2, none, [argument], [], none⟩⟩]⟩

theorem outline_respelled_testCaseSpelled :
    let root := testCaseSpelled "test" ["saves", " twice"]
    let root' := testCaseSpelled "test" ["", "saves tw", "ice"]
    let rename := renameCalls fun method => if method = "test" then "it" else method
    MacroTable.rails.OnlyTestAlias "test" ∧ MacroTable.rails.OnlyTestAlias "it" ∧
    root.Resplit root' ∧
    ((outline .rails root).flatMap Symbol.walk).map (·.info.name) =
      ["ATest", "saves twice", "before_save(Checks)"] ∧
    outline .rails (rename root) = outline .rails root ∧
    outline .rails root' = outline .rails root ∧
    outline .rails (rename root') = outline .rails root := by
  intro root root' rename
  have htest : MacroTable.rails.OnlyTestAlias "test" := ⟨by decide, by decide, by decide⟩
  have hit : MacroTable.rails.OnlyTestAlias "it" := ⟨by decide, by decide, by decide⟩
  have hresplit : root.Resplit root' := by
    refine .layer (.classDecl "ATest" ⟨⟨0, 6⟩, ⟨0, 11⟩⟩ (some "TestCase")
      (root.childNodes.zip root'.childNodes)) (List.forall_mem_cons.2 ⟨?_, ?_⟩)
    · exact .layer (.call ⟨"test", ⟨⟨1, 2⟩, ⟨1, 40⟩⟩, none, [(_, _)], [], none⟩)
        (List.forall_mem_singleton.2 (.string false (by decide)))
    · exact List.forall_mem_singleton.2 (keptByLayers_resplit.refl none _)
  have h := outline_respelled .rails htest hit root
  refine ⟨htest, hit, hresplit, ?_, h.1, h.2 root' hresplit⟩
  rw [outline_eq]
  decide

end RubyOutline
