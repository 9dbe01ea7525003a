/-
RubyOutline/Proofs/Outline/Composition.lean

Outlines are put together from parts that do not know of each other.

* A run of nodes in a body can be put into a node of its own that is only passed through: into an
  `if`, into a block, into a lambda.  This can be done anywhere in a tree, and any number of times
  (`SyntaxNode.Wrapped`).  The two trees then contribute the same wherever they stand, and look the
  same to a call (`SyntaxNode.Wrapped.alike`).
* A class or module contributes the symbol that is the outline of it alone.  Neither the scopes that
  are open around it nor the tasks that wait behind it have a part in that
  (`Walk.run_isContainer`, `filter_isContainer_outline`).
-/
import RubyOutline.Proofs.Outline.Congruence
import RubyOutline.Proofs.Outline.Visits

namespace RubyOutline

variable {table : MacroTable}

/-! ### Wrapped runs -/

/-- The layers whose holes are one list of nodes, as functions of this list. -/
inductive Form.HasBody : (List SyntaxNode → Form SyntaxNode) → Prop
  | classDecl (name : String) (nameRange : SourceRange) (superclass : Option String) :
      HasBody (.classDecl name nameRange superclass)
  | moduleDecl (name : String) (nameRange : SourceRange) : HasBody (.moduleDecl name nameRange)
  | methodDecl (name : String) (nameRange : SourceRange) : HasBody (.methodDecl name nameRange)
  | lambda : HasBody .lambda
  | block : HasBody .block
  | other (kind : String) : HasBody (.other kind)

/-- Among them, those that are only passed through. -/
inductive Form.IsWrapper : (List SyntaxNode → Form SyntaxNode) → Prop
  | lambda : IsWrapper .lambda
  | block : IsWrapper .block
  | other (kind : String) : IsWrapper (.other kind)

namespace SyntaxNode

/-- Two trees, of which the second has some runs of nodes put into nodes of their own. -/
inductive Wrapped : SyntaxNode → SyntaxNode → Prop
  | refl (n : SyntaxNode) : Wrapped n n
  | trans {n m k : SyntaxNode} (hnm : Wrapped n m) (hmk : Wrapped m k) : Wrapped n k
  /-- A run of nodes in a body becomes the body of a wrapper in its place. -/
  | run {layer wrapper : List SyntaxNode → Form SyntaxNode} (hlayer : Form.HasBody layer)
      (hwrapper : Form.IsWrapper wrapper) (range range' : SourceRange)
      (before run after : List SyntaxNode) :
      Wrapped ⟨range, layer (before ++ run ++ after)⟩
        ⟨range, layer (before ++ ⟨range', wrapper run⟩ :: after)⟩
  /-- Of two nodes of one shape, what stands below is wrapped. -/
  | layer {range : SourceRange} (pairs : Form (SyntaxNode × SyntaxNode))
      (below : ∀ p ∈ pairs.holes, Wrapped p.1 p.2) :
      Wrapped (leftOf range pairs) (rightOf range pairs)

/-- A wrapper contributes what its body contributes. -/
theorem symbols_wrapper {wrapper : List SyntaxNode → Form SyntaxNode}
    (h : Form.IsWrapper wrapper) (context : Context) (range : SourceRange)
    (run : List SyntaxNode) :
    symbols table context ⟨range, wrapper run⟩ = run.flatMap (·.symbols table context) := by
  rw [symbols_eq]
  cases h with
  | lambda | block | other => rfl

/-- Nodes with like bodies are alike: the bodies contribute the same in every context. -/
theorem alike_of_hasBody {layer : List SyntaxNode → Form SyntaxNode} (h : Form.HasBody layer)
    {range : SourceRange} {ns ms : List SyntaxNode}
    (hsymbols : ∀ context : Context,
      ns.flatMap (·.symbols table context) = ms.flatMap (·.symbols table context))
    (context : Context) : Alike table context ⟨range, layer ns⟩ ⟨range, layer ms⟩ := by
  unfold Alike
  rw [symbols_eq, symbols_eq]
  cases h with
  | classDecl name nameRange superclass =>
    exact ⟨rfl, congrArg (fun children => [Symbol.mk _ children]) (hsymbols (some superclass))⟩
  | moduleDecl name nameRange =>
    exact ⟨rfl, congrArg (fun children => [Symbol.mk _ children]) (hsymbols (some none))⟩
  | methodDecl name nameRange => exact ⟨rfl, rfl⟩
  | lambda | block | other => exact ⟨rfl, hsymbols context⟩

/-- **Wrapped runs do not show**, wherever the tree stands. -/
theorem Wrapped.alike {n m : SyntaxNode} (h : n.Wrapped m) (context : Context) :
    Alike table context n m := by
  induction h generalizing context with
  | refl n => exact ⟨rfl, rfl⟩
  | trans _ _ ihnm ihmk =>
    obtain ⟨hface, hsymbols⟩ := ihnm context
    obtain ⟨hface', hsymbols'⟩ := ihmk context
    exact ⟨hface.trans hface', hsymbols.trans hsymbols'⟩
  | run hlayer hwrapper range range' before run after =>
    refine alike_of_hasBody hlayer (fun context => ?_) context
    rw [List.flatMap_append, List.flatMap_append, List.flatMap_append, List.flatMap_cons,
      symbols_wrapper hwrapper, List.append_assoc]
  | layer pairs _ ih => exact alike_layer fun p hp => ih p hp (pairs.within context)

end SyntaxNode

/-! ### Outlines -/

/-- **Outlines are compositional.**  Runs of nodes that are put into nodes of their own do not
change an outline.  A class or module has one symbol as its outline, and when the walk comes to it,
whatever is open then and whatever is still to be done, it attaches just this symbol.  So the
classes and modules that the walk visits are listed in the order of the visits, each as if it stood
alone. -/
theorem outline_compositional (table : MacroTable) (root : SyntaxNode) :
    (∀ root', root.Wrapped root' → outline table root' = outline table root) ∧
    (∀ n : SyntaxNode, n.isContainer = true → ∃ s, outline table n = [s] ∧
      ∀ (pending : List Walk.Task) (b : SymbolBuilder),
        Walk.run table (.visit n :: pending) b = Walk.run table pending (b.attach s)) ∧
    ((outline table root).flatMap Symbol.walk).filter (·.isContainer) =
      ((Walk.visitsOfTree table root).filter (·.node.isContainer)).flatMap
        fun v => outline table v.node := by
  refine ⟨fun root' h => ?_, fun n hn => ?_, filter_isContainer_outline table root⟩
  · rw [outline_eq, outline_eq]
    exact (h.alike none).2.symm
  · obtain ⟨s, hsymbols, hrun⟩ := Walk.run_isContainer table hn
    exact ⟨s, (outline_eq table n).trans (hsymbols none), hrun⟩

/-- A program with a class, in which a method is followed by some other statements. -/
def classWith (statements : List SyntaxNode) : SyntaxNode :=
  let line (i j : Nat) : SourceRange := ⟨⟨i, 0⟩, ⟨j, 60⟩⟩
  ⟨line 0 9, .other "program" [⟨line 0 9, .classDecl "A" (line 0 0) none
    (⟨line 1 2, .methodDecl "m" (line 1 1) []⟩ :: statements)⟩]⟩

/-- A nested class and a method after it, which are put into an `if`. -/
theorem outline_compositional_classInIf :
    let line (i j : Nat) : SourceRange := ⟨⟨i, 0⟩, ⟨j, 60⟩⟩
    let nested : SyntaxNode := ⟨line 4 5, .classDecl "B" (line 4 4) (some "Base") []⟩
    let statements := [nested, ⟨line 6 7, .methodDecl "n" (line 6 6) []⟩]
    let root := classWith statements
    let root' := classWith [⟨line 3 8, .other "if" statements⟩]
    root.Wrapped root' ∧ nested.isContainer = true ∧
    ((outline .rails root).flatMap Symbol.walk).map (·.info.name) = ["A", "m", "B", "n"] ∧
    outline .rails root' = outline .rails root ∧ (outline .rails nested).length = 1 := by
  intro line nested statements root root'
  have hwrapped : root.Wrapped root' :=
    .layer (.other "program" [(_, _)]) (List.forall_mem_singleton.2
      (.run (.classDecl "A" (line 0 0) none) (.other "if") (line 0 9) (line 3 8) [_] statements []))
  obtain ⟨hwrap, hcontainer, -⟩ := outline_compositional .rails root
  obtain ⟨s, hs, -⟩ := hcontainer nested rfl
  refine ⟨hwrapped, rfl, ?_, hwrap root' hwrapped, by rw [hs]; rfl⟩
  rw [outline_eq]
  decide

end RubyOutline
