/-
RubyOutline/Proofs/Outline/Walk.lean

The walk with its stack of tasks and its builder does what the recursion says.

Within an open scope a visit, with all the tasks it leaves, comes down to taking in the node's
symbols under the scope (`run_visit_inside`): a container writes its own row, opens itself, lets
its children write theirs, and closes again, which is just how the builder takes in a whole tree
(`run_container`).  Outside of every scope containers are taken in at the roots and leaves are
dropped (`run_visit_outside`).  Either way the visit leaves the scopes as it found them, so no
scope is ever closed that is not open.  `exists_ofTree` puts this together for a whole tree.
-/
import RubyOutline.Proofs.Outline.Recursion
import RubyOutline.Proofs.SymbolBuilder

namespace RubyOutline

namespace Walk

open SymbolBuilder

variable {table : MacroTable}

/-! ### Single steps -/

@[simp] theorem run_nil (b : SymbolBuilder) : run table [] b = .ok b := by
  rw [run]

theorem run_visit (n : SyntaxNode) (pending : List Task) (b : SymbolBuilder) :
    run table (.visit n :: pending) b =
      run table ((visit table n b).1 ++ pending) (visit table n b).2 := by
  rw [run]

theorem run_closeScope {scope : Scope} {scopes : List Scope} {b : SymbolBuilder}
    (h : b.scopes = scope :: scopes) (pending : List Task) :
    run table (.closeScope :: pending) b = run table pending { b with scopes := scopes } := by
  rw [run, popScope, h]

/-- Leaves within a scope are taken in under it. -/
theorem attachLeaves_inside {b : SymbolBuilder} {scope : Scope} (h : b.currentScope = some scope)
    (leaves : List SymbolInfo) :
    attachLeaves b leaves = b.putTrees (.under scope.symbol) (leaves.map .leaf) := by
  induction leaves generalizing b with
  | nil => exact (putTrees_nil b _).symm
  | cons leaf leaves ih =>
    have hone : (b.attachLeaf (.leaf leaf)).2 = b.putTree (.under scope.symbol) (.leaf leaf) := by
      rw [attachLeaf, h]
    have hscope : (b.putTree (.under scope.symbol) (.leaf leaf)).currentScope = some scope := by
      rw [putTree_leaf]
      exact h
    rw [List.map_cons, putTrees_cons, ← ih hscope, ← hone]
    rfl

/-- Leaves outside of every scope are dropped. -/
theorem attachLeaves_outside {b : SymbolBuilder} (h : b.scopes = []) (leaves : List SymbolInfo) :
    (attachLeaves b leaves).scopes = [] ∧ (attachLeaves b leaves).roots = b.roots := by
  induction leaves generalizing b with
  | nil => exact ⟨h, rfl⟩
  | cons leaf leaves ih =>
    have hone : (b.attachLeaf (.leaf leaf)).2 = b.put leaf .nowhere := by
      rw [attachLeaf, currentScope, h, List.head?_nil, ← putTree_leaf]
    have hstep : attachLeaves b (leaf :: leaves) = attachLeaves (b.put leaf .nowhere) leaves := by
      rw [← hone]
      rfl
    obtain ⟨hscopes, hroots⟩ := ih (b := b.put leaf .nowhere) h
    rw [hstep]
    exact ⟨hscopes, hroots.trans (roots_put_nowhere b leaf)⟩

/-! ### Within a scope -/

/-- The builder after a node has been visited within a scope and all its tasks are done. -/
def TakesIn (table : MacroTable) (n : SyntaxNode) : Prop :=
  ∀ (b : SymbolBuilder) (scope : Scope) (pending : List Task), b.currentScope = some scope →
    run table (.visit n :: pending) b =
      run table pending
        (b.putTrees (.under scope.symbol) (n.symbols table (some scope.superclass)))

theorem run_visits_inside {ns : List SyntaxNode} (hns : ∀ n ∈ ns, TakesIn table n)
    {b : SymbolBuilder} {scope : Scope} (h : b.currentScope = some scope) (pending : List Task) :
    run table (ns.map .visit ++ pending) b =
      run table pending (b.putTrees (.under scope.symbol)
        (ns.flatMap (·.symbols table (some scope.superclass)))) := by
  induction ns generalizing b with
  | nil => rw [List.map_nil, List.nil_append, List.flatMap_nil, putTrees_nil]
  | cons n ns ih =>
    have hscope : (b.putTrees (.under scope.symbol)
        (n.symbols table (some scope.superclass))).currentScope = some scope := by
      rw [currentScope, scopes_putTrees]
      exact h
    rw [List.map_cons, List.cons_append, hns n List.mem_cons_self b scope _ h,
      ih (fun m hm => hns m (List.mem_cons_of_mem n hm)) hscope, ← putTrees_append,
      List.flatMap_cons]

/-- A container is taken in where its own row goes, with all that its children contribute within
it, and the scope it opened is closed again. -/
theorem run_container {n : SyntaxNode} {b : SymbolBuilder} {info : SymbolInfo}
    {own : Option String} (hn : n.contribution table (superclass b) = .container info own)
    (hchildren : ∀ c ∈ n.childNodes, TakesIn table c) (pending : List Task) :
    run table (.visit n :: pending) b =
      run table pending (b.putTree b.placeHere
        ⟨info, n.childNodes.flatMap (·.symbols table (some own))⟩) := by
  have hopen : (openContainer b info own).currentScope = some ⟨b.next, own⟩ := rfl
  have hscopes : ∀ ss, ((openContainer b info own).putTrees (.under b.next) ss).scopes =
      ⟨b.next, own⟩ :: b.scopes := fun ss => scopes_putTrees _ _ ss
  have hbuilder : openContainer b info own =
      { b.put info b.placeHere with scopes := ⟨b.next, own⟩ :: b.scopes } := by
    rw [openContainer, attach, putTree_leaf]
    rfl
  rw [run_visit, visit_eq, hn]
  simp only [List.append_assoc]
  rw [visitChildren, run_visits_inside hchildren hopen, List.singleton_append,
    run_closeScope (hscopes _), hbuilder, putTrees_withScopes, putTree_eq]
  -- what is left on both sides differs in the scopes that are open meanwhile
  exact congrArg (run table pending)
    (putTrees_withScopes (b.put info b.placeHere) b.scopes _ _).symm

/-- **Visits within a scope.**  Whatever is still to be done, a visit and the tasks it leaves come
down to taking in the node's symbols under the scope. -/
theorem run_visit_inside (n : SyntaxNode) : TakesIn table n := by
  induction n using SyntaxNode.childNodes_induction with
  | step n ih =>
    intro b scope pending h
    have hsuper : superclass b = scope.superclass := by
      rw [superclass, h]
      rfl
    rw [SyntaxNode.symbols_eq, Option.join_some, ← hsuper]
    cases hn : n.contribution table (superclass b) with
    | container info own =>
      have hplace : b.placeHere = .under scope.symbol := by
        rw [placeHere, h]
      rw [run_container hn ih, hplace, putTrees_cons, putTrees_nil]
    | leaves infos =>
      rw [run_visit, visit_eq, hn]
      simp only [List.nil_append, Option.isSome_some, if_true]
      rw [attachLeaves_inside h]
    | passage =>
      rw [run_visit, visit_eq, hn]
      simp only
      rw [visitChildren, run_visits_inside ih h, hsuper]

/-! ### Outside of every scope -/

/-- The builder after some tasks have been done outside of every scope, whatever is still to be
done: its roots have gained the symbols, and still no scope is open. -/
def AddsRoots (table : MacroTable) (tasks : List Task) (ss : List Symbol) : Prop :=
  ∀ b : SymbolBuilder, b.scopes = [] →
    ∃ b', (∀ pending, run table (tasks ++ pending) b = run table pending b') ∧
      b'.scopes = [] ∧ b'.roots = b.roots ++ ss

theorem AddsRoots.nil : AddsRoots table [] [] := fun b hb =>
  ⟨b, fun _ => rfl, hb, (List.append_nil _).symm⟩

theorem AddsRoots.append {xs ys : List Task} {ss ts : List Symbol} (hx : AddsRoots table xs ss)
    (hy : AddsRoots table ys ts) : AddsRoots table (xs ++ ys) (ss ++ ts) := by
  intro b hb
  obtain ⟨b₁, hrun₁, hscopes₁, hroots₁⟩ := hx b hb
  obtain ⟨b₂, hrun₂, hscopes₂, hroots₂⟩ := hy b₁ hscopes₁
  refine ⟨b₂, fun pending => ?_, hscopes₂, ?_⟩
  · rw [List.append_assoc, hrun₁, hrun₂]
  · rw [hroots₂, hroots₁, List.append_assoc]

theorem run_visits_outside {ns : List SyntaxNode}
    (hns : ∀ n ∈ ns, AddsRoots table [.visit n] (n.symbols table none)) :
    AddsRoots table (ns.map .visit) (ns.flatMap (·.symbols table none)) := by
  induction ns with
  | nil => exact .nil
  | cons n ns ih =>
    have hhead : AddsRoots table [.visit n] (n.symbols table none) := hns n List.mem_cons_self
    have htail : AddsRoots table (ns.map .visit) (ns.flatMap (·.symbols table none)) :=
      ih fun m hm => hns m (List.mem_cons_of_mem n hm)
    rw [List.map_cons, List.flatMap_cons, ← List.singleton_append]
    exact hhead.append htail

/-- **Visits outside of every scope.**  The symbols of the node come to stand behind the roots. -/
theorem run_visit_outside (n : SyntaxNode) :
    AddsRoots table [.visit n] (n.symbols table none) := by
  induction n using SyntaxNode.childNodes_induction with
  | step n ih =>
    intro b h
    have hnone : b.currentScope = none := by
      rw [currentScope, h]
      rfl
    have hsuper : superclass b = none := by
      rw [superclass, hnone]
      rfl
    rw [SyntaxNode.symbols_eq, Option.join_none, ← hsuper]
    cases hn : n.contribution table (superclass b) with
    | container info own =>
      have hplace : b.placeHere = .root := by
        rw [placeHere, hnone]
      refine ⟨b.putTrees .root [⟨info, n.childNodes.flatMap (·.symbols table (some own))⟩],
        fun pending => ?_, ?_, roots_putTrees_root b _⟩
      · rw [List.singleton_append, run_container hn fun c _ => run_visit_inside c, hplace,
          putTrees_cons, putTrees_nil]
      · rw [scopes_putTrees, h]
    | leaves infos =>
      obtain ⟨hscopes, hroots⟩ := attachLeaves_outside h infos
      refine ⟨attachLeaves b infos, fun pending => ?_, hscopes, ?_⟩
      · rw [List.singleton_append, run_visit, visit_eq, hn]
        rfl
      · -- the recursion drops them as well
        rw [hroots]
        simp
    | passage =>
      obtain ⟨b', hrun, hscopes, hroots⟩ := run_visits_outside ih b h
      refine ⟨b', fun pending => ?_, hscopes, hroots⟩
      rw [List.singleton_append, run_visit, visit_eq, hn]
      exact hrun pending

/-! ### Whole trees -/

/-- The walk through a whole tree succeeds, with no scope left open, and its roots are the symbols
of the tree. -/
theorem exists_ofTree (table : MacroTable) (root : SyntaxNode) :
    ∃ b, ofTree table root = .ok b ∧ b.scopes = [] ∧ b.roots = root.symbols table none := by
  have hroot : AddsRoots table [.visit root] (root.symbols table none) := run_visit_outside root
  obtain ⟨b, hrun, hscopes, hroots⟩ := hroot .empty rfl
  refine ⟨b, ?_, hscopes, ?_⟩
  · rw [ofTree, ← List.append_nil [Task.visit root], hrun, run_nil]
  · rw [hroots, roots_empty, List.nil_append]

end Walk

theorem outline_eq (table : MacroTable) (root : SyntaxNode) :
    outline table root = root.symbols table none := by
  obtain ⟨b, hb, _, hroots⟩ := Walk.exists_ofTree table root
  rw [outline, hb]
  exact hroots

/-- **The walk and the recursion agree.**  For every tree and every table the walk comes to its
end: no scope is closed when none is open, none is left open, and the outline that the builder
holds is the one that the recursion gives. -/
theorem walk_eq_recursion (table : MacroTable) (root : SyntaxNode) :
    (∃ b, Walk.ofTree table root = .ok b ∧ b.scopes = [] ∧ b.roots = root.symbols table none) ∧
      outline table root = root.symbols table none :=
  ⟨Walk.exists_ofTree table root, outline_eq table root⟩

end RubyOutline
