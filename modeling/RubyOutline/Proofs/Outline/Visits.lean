/-
RubyOutline/Proofs/Outline/Visits.lean

The visits that the walk makes, one after the other, each with the context that the open scopes
give it (`Walk.visits`).  Of all that the builder holds, only the superclasses of the open scopes
decide what comes next (`Walk.visits_congr`), and a visit leaves the scopes as it found them.  So
the visits within a tree do not depend on what is still to be done after it, and they are those of a
plain recursion (`Walk.visits_visit`).

Each class and module that is visited has its own symbol in the outline, with the same children
wherever it stands, and the outline has no other symbols of classes and modules
(`filter_isContainer_outline`).
-/
import RubyOutline.Proofs.Outline.Walk

namespace RubyOutline

variable {table : MacroTable}

/-! ### Classes and modules -/

/-- A node is a class or a module. -/
def SyntaxNode.isContainer (n : SyntaxNode) : Bool :=
  match n.form with
  | .classDecl .. | .moduleDecl .. => true
  | _ => false

/-- A symbol is that of a class or a module. -/
def Symbol.isContainer (s : Symbol) : Bool :=
  s.info.kind = .class ∨ s.info.kind = .namespace

namespace SyntaxNode

variable {n : SyntaxNode} {superclass : Option String}

/-- A container contributes the same wherever it stands. -/
theorem contribution_of_isContainer (h : n.isContainer = true) :
    ∃ info own, ∀ table superclass, n.contribution table superclass = .container info own := by
  obtain ⟨range, form⟩ := n
  cases form with
  | classDecl | moduleDecl => exact ⟨_, _, fun _ _ => rfl⟩
  | _ => cases h

theorem isContainer_of_container {info : SymbolInfo} {own : Option String}
    (h : n.contribution table superclass = .container info own) :
    n.isContainer = true ∧ (info.kind = .class ∨ info.kind = .namespace) := by
  unfold isContainer
  rcases cases_of_container h with ⟨name, nameRange, body, hform, rfl⟩ |
    ⟨name, nameRange, body, hform, -, rfl⟩
  · rw [hform]
    exact ⟨rfl, .inl rfl⟩
  · rw [hform]
    exact ⟨rfl, .inr rfl⟩

theorem kind_of_declaredField {info : SymbolInfo} (h : n.declaredField = some info) :
    info.kind = .field := by
  unfold declaredField at h
  split at h
  · split at h <;> cases h
    rfl
  · split at h <;> cases h
    rfl
  · cases h

theorem kind_of_leaf {infos : List SymbolInfo} (h : n.contribution table superclass = .leaves infos)
    {info : SymbolInfo} (hinfo : info ∈ infos) : info.kind = .method ∨ info.kind = .field := by
  rcases cases_of_leaves h with ⟨name, nameRange, body, -, rfl⟩ | ⟨c, -, hleaves⟩
  · rw [List.mem_singleton.1 hinfo]
    exact .inl rfl
  · cases Call.declares_of_declaredLeaves table hleaves with
    | test | callback =>
      obtain ⟨name, _, rfl⟩ := List.mem_map.1 hinfo
      exact .inl rfl
    | attributes =>
      obtain ⟨argument, _, hfield⟩ := List.mem_filterMap.1 hinfo
      exact .inr (kind_of_declaredField hfield)

end SyntaxNode

/-! ### Visits -/

namespace Walk

/-- A visit to a node, with the context that the open scopes give it. -/
structure Visit where
  node : SyntaxNode
  context : Context

/-- Where the next node stands. -/
def context (b : SymbolBuilder) : Context := b.currentScope.map (·.superclass)

theorem superclass_eq (b : SymbolBuilder) : superclass b = (context b).join := by
  rw [superclass, context, ← Option.bind_id_eq_join, Option.bind_map]
  rfl

/-- The visits that `run` makes. -/
def visits (table : MacroTable) : List Task → SymbolBuilder → List Visit
  | [], _ => []
  | .closeScope :: pending, b =>
    match b.popScope with
    | .error _ => []
    | .ok (_, b) => visits table pending b
  | .visit n :: pending, b =>
    ⟨n, context b⟩ :: visits table ((visit table n b).1 ++ pending) (visit table n b).2
termination_by pending => weight pending
decreasing_by
  · simp [weight_cons, Task.weight]
  · have := weight_visit_lt table n b
    simp only [weight_append, weight_cons]
    omega

theorem visits_cons (n : SyntaxNode) (pending : List Task) (b : SymbolBuilder) :
    visits table (.visit n :: pending) b =
      ⟨n, context b⟩ :: visits table ((visit table n b).1 ++ pending) (visit table n b).2 := by
  rw [visits]

theorem visits_closeScope {scope : Scope} {scopes : List Scope} {b : SymbolBuilder}
    (h : b.scopes = scope :: scopes) (pending : List Task) :
    visits table (.closeScope :: pending) b = visits table pending { b with scopes := scopes } := by
  rw [visits, SymbolBuilder.popScope, h]

/-- The superclasses of the open scopes, innermost first. -/
def superclasses (b : SymbolBuilder) : List (Option String) := b.scopes.map (·.superclass)

theorem context_eq (b : SymbolBuilder) : context b = (superclasses b).head? := by
  rw [context, SymbolBuilder.currentScope, superclasses, List.head?_map]

@[simp] theorem superclasses_attachLeaves (b : SymbolBuilder) (leaves : List SymbolInfo) :
    superclasses (attachLeaves b leaves) = superclasses b := by
  induction leaves generalizing b with
  | nil => rfl
  | cons leaf leaves ih =>
    have hone : superclasses (b.attachLeaf (.leaf leaf)).2 = superclasses b := by
      unfold SymbolBuilder.attachLeaf
      split <;> rw [SymbolBuilder.putTree_leaf] <;> rfl
    exact (ih _).trans hone

@[simp] theorem superclasses_openContainer (b : SymbolBuilder) (info : SymbolInfo)
    (own : Option String) : superclasses (openContainer b info own) = own :: superclasses b := by
  rw [openContainer, SymbolBuilder.attach, SymbolBuilder.putTree_leaf]
  rfl

theorem superclasses_of_error {b : SymbolBuilder} {error : NoOpenScope}
    (h : b.popScope = .error error) : superclasses b = [] := by
  obtain ⟨entries, scopes⟩ := b
  cases scopes with
  | nil => rfl
  | cons => cases h

theorem superclasses_of_ok {b rest : SymbolBuilder} {symbol : Nat}
    (h : b.popScope = .ok (symbol, rest)) : ∃ own, superclasses b = own :: superclasses rest := by
  obtain ⟨entries, scopes⟩ := b
  cases scopes with
  | nil => cases h
  | cons scope scopes =>
    cases h
    exact ⟨scope.superclass, rfl⟩

/-- A visit leaves the same tasks and opens the same superclasses whenever the same are open. -/
theorem visit_congr {b b' : SymbolBuilder} (h : superclasses b = superclasses b')
    (n : SyntaxNode) :
    (visit table n b).1 = (visit table n b').1 ∧
      superclasses (visit table n b).2 = superclasses (visit table n b').2 := by
  have hcontext : context b = context b' := by rw [context_eq, h, ← context_eq]
  rw [visit_eq, visit_eq, superclass_eq, superclass_eq, ← hcontext]
  cases n.contribution table (context b).join with
  | container info own => exact ⟨rfl, by simp only [superclasses_openContainer, h]⟩
  | leaves infos => exact ⟨rfl, by simp only [superclasses_attachLeaves, h]⟩
  | passage => exact ⟨rfl, h⟩

/-- What is visited depends on the superclasses of the open scopes only. -/
theorem visits_congr {pending : List Task} {b b' : SymbolBuilder}
    (h : superclasses b = superclasses b') :
    visits table pending b = visits table pending b' := by
  fun_induction visits table pending b generalizing b' with
  | case1 => rw [visits]
  | case2 pending b error hpop =>
    have hscopes' : b'.scopes = [] := by
      rw [superclasses_of_error hpop] at h
      exact List.map_eq_nil_iff.1 h.symm
    rw [visits, SymbolBuilder.popScope, hscopes']
  | case3 pending b symbol rest hpop ih =>
    obtain ⟨own, hown⟩ := superclasses_of_ok hpop
    obtain ⟨scope', scopes', hscopes', -, hrest⟩ := List.map_eq_cons_iff.1 (h.symm.trans hown)
    rw [visits_closeScope hscopes']
    exact ih hrest.symm
  | case4 n pending b ih =>
    obtain ⟨htasks, hsuper⟩ : (visit table n b).1 = (visit table n b').1 ∧
        superclasses (visit table n b).2 = superclasses (visit table n b').2 := visit_congr h n
    have hcontext : context b = context b' := by rw [context_eq, h, ← context_eq]
    rw [visits_cons, ← htasks, ih hsuper, hcontext]

end Walk

/-! ### The recursion -/

/-- The visits to a tree that stands in a context. -/
def SyntaxNode.visited (table : MacroTable) (context : Context) (n : SyntaxNode) :
    List Walk.Visit :=
  ⟨n, context⟩ :: match n.contribution table context.join with
    | .container _ own => n.childNodes.attach.flatMap fun c => c.1.visited table (some own)
    | .leaves _ => []
    | .passage => n.childNodes.attach.flatMap fun c => c.1.visited table context
termination_by sizeOf n
decreasing_by all_goals exact sizeOf_lt_of_mem_childNodes c.2

theorem SyntaxNode.visited_eq (context : Context) (n : SyntaxNode) :
    n.visited table context =
      ⟨n, context⟩ :: match n.contribution table context.join with
        | .container _ own => n.childNodes.flatMap (·.visited table (some own))
        | .leaves _ => []
        | .passage => n.childNodes.flatMap (·.visited table context) := by
  have hattach : ∀ context, n.childNodes.attach.flatMap (fun c => c.1.visited table context) =
      n.childNodes.flatMap (·.visited table context) := fun context => by
    rw [← List.flatMap_map, List.attach_map_subtype_val]
  rw [visited]
  simp only [hattach]

namespace Walk

/-- Within the tree the walk makes the visits of the recursion, and goes on as if it had not. -/
def VisitsIn (table : MacroTable) (n : SyntaxNode) : Prop :=
  ∀ (pending : List Task) (b : SymbolBuilder), visits table (.visit n :: pending) b =
    n.visited table (context b) ++ visits table pending b

theorem visits_visits {ns : List SyntaxNode} (hns : ∀ n ∈ ns, VisitsIn table n)
    (pending : List Task) (b : SymbolBuilder) :
    visits table (ns.map .visit ++ pending) b =
      ns.flatMap (·.visited table (context b)) ++ visits table pending b := by
  induction ns with
  | nil => rfl
  | cons n ns ih =>
    rw [List.map_cons, List.cons_append, hns n List.mem_cons_self,
      ih fun m hm => hns m (List.mem_cons_of_mem n hm), List.flatMap_cons, List.append_assoc]

/-- **The visits are those of the recursion**, whatever is still to be done. -/
theorem visits_visit (n : SyntaxNode) : VisitsIn table n := by
  induction n using SyntaxNode.childNodes_induction with
  | step n ih =>
    intro pending b
    rw [visits_cons, visit_eq, superclass_eq, SyntaxNode.visited_eq, List.cons_append]
    refine congrArg (_ :: ·) ?_
    cases n.contribution table (context b).join with
    | container info own =>
      -- the scope that the container opens is closed again, and then the scopes are those of `b`
      have hclosed : visits table (.closeScope :: pending) (openContainer b info own) =
          visits table pending b := (visits_closeScope rfl pending).trans (visits_congr rfl)
      have hopen : context (openContainer b info own) = some own := by
        rw [context_eq, superclasses_openContainer, List.head?_cons]
      show visits table (visitChildren n ++ [.closeScope] ++ pending) _ = _
      rw [visitChildren, List.append_assoc, visits_visits ih, hopen, List.singleton_append,
        hclosed]
    | leaves infos => exact visits_congr (superclasses_attachLeaves b infos)
    | passage => exact visits_visits ih pending b

/-- The visits of the walk through a whole tree. -/
def visitsOfTree (table : MacroTable) (root : SyntaxNode) : List Visit :=
  visits table [.visit root] .empty

theorem visitsOfTree_eq (table : MacroTable) (root : SyntaxNode) :
    visitsOfTree table root = root.visited table none := by
  rw [visitsOfTree, visits_visit, visits, List.append_nil]
  rfl

end Walk

/-! ### The symbols of classes and modules -/

/-- A class or module contributes one symbol, the same wherever it stands, and the walk attaches
just this symbol, whatever is open and whatever is still to be done. -/
theorem Walk.run_isContainer (table : MacroTable) {n : SyntaxNode} (h : n.isContainer = true) :
    ∃ s : Symbol, (∀ context, n.symbols table context = [s]) ∧
      ∀ (pending : List Task) (b : SymbolBuilder),
        run table (.visit n :: pending) b = run table pending (b.attach s) := by
  obtain ⟨info, own, hn⟩ := SyntaxNode.contribution_of_isContainer h
  refine ⟨⟨info, n.childNodes.flatMap (·.symbols table (some own))⟩, fun context => ?_,
    fun pending b => ?_⟩
  · rw [SyntaxNode.symbols_eq, hn]
  · exact run_container (hn table _) (fun c _ => run_visit_inside c) pending

/-- Leaves are not classes or modules. -/
theorem filter_isContainer_leaves {superclass : Option String} {n : SyntaxNode}
    {infos : List SymbolInfo} (h : n.contribution table superclass = .leaves infos) :
    ((infos.map Symbol.leaf).flatMap Symbol.walk).filter (·.isContainer) = [] := by
  rw [Symbol.flatMap_walk_leaves, List.filter_eq_nil_iff]
  intro s hs
  obtain ⟨info, hinfo, rfl⟩ := List.mem_map.1 hs
  rcases SyntaxNode.kind_of_leaf h hinfo with hkind | hkind <;>
    simp [Symbol.isContainer, Symbol.leaf, hkind]

theorem filter_isContainer_walk {info : SymbolInfo}
    (h : info.kind = .class ∨ info.kind = .namespace) (children : List Symbol) :
    (Symbol.walk ⟨info, children⟩).filter (·.isContainer) =
      ⟨info, children⟩ :: (children.flatMap Symbol.walk).filter (·.isContainer) := by
  rw [Symbol.walk, Symbol.walkAll_eq_flatMap]
  exact List.filter_cons_of_pos (decide_eq_true h)

/-- What a node contributes has, of classes and modules, the symbols of those that are visited. -/
theorem filter_isContainer_symbols (n : SyntaxNode) (context : Context) :
    ((n.symbols table context).flatMap Symbol.walk).filter (·.isContainer) =
      ((n.visited table context).filter (·.node.isContainer)).flatMap
        (·.node.symbols table none) := by
  induction n using SyntaxNode.childNodes_induction generalizing context with
  | step n ih =>
    have hbelow : ∀ context : Context,
        ((n.childNodes.flatMap (·.symbols table context)).flatMap Symbol.walk).filter
            (·.isContainer) =
          ((n.childNodes.flatMap (·.visited table context)).filter (·.node.isContainer)).flatMap
            (·.node.symbols table none) := by
      intro context
      rw [List.flatMap_assoc, List.filter_flatMap, List.filter_flatMap, List.flatMap_assoc]
      exact List.flatMap_congr fun c hc => ih c hc context
    rw [SyntaxNode.visited_eq, SyntaxNode.symbols_eq, List.filter_cons]
    cases hn : n.isContainer with
    | true =>
      obtain ⟨info, own, hcontribution⟩ := SyntaxNode.contribution_of_isContainer hn
      have hkind : info.kind = .class ∨ info.kind = .namespace :=
        (SyntaxNode.isContainer_of_container (hcontribution table none)).2
      have hsymbols : n.symbols table none =
          [⟨info, n.childNodes.flatMap (·.symbols table (some own))⟩] := by
        rw [SyntaxNode.symbols_eq, hcontribution]
      simp only [hcontribution, if_true, List.flatMap_singleton, filter_isContainer_walk hkind,
        hbelow (some own)]
      rw [List.flatMap_cons, hsymbols, List.singleton_append]
    | false =>
      rw [if_neg nofun]
      cases hcontribution : n.contribution table context.join with
      | container info own =>
        rw [(SyntaxNode.isContainer_of_container hcontribution).1] at hn
        cases hn
      | leaves infos =>
        show (List.flatMap Symbol.walk (if context.isSome then _ else [])).filter _ = []
        split
        · exact filter_isContainer_leaves hcontribution
        · rfl
      | passage => exact hbelow context

/-- **The classes and modules of an outline** are those that the walk visits, in the order of the
visits, each with the symbol that it has on its own. -/
theorem filter_isContainer_outline (table : MacroTable) (root : SyntaxNode) :
    ((outline table root).flatMap Symbol.walk).filter (·.isContainer) =
      ((Walk.visitsOfTree table root).filter (·.node.isContainer)).flatMap
        fun v => outline table v.node := by
  rw [Walk.visitsOfTree_eq, funext fun v : Walk.Visit => outline_eq table v.node, outline_eq]
  exact filter_isContainer_symbols root none

end RubyOutline
