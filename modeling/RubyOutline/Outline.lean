/-
RubyOutline/Outline.lean

The outline of a syntax tree.

Classes and modules open scopes; methods and recognised calls become leaves of the innermost
scope and are not entered; everything else is passed through.  `Walk.run` goes through the tree
with one stack of pending tasks, on which a container leaves a task that closes its scope after
its body, and hands all symbols to a `SymbolBuilder`; the depth of a tree thus costs no depth of
recursion.  `outline` is the forest the builder ends with.
-/
import RubyOutline.Recognition
import RubyOutline.SymbolBuilder

namespace RubyOutline

namespace Walk

/-- What is still to be done. -/
inductive Task
  | visit (node : SyntaxNode)
  | closeScope

/-- What a task weighs: visiting a node weighs more than visiting its children and closing a
scope. -/
noncomputable def Task.weight : Task → Nat
  | .visit node => sizeOf node
  | .closeScope => 1

noncomputable def weight : List Task → Nat
  | [] => 0
  | t :: pending => t.weight + weight pending

@[simp] theorem weight_nil : weight [] = 0 := rfl

@[simp] theorem weight_cons (t : Task) (pending : List Task) :
    weight (t :: pending) = t.weight + weight pending := rfl

@[simp] theorem weight_append (ts pending : List Task) :
    weight (ts ++ pending) = weight ts + weight pending := by
  induction ts with
  | nil => simp
  | cons t ts ih =>
    rw [List.cons_append, weight_cons, weight_cons, ih]
    omega

/-- The tasks of visiting the children of a node. -/
def visitChildren (n : SyntaxNode) : List Task := n.childNodes.map .visit

theorem weight_visits_lt (ns : List SyntaxNode) : weight (ns.map .visit) < sizeOf ns := by
  induction ns with
  | nil => simp
  | cons n ns ih =>
    simp only [List.map_cons, weight_cons, Task.weight, List.cons.sizeOf_spec]
    omega

theorem weight_visitChildren_lt (n : SyntaxNode) :
    weight (visitChildren n) + 1 < (Task.visit n).weight :=
  Nat.lt_of_le_of_lt (weight_visits_lt n.childNodes) n.sizeOf_childNodes_lt

/-- Attaches leaves one after the other. -/
def attachLeaves (b : SymbolBuilder) (leaves : List SymbolInfo) : SymbolBuilder :=
  leaves.foldl (fun b leaf => (b.attachLeaf (.leaf leaf)).2) b

/-- Attaches the symbol of a container and opens it. -/
def openContainer (b : SymbolBuilder) (info : SymbolInfo) (superclass : Option String) :
    SymbolBuilder :=
  (b.attach (.leaf info)).pushScope b.next superclass

/-- The superclass of the innermost open scope. -/
def superclass (b : SymbolBuilder) : Option String :=
  b.currentScope.bind (·.superclass)

/-- A visit: the tasks it adds in front of the others, and the builder after it. -/
def visit (table : MacroTable) (n : SyntaxNode) (b : SymbolBuilder) : List Task × SymbolBuilder :=
  match n.form with
  | .classDecl name nameRange superclass _ =>
    (visitChildren n ++ [.closeScope],
      openContainer b ⟨name, .class, n.range, nameRange⟩ superclass)
  | .moduleDecl name nameRange _ =>
    (visitChildren n ++ [.closeScope],
      openContainer b ⟨name, .namespace, n.range, nameRange⟩ none)
  | .methodDecl name nameRange _ =>
    ([], attachLeaves b [⟨name, .method, n.range, nameRange⟩])
  | .call c =>
    match (c.recognize table (superclass b)).leaves n.range c.messageRange with
    | some leaves => ([], attachLeaves b leaves)
    | none => (visitChildren n, b)
  | _ => (visitChildren n, b)

theorem weight_visit_lt (table : MacroTable) (n : SyntaxNode) (b : SymbolBuilder) :
    weight (visit table n b).1 < (Task.visit n).weight := by
  have h := weight_visitChildren_lt n
  unfold visit
  split
  case h_4 => split <;> (simp [Task.weight] at *; omega)
  all_goals (simp [Task.weight] at *; omega)

/-- Works off the pending tasks. -/
def run (table : MacroTable) : List Task → SymbolBuilder → Except NoOpenScope SymbolBuilder
  | [], b => .ok b
  | .closeScope :: pending, b =>
    match b.popScope with
    | .error e => .error e
    | .ok (_, b) => run table pending b
  | .visit n :: pending, b =>
    run table ((visit table n b).1 ++ pending) (visit table n b).2
termination_by pending => weight pending
decreasing_by
  · simp [weight_cons, Task.weight]
  · have := weight_visit_lt table n b
    simp only [weight_append, weight_cons]
    omega

/-- The builder after the walk through a whole tree. -/
def ofTree (table : MacroTable) (root : SyntaxNode) : Except NoOpenScope SymbolBuilder :=
  run table [.visit root] .empty

end Walk

/-- The outline of a syntax tree: its top-level symbols in source order. -/
def outline (table : MacroTable) (root : SyntaxNode) : List Symbol :=
  match Walk.ofTree table root with
  | .ok builder => builder.roots
  | .error _ => []

end RubyOutline
