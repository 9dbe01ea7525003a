/-
RubyOutline/Proofs/Outline/Recursion.lean

The outline of a syntax tree by plain recursion: `n.symbols table context` are the symbols that a
node contributes where it stands, with no stack of tasks and no builder.  The context is all that
a node has to know of its surroundings: whether a class or module is open, and if so which
superclass the innermost one declares.

Every node does one of three things (`Contribution`): it opens a container of its own, it
contributes leaves and hides its children, or it is passed through.  Both the recursion
(`SyntaxNode.symbols_eq`) and a single visit of the walk (`Walk.visit_eq`) depend on the node in
this way only, so that a proof about either has three cases.
-/
import RubyOutline.Outline

namespace RubyOutline

variable (table : MacroTable)

/-! ### What a call declares -/

/-- The field that an argument of an attribute macro declares: a symbol or a string without
interpolation whose text is not empty. -/
def SyntaxNode.declaredField (n : SyntaxNode) : Option SymbolInfo :=
  match n.form with
  | .symbolLiteral value =>
    if value = "" then none else some ⟨value, .field, n.range, n.range⟩
  | .stringLiteral fragments false =>
    if String.join fragments = "" then none
    else some ⟨String.join fragments, .field, n.range, n.range⟩
  | _ => none

/-- The leaves that a call declares where the innermost scope has the given superclass, and
`none` for ordinary code. -/
def Call.declaredLeaves (superclass : Option String) (range : SourceRange) (c : Call SyntaxNode) :
    Option (List SymbolInfo) :=
  let leaf (name : String) : SymbolInfo := ⟨name, .method, range, c.messageRange⟩
  if c.onSelf = false then none
  else if table.isTestAlias c.method ∧ table.isTestBase superclass then
    match c.arguments with
    | [] => some []
    | first :: _ => some (first.displayName.toList.map leaf)
  else match table.callback? c.method with
    | some callback =>
      match callback.acceptsArguments, c.arguments with
      | true, first :: rest =>
        some (((first :: rest).filterMap (·.displayName)).map fun name =>
          leaf (callback.name ++ "(" ++ name ++ ")"))
      | _, _ =>
        if callback.acceptsBlock ∧ c.block.isSome then
          some [leaf (callback.name ++ "(" ++ "<anonymous>" ++ ")")]
        else some []
    | none =>
      if table.isAttributeMacro c.method then some (c.arguments.filterMap (·.declaredField))
      else none

/-! ### The recursion -/

/-- Where a node stands: `none` outside of every class and module, and otherwise the superclass
that the innermost of them declares. -/
abbrev Context := Option (Option String)

mutual

/-- The symbols that a node contributes where it stands. -/
def SyntaxNode.symbols (context : Context) : SyntaxNode → List Symbol
  | ⟨range, .classDecl name nameRange superclass body⟩ =>
    [⟨⟨name, .class, range, nameRange⟩, symbolsOfList (some superclass) body⟩]
  | ⟨range, .moduleDecl name nameRange body⟩ =>
    [⟨⟨name, .namespace, range, nameRange⟩, symbolsOfList (some none) body⟩]
  | ⟨range, .methodDecl name nameRange _⟩ =>
    if context.isSome then [.leaf ⟨name, .method, range, nameRange⟩] else []
  | ⟨range, .call ⟨method, messageRange, receiver, arguments, keywords, block⟩⟩ =>
    match Call.declaredLeaves table context.join range
        ⟨method, messageRange, receiver, arguments, keywords, block⟩ with
    | some leaves => if context.isSome then leaves.map .leaf else []
    | none =>
      symbolsOfOption context receiver ++ symbolsOfList context arguments ++
        symbolsOfKeywords context keywords ++ symbolsOfOption context block
  | ⟨_, .lambda body⟩ => symbolsOfList context body
  | ⟨_, .block body⟩ => symbolsOfList context body
  | ⟨_, .other _ children⟩ => symbolsOfList context children
  | ⟨_, .stringLiteral ..⟩ | ⟨_, .symbolLiteral ..⟩ | ⟨_, .constantRef ..⟩
  | ⟨_, .constantPath ..⟩ => []
termination_by structural n => n

def symbolsOfList (context : Context) : List SyntaxNode → List Symbol
  | [] => []
  | n :: ns => n.symbols context ++ symbolsOfList context ns
termination_by structural ns => ns

def symbolsOfOption (context : Context) : Option SyntaxNode → List Symbol
  | none => []
  | some n => n.symbols context
termination_by structural n => n

def symbolsOfKeywords (context : Context) : List (KeywordArgument SyntaxNode) → List Symbol
  | [] => []
  | ⟨_, value⟩ :: keywords => value.symbols context ++ symbolsOfKeywords context keywords
termination_by structural keywords => keywords

end

theorem symbolsOfList_eq_flatMap (context : Context) (ns : List SyntaxNode) :
    symbolsOfList table context ns = ns.flatMap (·.symbols table context) := by
  induction ns with
  | nil => rfl
  | cons n ns ih => rw [symbolsOfList, List.flatMap_cons, ih]

theorem symbolsOfOption_eq_flatMap (context : Context) (n : Option SyntaxNode) :
    symbolsOfOption table context n = n.toList.flatMap (·.symbols table context) := by
  cases n with
  | none => rfl
  | some n => rw [symbolsOfOption, Option.toList_some, List.flatMap_singleton]

theorem symbolsOfKeywords_eq_flatMap (context : Context)
    (keywords : List (KeywordArgument SyntaxNode)) :
    symbolsOfKeywords table context keywords =
      (keywords.map (·.value)).flatMap (·.symbols table context) := by
  induction keywords with
  | nil => rfl
  | cons k ks ih =>
    obtain ⟨key, value⟩ := k
    rw [symbolsOfKeywords, List.map_cons, List.flatMap_cons, ih]

/-! ### Contributions -/

/-- What a node does to an outline, its children apart. -/
inductive Contribution
  | container (info : SymbolInfo) (superclass : Option String)
  | leaves (infos : List SymbolInfo)
  | passage

/-- What a node does where the innermost scope has the given superclass. -/
def SyntaxNode.contribution (superclass : Option String) (n : SyntaxNode) : Contribution :=
  match n.form with
  | .classDecl name nameRange superclass _ =>
    .container ⟨name, .class, n.range, nameRange⟩ superclass
  | .moduleDecl name nameRange _ => .container ⟨name, .namespace, n.range, nameRange⟩ none
  | .methodDecl name nameRange _ => .leaves [⟨name, .method, n.range, nameRange⟩]
  | .call c =>
    match c.declaredLeaves table superclass n.range with
    | some infos => .leaves infos
    | none => .passage
  | _ => .passage

/-- The symbols of a node, by what it contributes. -/
theorem SyntaxNode.symbols_eq (context : Context) (n : SyntaxNode) :
    n.symbols table context =
      match n.contribution table context.join with
      | .container info superclass =>
        [⟨info, n.childNodes.flatMap (·.symbols table (some superclass))⟩]
      | .leaves infos => if context.isSome then infos.map .leaf else []
      | .passage => n.childNodes.flatMap (·.symbols table context) := by
  obtain ⟨range, form⟩ := n
  cases form with
  | classDecl name nameRange superclass body
  | moduleDecl name nameRange body =>
    simp [symbols, contribution, childNodes, Form.holes, symbolsOfList_eq_flatMap]
  | methodDecl name nameRange body => simp [symbols, contribution]
  | call c =>
    obtain ⟨method, messageRange, receiver, arguments, keywords, block⟩ := c
    simp only [symbols, contribution]
    split
    · rfl
    · simp only [childNodes, Form.holes, Call.holes, List.flatMap_append,
        symbolsOfOption_eq_flatMap, symbolsOfList_eq_flatMap, symbolsOfKeywords_eq_flatMap]
  | lambda body | block body | other kind body =>
    simp [symbols, contribution, childNodes, Form.holes, symbolsOfList_eq_flatMap]
  | stringLiteral | symbolLiteral | constantRef | constantPath =>
    simp [symbols, contribution, childNodes, Form.holes]

/-! ### Recognition by the same rules -/

theorem attributeLeaf_eq_declaredField (n : SyntaxNode) : attributeLeaf n = n.declaredField := by
  obtain ⟨range, form⟩ := n
  cases form with
  | symbolLiteral value =>
    by_cases h : value = "" <;>
      simp [attributeLeaf, SyntaxNode.declaredField, SyntaxNode.displayName, nonempty?, h]
  | stringLiteral fragments interpolated =>
    cases interpolated with
    | true => simp [attributeLeaf, SyntaxNode.declaredField, SyntaxNode.displayName]
    | false =>
      by_cases h : String.join fragments = "" <;>
        simp [attributeLeaf, SyntaxNode.declaredField, SyntaxNode.displayName, nonempty?, h]
  | _ => rfl

/-- A callback that takes arguments has a leaf for each of them that has a name. -/
theorem callbackNames_cons (first : SyntaxNode) (rest : List SyntaxNode)
    (block : Option SyntaxNode) :
    callbackNames (first :: rest) block = (first :: rest).filterMap (·.displayName) := rfl

theorem callbackNames_nil (block : Option SyntaxNode) :
    callbackNames [] block = if block.isSome then ["<anonymous>"] else [] := rfl

/-- The leaves of a recognised call are those that the call declares. -/
theorem leaves_recognize (superclass : Option String) (range : SourceRange)
    (c : Call SyntaxNode) :
    (c.recognize table superclass).leaves range c.messageRange =
      c.declaredLeaves table superclass range := by
  unfold Call.recognize Call.declaredLeaves
  cases c.onSelf with
  | false => rfl
  | true =>
    simp only [if_true, Bool.true_eq_false, if_false, Bool.and_eq_true]
    split
    · -- a test, named by its first argument if it has one
      cases c.arguments with
      | nil => rfl
      | cons first rest => rfl
    · cases table.callback? c.method with
      | none =>
        -- an attribute macro, or ordinary code
        simp only
        split
        · simp only [Recognition.leaves, funext attributeLeaf_eq_declaredField]
        · rfl
      | some callback =>
        -- arguments come first; the block counts when there are none to accept
        obtain ⟨name, family, acceptsArguments, acceptsBlock⟩ := callback
        simp only [Recognition.leaves]
        cases acceptsArguments with
        | false =>
          cases acceptsBlock <;> cases c.block <;>
            simp [callbackNames_nil, callbackLabel]
        | true =>
          cases c.arguments with
          | nil =>
            cases acceptsBlock <;> cases c.block <;>
              simp [callbackNames_nil, callbackLabel]
          | cons first rest => simp [callbackNames_cons, callbackLabel]

/-- What a call contributes, by what it is recognised as. -/
theorem contribution_call (superclass : Option String) (range : SourceRange)
    (c : Call SyntaxNode) :
    SyntaxNode.contribution table superclass ⟨range, .call c⟩ =
      match (c.recognize table superclass).leaves range c.messageRange with
      | some infos => .leaves infos
      | none => .passage := by
  rw [leaves_recognize]
  rfl

/-- Every list of leaves that a call can declare, each with what it takes to declare it. -/
inductive Call.Declares (superclass : Option String) (range : SourceRange) (c : Call SyntaxNode) :
    List SymbolInfo → Prop
  | test (onSelf : c.onSelf = true) (hname : table.isTestAlias c.method = true)
      (hbase : table.isTestBase superclass = true) :
      Declares superclass range c ((c.arguments.head?.bind (·.displayName)).toList.map fun name =>
        ⟨name, .method, range, c.messageRange⟩)
  | callback {callback : CallbackMacro} (onSelf : c.onSelf = true)
      (hcallback : table.callback? c.method = some callback) :
      Declares superclass range c
        ((callbackNames (if callback.acceptsArguments then c.arguments else [])
          (if callback.acceptsBlock then c.block else none)).map fun name =>
            ⟨callbackLabel callback.name name, .method, range, c.messageRange⟩)
  | attributes (onSelf : c.onSelf = true) (hname : table.isAttributeMacro c.method = true) :
      Declares superclass range c (c.arguments.filterMap (·.declaredField))

theorem Call.declares_of_declaredLeaves {superclass : Option String} {range : SourceRange}
    {c : Call SyntaxNode} {leaves : List SymbolInfo}
    (h : c.declaredLeaves table superclass range = some leaves) :
    c.Declares table superclass range leaves := by
  rw [← leaves_recognize, recognize] at h
  split at h
  · rename_i hself
    split at h
    · rename_i htest
      rw [Bool.and_eq_true] at htest
      cases h
      exact .test hself htest.1 htest.2
    · cases hcallback : table.callback? c.method with
      | some callback =>
        rw [hcallback] at h
        cases h
        exact .callback hself hcallback
      | none =>
        simp only [hcallback] at h
        split at h
        · rename_i hattribute
          simp only [Recognition.leaves, funext attributeLeaf_eq_declaredField] at h
          cases h
          exact .attributes hself hattribute
        · cases h
  · cases h

namespace SyntaxNode

variable {table} {superclass : Option String} {n : SyntaxNode}

/-- Only classes and modules open containers. -/
theorem cases_of_container {info : SymbolInfo} {own : Option String}
    (h : n.contribution table superclass = .container info own) :
    (∃ name nameRange body, n.form = .classDecl name nameRange own body ∧
      info = ⟨name, .class, n.range, nameRange⟩) ∨
    ∃ name nameRange body, n.form = .moduleDecl name nameRange body ∧ own = none ∧
      info = ⟨name, .namespace, n.range, nameRange⟩ := by
  obtain ⟨range, form⟩ := n
  cases form with
  | classDecl name nameRange superclass body =>
    cases h
    exact .inl ⟨_, _, _, rfl, rfl⟩
  | moduleDecl name nameRange body =>
    cases h
    exact .inr ⟨_, _, _, rfl, rfl, rfl⟩
  | call c =>
    simp only [contribution] at h
    split at h <;> cases h
  | _ => cases h

/-- Only methods and calls contribute leaves. -/
theorem cases_of_leaves {infos : List SymbolInfo}
    (h : n.contribution table superclass = .leaves infos) :
    (∃ name nameRange body, n.form = .methodDecl name nameRange body ∧
      infos = [⟨name, .method, n.range, nameRange⟩]) ∨
    ∃ c, n.form = .call c ∧ c.declaredLeaves table superclass n.range = some infos := by
  obtain ⟨range, form⟩ := n
  cases form with
  | methodDecl name nameRange body =>
    cases h
    exact .inl ⟨_, _, _, rfl, rfl⟩
  | call c =>
    simp only [contribution] at h
    split at h
    · rename_i leaves hleaves
      cases h
      exact .inr ⟨c, rfl, hleaves⟩
    · cases h
  | _ => cases h

end SyntaxNode

namespace Walk

/-- A single visit, by what the node contributes. -/
theorem visit_eq (n : SyntaxNode) (b : SymbolBuilder) :
    visit table n b =
      match n.contribution table (superclass b) with
      | .container info superclass =>
        (visitChildren n ++ [.closeScope], openContainer b info superclass)
      | .leaves infos => ([], attachLeaves b infos)
      | .passage => (visitChildren n, b) := by
  unfold visit SyntaxNode.contribution
  cases n.form with
  | call c =>
    simp only [leaves_recognize]
    cases c.declaredLeaves table (superclass b) n.range <;> rfl
  | _ => rfl

end Walk

end RubyOutline
