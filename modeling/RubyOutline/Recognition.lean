/-
RubyOutline/Recognition.lean

What a call declares.  A call on the implicit receiver or on `self` can declare a test (within a
test class), a lifecycle callback or attributes, and these are tried in that order; any other
call is ordinary code.  A declaration contributes leaves to the outline, named after its
arguments as far as these have names that can be read off the source.
-/
import RubyOutline.MacroTable
import RubyOutline.Symbol
import RubyOutline.SyntaxNode

namespace RubyOutline

/-! ### Names -/

/-- The name of what has none of its own. -/
def anonymous : String := "<anonymous>"

/-- The segments joined by `::`, after a leading `::` when rooted. -/
def constantPathName (segments : List String) (rooted : Bool) : String :=
  let joined := "::".intercalate segments
  if rooted then "::" ++ joined else joined

/-- A text unless it is empty. -/
def nonempty? (s : String) : Option String :=
  if s = "" then none else some s

namespace SyntaxNode

/-- The name of a constant or constant path. -/
def constantName (n : SyntaxNode) : Option String :=
  match n.form with
  | .constantRef name => some name
  | .constantPath segments rooted => some (constantPathName segments rooted)
  | _ => none

/-- The name shown for an argument, if it has one: literals are named by their text unless it is
empty or interpolated, constants by their path, `Foo.new(...)` by its receiver. -/
def displayName (n : SyntaxNode) : Option String :=
  match n.form with
  | .stringLiteral fragments interpolated =>
    if interpolated then none else nonempty? (String.join fragments)
  | .symbolLiteral value => nonempty? value
  | .constantRef _ | .constantPath _ _ => n.constantName
  | .call c => c.receiver.bind constantName
  | .lambda _ => some anonymous
  | _ => none

end SyntaxNode

/-! ### Recognition -/

/-- What a call declares. -/
inductive Recognition
  | testDeclaration (nameArgument : Option SyntaxNode)
  | lifecycleCallback (name : String) (arguments : List SyntaxNode) (block : Option SyntaxNode)
  | attributeDeclaration (arguments : List SyntaxNode)
  | unrecognized

/-- The receiver is implicit or `self`. -/
def Call.onSelf (c : Call SyntaxNode) : Bool :=
  match c.receiver with
  | none => true
  | some ⟨_, .other kind _⟩ => kind == "self"
  | some _ => false

/-- What a call declares in a scope with the given superclass. -/
def Call.recognize (table : MacroTable) (superclass : Option String) (c : Call SyntaxNode) :
    Recognition :=
  if c.onSelf then
    if table.isTestAlias c.method && table.isTestBase superclass then
      .testDeclaration c.arguments.head?
    else match table.callback? c.method with
      | some callback =>
        .lifecycleCallback callback.name
          (if callback.acceptsArguments then c.arguments else [])
          (if callback.acceptsBlock then c.block else none)
      | none =>
        if table.isAttributeMacro c.method then .attributeDeclaration c.arguments
        else .unrecognized
  else .unrecognized

/-! ### Leaves -/

/-- The name of a callback's leaf. -/
def callbackLabel (callback name : String) : String :=
  callback ++ "(" ++ name ++ ")"

/-- The names of the leaves of a callback: one for each argument with a name, or a single
anonymous one for a block without arguments. -/
def callbackNames (arguments : List SyntaxNode) (block : Option SyntaxNode) : List String :=
  if arguments.isEmpty then
    if block.isSome then [anonymous] else []
  else arguments.filterMap (·.displayName)

/-- The leaf of an attribute: a symbol or a string with a name. -/
def attributeLeaf (n : SyntaxNode) : Option SymbolInfo :=
  match n.form with
  | .symbolLiteral _ | .stringLiteral _ _ =>
    n.displayName.map fun name => ⟨name, .field, n.range, n.range⟩
  | _ => none

/-- The leaves that a recognised call contributes, and `none` for an ordinary call. -/
def Recognition.leaves (range messageRange : SourceRange) : Recognition → Option (List SymbolInfo)
  | .testDeclaration nameArgument =>
    some ((nameArgument.bind (·.displayName)).toList.map fun name =>
      ⟨name, .method, range, messageRange⟩)
  | .lifecycleCallback callback arguments block =>
    some ((callbackNames arguments block).map fun name =>
      ⟨callbackLabel callback name, .method, range, messageRange⟩)
  | .attributeDeclaration arguments => some (arguments.filterMap attributeLeaf)
  | .unrecognized => none

end RubyOutline
