/-
RubyOutline/SyntaxNode.lean

The abstract syntax the outline is made from: a closed set of forms, each with a source range.
Whatever the outline need not tell apart is an `other`, error recoveries included.

Design.  `Form α` is one layer of a tree whose children are of type `α`, and `SyntaxNode` ties the
knot.  A converter from another kind of tree then only has to say, for one node, which layer it is
and which nodes stand in the holes (`Form ParseNode`), and `Form.mapHoles` does the rest.  The hole
for the block of a call is filled by a function of its own, because there another kind of tree may
have to be read in another way.
-/
import RubyOutline.Position
import RubyOutline.Sizes

namespace RubyOutline

/-- A `key: value` pair passed to a call. -/
structure KeywordArgument (α : Type) where
  key : String
  value : α
deriving DecidableEq, Repr

/-- A method invocation, with or without a receiver. -/
structure Call (α : Type) where
  method : String
  messageRange : SourceRange
  receiver : Option α
  arguments : List α
  keywords : List (KeywordArgument α)
  /-- What is attached to the call, as a rule a block. -/
  block : Option α
deriving DecidableEq, Repr

/-- One layer of a syntax tree. -/
inductive Form (α : Type)
  /-- `class Name < Superclass ... end` -/
  | classDecl (name : String) (nameRange : SourceRange) (superclass : Option String)
      (body : List α)
  /-- `module Name ... end` -/
  | moduleDecl (name : String) (nameRange : SourceRange) (body : List α)
  /-- `def name ... end`, or `def self.name ... end` with the name `self.name` -/
  | methodDecl (name : String) (nameRange : SourceRange) (body : List α)
  | call (call : Call α)
  /-- A string literal, possibly built from adjacent fragments. -/
  | stringLiteral (fragments : List String) (interpolated : Bool)
  /-- `:name` or `:"name"` -/
  | symbolLiteral (value : String)
  | constantRef (name : String)
  /-- `Foo::Bar`, or `::Foo::Bar` when rooted -/
  | constantPath (segments : List String) (rooted : Bool)
  /-- `-> { ... }` -/
  | lambda (body : List α)
  | block (body : List α)
  | other (kind : String) (children : List α)
deriving DecidableEq, Repr

structure SyntaxNode where
  range : SourceRange
  form : Form SyntaxNode

instance : Inhabited SyntaxNode := ⟨⟨default, .other "" []⟩⟩

variable {α β : Type}

/-! ### Holes -/

/-- What stands in the holes of a call: the receiver, the positional arguments, the values of the
keywords and the block. -/
def Call.holes (c : Call α) : List α :=
  c.receiver.toList ++ c.arguments ++ c.keywords.map (·.value) ++ c.block.toList

/-- What stands in the holes of a layer, from left to right. -/
def Form.holes : Form α → List α
  | .classDecl _ _ _ body => body
  | .moduleDecl _ _ body => body
  | .methodDecl _ _ body => body
  | .call c => c.holes
  | .lambda body => body
  | .block body => body
  | .other _ children => children
  | .stringLiteral .. | .symbolLiteral .. | .constantRef .. | .constantPath .. => []

/-- A call with its holes filled anew, that of the block by a function of its own; the functions
need only be defined on the holes. -/
def Call.mapHoles (c : Call α) (f fBlock : (a : α) → a ∈ c.holes → β) : Call β where
  method := c.method
  messageRange := c.messageRange
  receiver := c.receiver.pmap f fun a h => by simp [holes, h]
  arguments := c.arguments.pmap f fun a h => by simp [holes, h]
  keywords := c.keywords.pmap (fun k h => ⟨k.key, f k.value h⟩) fun k h => by
    have : k.value ∈ c.keywords.map (·.value) := List.mem_map_of_mem h
    simp only [holes, List.mem_append]
    exact .inl (.inr this)
  block := c.block.pmap fBlock fun a h => by simp [holes, h]

/-- A layer with its holes filled anew, those for blocks of calls by a function of its own; the
functions need only be defined on the holes. -/
def Form.mapHoles : (form : Form α) → (f fBlock : (a : α) → a ∈ form.holes → β) → Form β
  | .classDecl name nameRange superclass body, f, _ =>
    .classDecl name nameRange superclass (body.pmap f fun _ h => h)
  | .moduleDecl name nameRange body, f, _ => .moduleDecl name nameRange (body.pmap f fun _ h => h)
  | .methodDecl name nameRange body, f, _ => .methodDecl name nameRange (body.pmap f fun _ h => h)
  | .call c, f, fBlock => .call (c.mapHoles f fBlock)
  | .stringLiteral fragments interpolated, _, _ => .stringLiteral fragments interpolated
  | .symbolLiteral value, _, _ => .symbolLiteral value
  | .constantRef name, _, _ => .constantRef name
  | .constantPath segments rooted, _, _ => .constantPath segments rooted
  | .lambda body, f, _ => .lambda (body.pmap f fun _ h => h)
  | .block body, f, _ => .block (body.pmap f fun _ h => h)
  | .other kind children, f, _ => .other kind (children.pmap f fun _ h => h)

/-! ### Children -/

namespace SyntaxNode

/-- The direct children of a node, from left to right. -/
def childNodes (n : SyntaxNode) : List SyntaxNode := n.form.holes

/-! ### Sizes -/

theorem sizeOf_toList_le (n : Option SyntaxNode) : sizeOf n.toList ≤ sizeOf n + 1 := by
  cases n with
  | none => simp
  | some m =>
    simp only [Option.toList_some, List.cons.sizeOf_spec, List.nil.sizeOf_spec,
      Option.some.sizeOf_spec]
    omega

theorem sizeOf_values_le (ks : List (KeywordArgument SyntaxNode)) :
    sizeOf (ks.map (·.value)) ≤ sizeOf ks := by
  induction ks with
  | nil => simp
  | cons k ks ih =>
    cases k
    simp only [List.map_cons, List.cons.sizeOf_spec, KeywordArgument.mk.sizeOf_spec]
    omega

theorem sizeOf_holes_lt (c : Call SyntaxNode) : sizeOf c.holes < sizeOf c := by
  obtain ⟨method, messageRange, receiver, arguments, keywords, block⟩ := c
  have hreceiver := sizeOf_toList_le receiver
  have hvalues := sizeOf_values_le keywords
  have hblock := sizeOf_toList_le block
  have h₁ := sizeOf_append receiver.toList arguments
  have h₂ := sizeOf_append (receiver.toList ++ arguments) (keywords.map (·.value))
  have h₃ := sizeOf_append (receiver.toList ++ arguments ++ keywords.map (·.value)) block.toList
  simp only [Call.holes, Call.mk.sizeOf_spec]
  omega

/-- The children of a node are smaller than the node altogether. -/
theorem sizeOf_childNodes_lt (n : SyntaxNode) : sizeOf n.childNodes < sizeOf n := by
  obtain ⟨range, form⟩ := n
  cases form with
  | call c =>
    have := sizeOf_holes_lt c
    simp only [childNodes, Form.holes, mk.sizeOf_spec, Form.call.sizeOf_spec]
    omega
  | classDecl | moduleDecl | methodDecl | lambda | block | other | stringLiteral | symbolLiteral
  | constantRef | constantPath =>
    simp [childNodes, Form.holes]
    omega

theorem sizeOf_lt_of_mem_childNodes {n c : SyntaxNode} (h : c ∈ n.childNodes) :
    sizeOf c < sizeOf n :=
  Nat.lt_trans (List.sizeOf_lt_of_mem h) n.sizeOf_childNodes_lt

/-- What holds of a node whenever it holds of its children holds of every node. -/
@[elab_as_elim]
theorem childNodes_induction {motive : SyntaxNode → Prop}
    (step : ∀ n : SyntaxNode, (∀ c ∈ n.childNodes, motive c) → motive n) (n : SyntaxNode) :
    motive n :=
  step n fun c _ => childNodes_induction step c
termination_by sizeOf n
decreasing_by exact sizeOf_lt_of_mem_childNodes ‹_›

end SyntaxNode

end RubyOutline
