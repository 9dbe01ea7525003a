/-
RubyOutline/Proofs/Conversion/Ways.lean

The ways down a parse tree.  A way goes from parent to named child, and knows the nodes above it
(`ParseNode.Way`).  What is shut to ways that are to find the declarations (`ParseNode.Shut`) is
what is no code at all or is read for its text: comments, literals, the head of a declaration, the
key of an argument and the like.  A declaration without a name has no head, and is open altogether.

A tree is as the grammar has it (`ParseNode.Grammatical`) if the children that play a part in a
call, a pair or a lambda are named, arguments and blocks are of their kinds, and comments play no
part.

Most nodes are spliced: all their children but the head are open, and the statements of a wrapper
stand for it.  A way to such a node goes on to each of its statements
(`ParseNode.exists_way_of_mem_statementsExcept`).  It matters on the way whether it stands among the
arguments of a call, where other children are shut (`ParseNode.Free`).
-/
import RubyOutline.Proofs.Conversion.Declarations
import RubyOutline.Proofs.ParseNode.SourceOrder

namespace RubyOutline.ParseNode

open Converter (superclassClause isInterpolation isPair)

/-! ### Literals and heads -/

/-- A path of constants throughout, like `A::B` and `::A`. -/
inductive IsConstantPath : ParseNode → Prop
  | rooted {n name : ParseNode} (hname : n.child? "name" = some name)
      (hconstant : name.shape = .constant) (hscope : n.child? "scope" = none) : IsConstantPath n
  | constant {n name scope : ParseNode} (hname : n.child? "name" = some name)
      (hconstant : name.shape = .constant) (hscope : n.child? "scope" = some scope)
      (shape : scope.shape = .constant) : IsConstantPath n
  | path {n name scope : ParseNode} (hname : n.child? "name" = some name)
      (hconstant : name.shape = .constant) (hscope : n.child? "scope" = some scope)
      (shape : scope.shape = .scopeResolution) (hpath : IsConstantPath scope) : IsConstantPath n

/-- A string, a symbol without interpolation, a constant or a path of constants. -/
def IsLiteral (n : ParseNode) : Prop :=
  match n.shape with
  | .string | .chainedString | .simpleSymbol | .constant => True
  | .delimitedSymbol => n.namedChildren.any isInterpolation = false
  | .scopeResolution => n.IsConstantPath
  | _ => False

/-- The head of a node: the name of a declaration with what belongs to it, or the parameters of a
block. -/
def heads (n : ParseNode) : List (Option ParseNode) :=
  match n.shape, n.child? "name" with
  | .classDecl, some _ => [n.child? "name", superclassClause n]
  | .moduleDecl, some _ => [n.child? "name"]
  | .methodDecl, some _ => [n.child? "name", n.child? "parameters"]
  | .singletonMethodDecl, some _ =>
    [n.child? "name", n.child? "object", n.child? "parameters"]
  | .block, _ => [n.child? "parameters" <|> n.childOfKind? "block_parameters"]
  | _, _ => []

/-! ### Arguments -/

/-- A call that names its method. -/
def CallsMethod (n : ParseNode) : Prop := n.shape = .call ∧ n.child? "method" ≠ none

/-- A node holds the arguments of a call, the first of the nodes above it. -/
def HoldsArguments : List ParseNode → ParseNode → Prop
  | [], _ => False
  | call :: _, n => call.CallsMethod ∧ call.child? "arguments" = some n

/-- A node is a pair among the arguments of a call. -/
def IsPairArgument : List ParseNode → ParseNode → Prop
  | [], _ => False
  | arguments :: above, n => HoldsArguments above arguments ∧ isPair n

/-! ### Ways -/

/-- The ways down from a root that pass through nothing shut, with the nodes passed, the last one
first. -/
inductive Way (shut : List ParseNode → ParseNode → ParseNode → Prop) (root : ParseNode) :
    List ParseNode → ParseNode → Prop
  | root : Way shut root [] root
  | down {above : List ParseNode} {p c : ParseNode} (hp : Way shut root above p)
      (hc : c ∈ p.namedChildren) (hopen : ¬ shut above p c) : Way shut root (p :: above) c

/-- A node is at the end of a way. -/
def Reaches (shut : List ParseNode → ParseNode → ParseNode → Prop) (root n : ParseNode) : Prop :=
  ∃ above, Way shut root above n

/-- What is shut to a way that has come to a node: a child that is a comment, or one that stands
where no code is looked for. -/
inductive Shut (above : List ParseNode) (p c : ParseNode) : Prop
  | comment (shape : c.shape = .skipped)
  | literal (h : p.IsLiteral)
  | head (h : some c ∈ p.heads)
  | call (hcalls : p.CallsMethod) (hreceiver : p.child? "receiver" ≠ some c)
      (harguments : p.child? "arguments" ≠ some c) (hblock : p.child? "block" ≠ some c)
  | pair (hpair : IsPairArgument above p)
      (h : p.child? "key" = none ∨ p.child? "value" ≠ some c)
  | lambda (shape : p.shape = .lambda) (hbody : p.child? "body" ≠ some c)

theorem Way.mem_nodes {shut : List ParseNode → ParseNode → ParseNode → Prop} {root n : ParseNode}
    {above : List ParseNode} (h : Way shut root above n) : n ∈ root.nodes := by
  induction h with
  | root => exact root.mem_nodes_self
  | down _ hc _ ih => exact mem_nodes_of_mem_children ih (mem_of_mem_namedChildren hc)

/-! ### Trees of the grammar -/

/-- The parts of a tree are as the grammar has them. -/
structure Grammatical (root : ParseNode) : Prop where
  named : ∀ p ∈ root.nodes, ∀ c ∈ p.children,
    c.label.field ∈ ["receiver", "arguments", "block", "value", "body"].map some →
      c.label.named = true
  arguments : ∀ p ∈ root.nodes, p.shape = .call → ∀ c ∈ p.child? "arguments",
    c.kind = "argument_list"
  block : ∀ p ∈ root.nodes, p.shape = .call → ∀ c ∈ p.child? "block", c.shape = .block
  body : ∀ p ∈ root.nodes, p.shape = .lambda → ∀ c ∈ p.child? "body", c.shape = .block
  comments : ∀ p ∈ root.nodes, ∀ c ∈ p.children, c.shape = .skipped → c.label.field = none

instance (root : ParseNode) : Decidable root.Grammatical :=
  decidable_of_iff
    ((∀ p ∈ root.nodes, ∀ c ∈ p.children,
        c.label.field ∈ ["receiver", "arguments", "block", "value", "body"].map some →
          c.label.named = true) ∧
      (∀ p ∈ root.nodes, p.shape = .call → ∀ c ∈ p.child? "arguments",
        c.kind = "argument_list") ∧
      (∀ p ∈ root.nodes, p.shape = .call → ∀ c ∈ p.child? "block", c.shape = .block) ∧
      (∀ p ∈ root.nodes, p.shape = .lambda → ∀ c ∈ p.child? "body", c.shape = .block) ∧
      ∀ p ∈ root.nodes, ∀ c ∈ p.children, c.shape = .skipped → c.label.field = none)
    ⟨fun ⟨hnamed, harguments, hblock, hbody, hcomments⟩ =>
      ⟨hnamed, harguments, hblock, hbody, hcomments⟩,
      fun h => ⟨h.named, h.arguments, h.block, h.body, h.comments⟩⟩

theorem field_of_child? {n c : ParseNode} {field : String} (h : n.child? field = some c) :
    c.label.field = some field := by
  have hfound := List.find?_some h
  simpa using hfound

namespace Grammatical

variable {root p c : ParseNode}

/-- What plays a part is a named child, and no comment. -/
theorem mem_namedChildren (h : root.Grammatical) (hp : p ∈ root.nodes) {field : String}
    (hc : p.child? field = some c)
    (hfield : field ∈ ["receiver", "arguments", "block", "value", "body"]) :
    c ∈ p.namedChildren ∧ c.shape ≠ .skipped := by
  have hmem : c ∈ p.children := mem_of_child? hc
  refine ⟨List.mem_filter.2 ⟨hmem, h.named p hp c hmem ?_⟩, fun shape => ?_⟩
  · rw [field_of_child? hc]
    exact List.mem_map_of_mem hfield
  · have hnone := h.comments p hp c hmem shape
    rw [field_of_child? hc] at hnone
    cases hnone

/-- The arguments of a call are plain. -/
theorem shape_arguments (h : root.Grammatical) (hp : p ∈ root.nodes) (shape : p.shape = .call)
    (hc : p.child? "arguments" = some c) : c.shape = .plain := by
  rw [ParseNode.shape, h.arguments p hp shape c hc]
  rfl

end Grammatical

/-! ### Nodes that are no arguments -/

/-- A node neither holds the arguments of a call nor is a pair among them. -/
def Free (above : List ParseNode) (n : ParseNode) : Prop :=
  ¬ HoldsArguments above n ∧ ¬ IsPairArgument above n

/-- Below a node that is no call and holds no arguments nothing is an argument. -/
theorem Free.below {above : List ParseNode} {p c : ParseNode} (hp : ¬ HoldsArguments above p)
    (hcalls : ¬ p.CallsMethod) : Free (p :: above) c :=
  ⟨fun h => hcalls h.1, fun h => hp h.1⟩

/-- A child that plays another part holds no arguments. -/
theorem Free.part {above : List ParseNode} {p c : ParseNode} {field : String}
    (hp : ¬ HoldsArguments above p) (hc : p.child? field = some c) (hfield : field ≠ "arguments") :
    Free (p :: above) c := by
  refine ⟨fun h => hfield ?_, fun h => hp h.1⟩
  exact Option.some.inj ((field_of_child? hc).symm.trans (field_of_child? h.2))

theorem not_callsMethod_of_plain {n : ParseNode} (shape : n.shape = .plain) : ¬ n.CallsMethod :=
  fun h => nomatch shape.symm.trans h.1

/-- A node of which all children but the head are converted. -/
structure Spliced (n : ParseNode) : Prop where
  not_literal : ¬ n.IsLiteral
  not_calls : ¬ n.CallsMethod
  not_lambda : n.shape ≠ .lambda

/-- Declarations, blocks and all nodes that are no syntax of their own are spliced. -/
theorem spliced_of_shape {n : ParseNode}
    (h : n.shape ∈ [Shape.classDecl, .moduleDecl, .methodDecl, .singletonMethodDecl, .block,
      .skipped, .body, .plain]) : n.Spliced := by
  simp only [List.mem_cons, List.not_mem_nil, or_false] at h
  rcases h with shape | shape | shape | shape | shape | shape | shape | shape <;>
    constructor <;> simp [IsLiteral, CallsMethod, shape]

theorem heads_of_shape {n : ParseNode} (h : n.shape ∈ [Shape.body, .plain, .call, .lambda]) :
    n.heads = [] := by
  simp only [List.mem_cons, List.not_mem_nil, or_false] at h
  rcases h with shape | shape | shape | shape <;> simp [heads, shape]

/-- Among the children of a spliced node only the head and comments are shut, and what belongs to an
argument without being its value. -/
theorem not_shut_of_spliced {above : List ParseNode} {p c : ParseNode} (hp : p.Spliced)
    (hpair : IsPairArgument above p → p.child? "key" ≠ none ∧ p.child? "value" = some c)
    (hcomment : c.shape ≠ .skipped) (hhead : some c ∉ p.heads) : ¬ Shut above p c := by
  intro h
  cases h with
  | comment shape => exact hcomment shape
  | literal h => exact hp.not_literal h
  | head h => exact hhead h
  | call hcalls => exact hp.not_calls hcalls
  | pair h hno =>
    obtain ⟨hkey, hvalue⟩ := hpair h
    exact hno.elim hkey (· hvalue)
  | lambda shape => exact hp.not_lambda shape

/-- The parts of a call are open. -/
theorem not_shut_of_call {above : List ParseNode} {p c : ParseNode} (shape : p.shape = .call)
    (hfree : ¬ IsPairArgument above p) (hcomment : c.shape ≠ .skipped)
    (hpart : p.child? "receiver" = some c ∨ p.child? "arguments" = some c ∨
      p.child? "block" = some c) : ¬ Shut above p c := by
  intro h
  cases h with
  | comment shape => exact hcomment shape
  | literal h => simp [IsLiteral, shape] at h
  | head h => simp [heads_of_shape (n := p) (by simp [shape])] at h
  | call _ hreceiver harguments hblock =>
    exact hpart.elim hreceiver (·.elim harguments hblock)
  | pair h => exact hfree h
  | lambda h => simp [shape] at h

/-- The body of a lambda is open. -/
theorem not_shut_of_lambda {above : List ParseNode} {p c : ParseNode} (shape : p.shape = .lambda)
    (hfree : ¬ IsPairArgument above p) (hcomment : c.shape ≠ .skipped)
    (hbody : p.child? "body" = some c) : ¬ Shut above p c := by
  intro h
  cases h with
  | comment shape => exact hcomment shape
  | literal h => simp [IsLiteral, shape] at h
  | head h => simp [heads_of_shape (n := p) (by simp [shape])] at h
  | call hcalls => simp [CallsMethod, shape] at hcalls
  | pair h => exact hfree h
  | lambda _ hother => exact hother hbody

/-! ### Ways to statements -/

theorem statementsExcept_nil (n : ParseNode) : n.statementsExcept [] = statementsOf n.children := by
  simp [statementsExcept]

/-- A statement is one of a named child that is not left out. -/
theorem mem_statementsExcept {n m : ParseNode} {except : List (Option ParseNode)} :
    m ∈ n.statementsExcept except ↔
      ∃ c ∈ n.namedChildren, (∀ s ∈ except, ∀ a ∈ s, a.id ≠ c.id) ∧ m ∈ c.statements := by
  have hkept : ∀ c : ParseNode, (!except.any fun s => s.any (·.id == c.id)) = true ↔
      ∀ s ∈ except, ∀ a ∈ s, a.id ≠ c.id := by
    intro c
    rw [Bool.not_eq_true', List.any_eq_false]
    refine forall₂_congr fun s _ => ?_
    cases s <;> simp
  rw [statementsExcept, statementsOf_eq_flatMap, List.mem_flatMap]
  simp only [List.mem_filter, hkept, namedChildren]
  exact exists_congr fun c => by tauto

/-- A way to a spliced node goes on to the statements that the node has. -/
theorem exists_way_of_mem_statementsExcept {root p m : ParseNode} {above : List ParseNode}
    (hway : Way Shut root above p) (hfree : Free above p) (hp : p.Spliced)
    (hm : m ∈ p.statementsExcept p.heads) : ∃ above, Way Shut root above m ∧ Free above m := by
  induction p using descendants_induction generalizing above with
  | step p ih =>
    obtain ⟨c, hc, hhead, hm⟩ := mem_statementsExcept.1 hm
    have hhead : some c ∉ p.heads := fun h => hhead _ h c rfl rfl
    have hdown : c.shape ≠ .skipped → Way Shut root (p :: above) c := fun hcomment =>
      .down hway hc (not_shut_of_spliced hp (fun h => absurd h hfree.2) hcomment hhead)
    have hfree' : Free (p :: above) c := .below hfree.1 hp.not_calls
    rw [statements_eq] at hm
    split at hm
    · cases hm
    · -- a wrapper has statements of its own
      rename_i shape
      refine ih c (mem_descendants_of_mem (mem_of_mem_namedChildren hc) c.mem_nodes_self)
        (hdown (by simp [shape])) hfree' (spliced_of_shape (by simp [shape])) ?_
      rwa [heads_of_shape (by simp [shape]), statementsExcept_nil]
    · rename_i hcomment _
      obtain rfl := List.mem_singleton.1 hm
      exact ⟨_, hdown hcomment, hfree'⟩

end RubyOutline.ParseNode
