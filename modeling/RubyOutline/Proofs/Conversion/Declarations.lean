/-
RubyOutline/Proofs/Conversion/Declarations.lean

What a tree declares.  A declaration is known by its kind, its range, its name and the range of the
name.  A syntax tree says of each node what it declares; of a parse node it follows from the name
field, and from the object if there is one.  The conversion of a node declares what the node
declares (`declaration?_convert`), and the block of a call declares nothing.
-/
import RubyOutline.Proofs.SyntaxNode.Map

namespace RubyOutline

inductive DeclarationKind
  | «class»
  | «module»
  | method
deriving DecidableEq, Repr

/-- A class, a module or a method with a name. -/
structure Declaration where
  kind : DeclarationKind
  range : SourceRange
  name : String
  nameRange : SourceRange
deriving DecidableEq, Repr

/-! ### Syntax trees -/

namespace SyntaxNode

/-- What a node declares. -/
def declaration? (n : SyntaxNode) : Option Declaration :=
  match n.form with
  | .classDecl name nameRange _ _ => some ⟨.class, n.range, name, nameRange⟩
  | .moduleDecl name nameRange _ => some ⟨.module, n.range, name, nameRange⟩
  | .methodDecl name nameRange _ => some ⟨.method, n.range, name, nameRange⟩
  | _ => none

mutual

/-- A node and all those below it, in pre-order. -/
def nodes : SyntaxNode → List SyntaxNode
  | ⟨range, form⟩ => ⟨range, form⟩ :: nodesOfForm form
termination_by structural n => n

def nodesOfForm : Form SyntaxNode → List SyntaxNode
  | .classDecl _ _ _ body => nodesOfList body
  | .moduleDecl _ _ body => nodesOfList body
  | .methodDecl _ _ body => nodesOfList body
  | .call ⟨_, _, receiver, arguments, keywords, block⟩ =>
    nodesOfOption receiver ++ nodesOfList arguments ++ nodesOfKeywords keywords ++
      nodesOfOption block
  | .lambda body => nodesOfList body
  | .block body => nodesOfList body
  | .other _ children => nodesOfList children
  | .stringLiteral .. | .symbolLiteral .. | .constantRef .. | .constantPath .. => []
termination_by structural form => form

def nodesOfList : List SyntaxNode → List SyntaxNode
  | [] => []
  | n :: ns => n.nodes ++ nodesOfList ns
termination_by structural ns => ns

def nodesOfOption : Option SyntaxNode → List SyntaxNode
  | none => []
  | some n => n.nodes
termination_by structural n => n

def nodesOfKeywords : List (KeywordArgument SyntaxNode) → List SyntaxNode
  | [] => []
  | ⟨_, value⟩ :: keywords => value.nodes ++ nodesOfKeywords keywords
termination_by structural keywords => keywords

end

theorem nodesOfList_eq_flatMap (ns : List SyntaxNode) : nodesOfList ns = ns.flatMap nodes := by
  induction ns with
  | nil => rfl
  | cons n ns ih => rw [nodesOfList, List.flatMap_cons, ih]

theorem nodesOfOption_eq_flatMap (n : Option SyntaxNode) :
    nodesOfOption n = n.toList.flatMap nodes := by
  cases n with
  | none => rfl
  | some n => rw [nodesOfOption, Option.toList_some, List.flatMap_singleton]

theorem nodesOfKeywords_eq_flatMap (keywords : List (KeywordArgument SyntaxNode)) :
    nodesOfKeywords keywords = (keywords.map (·.value)).flatMap nodes := by
  induction keywords with
  | nil => rfl
  | cons k ks ih => rw [nodesOfKeywords, List.map_cons, List.flatMap_cons, ih]

/-- Below a node there are its children, each with what is below it. -/
theorem nodes_eq (n : SyntaxNode) : n.nodes = n :: n.childNodes.flatMap nodes := by
  obtain ⟨range, form⟩ := n
  rw [nodes, childNodes]
  congr 1
  cases form with
  | call c =>
    obtain ⟨method, messageRange, receiver, arguments, keywords, block⟩ := c
    simp only [nodesOfForm, Form.holes, Call.holes, List.flatMap_append, nodesOfList_eq_flatMap,
      nodesOfOption_eq_flatMap, nodesOfKeywords_eq_flatMap]
  | classDecl | moduleDecl | methodDecl | lambda | block | other => exact nodesOfList_eq_flatMap _
  | stringLiteral | symbolLiteral | constantRef | constantPath => rfl

theorem mem_nodes_self (n : SyntaxNode) : n ∈ n.nodes := by
  rw [nodes_eq]
  exact List.mem_cons_self

/-- The children of a node of a tree are nodes of the tree. -/
theorem mem_nodes_of_mem_childNodes {root n c : SyntaxNode} (hn : n ∈ root.nodes)
    (hc : c ∈ n.childNodes) : c ∈ root.nodes := by
  induction root using childNodes_induction with
  | step root ih =>
    rw [nodes_eq, List.mem_cons] at hn ⊢
    rcases hn with rfl | hn
    · exact .inr (List.mem_flatMap.2 ⟨c, hc, c.mem_nodes_self⟩)
    · obtain ⟨d, hd, hn⟩ := List.mem_flatMap.1 hn
      exact .inr (List.mem_flatMap.2 ⟨d, hd, ih d hd hn⟩)

/-- All declarations of a tree, in pre-order. -/
def declarations (n : SyntaxNode) : List Declaration := n.nodes.filterMap declaration?

end SyntaxNode

/-! ### Parse trees -/

namespace ParseNode

/-- A class, a module or a method that has a name. -/
def Declares (n : ParseNode) : Prop :=
  (n.shape = .classDecl ∨ n.shape = .moduleDecl ∨ n.shape = .methodDecl ∨
    n.shape = .singletonMethodDecl) ∧ n.child? "name" ≠ none

end ParseNode

namespace Converter

open ParseNode

/-- What a parse node declares. -/
def declaration? (cv : Converter) (n : ParseNode) : Option Declaration :=
  (n.child? "name").bind fun name =>
    match n.shape with
    | .classDecl => some ⟨.class, cv.range n, cv.text name, cv.range name⟩
    | .moduleDecl => some ⟨.module, cv.range n, cv.text name, cv.range name⟩
    | .methodDecl => some ⟨.method, cv.range n, cv.text name, cv.range name⟩
    | .singletonMethodDecl =>
      match n.child? "object" with
      | none => some ⟨.method, cv.range n, cv.text name, cv.range name⟩
      | some object => some ⟨.method, cv.range n, cv.text object ++ "." ++ cv.text name,
          ⟨(cv.range object).start, (cv.range name).stop⟩⟩
    | _ => none

/-- The conversion of a node declares what the node declares. -/
theorem declaration?_convert (cv : Converter) (n : ParseNode) :
    (cv.convert n).declaration? = cv.declaration? n := by
  rw [convert_eq_map, declaration?, SyntaxNode.declaration?]
  have hform := cv.isLayer_layer (fun _ => none) n
  generalize cv.layer (fun _ => none) n = form at hform
  cases hform with
  | classDecl shape hname | moduleDecl shape hname =>
    simp only [shape, hname, Option.bind_some, Form.map]
  | methodDecl shape hname =>
    rcases shape with shape | ⟨shape, hobject⟩
    · simp only [shape, hname, Option.bind_some, Form.map]
    · simp only [shape, hname, hobject, Option.bind_some, Form.map]
  | singletonMethodDecl shape hobject hname =>
    simp only [shape, hname, hobject, Option.bind_some, Form.map]
  | noName shape hname => simp only [hname, Option.bind_none, Form.map, otherLayer]
  | traversed shape =>
    rcases shape with shape | shape | shape <;>
      simp only [shape, Option.bind_fun_none, Form.map, otherLayer]
  | string shape | chainedString shape | simpleSymbol shape | delimitedSymbol shape | constant shape
  | constantPath shape | lambda shape | block shape | noMethod shape | interpolated shape
  | noPath shape | call shape =>
    simp only [shape, Option.bind_fun_none, Form.map, otherLayer, stringLayer, callForm]

/-- A node declares something if it is a declaration with a name. -/
theorem isSome_declaration? (cv : Converter) (n : ParseNode) :
    (cv.declaration? n).isSome ↔ n.Declares := by
  rw [declaration?, Declares]
  cases n.child? "name" with
  | none => simp
  | some name => cases n.shape <;> cases n.child? "object" <;> simp

end Converter

end RubyOutline
