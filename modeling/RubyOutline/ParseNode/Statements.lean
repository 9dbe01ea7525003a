/-
RubyOutline/ParseNode/Statements.lean

What the outline makes of the kinds of a grammar, and the statements of a node: comments and the
texts of here-documents are none, and the statements of a body stand for it.  Every statement
found in the children of a node stands below the node
(`ParseNode.mem_descendants_of_mem_statementsExcept`).
-/
import RubyOutline.ParseNode

namespace RubyOutline

/-- What the outline makes of the kinds of a grammar. -/
inductive Shape
  | classDecl
  | moduleDecl
  | methodDecl
  | singletonMethodDecl
  | call
  | string
  | chainedString
  | simpleSymbol
  | delimitedSymbol
  | constant
  | scopeResolution
  | lambda
  | block
  | skipped
  | body
  | plain
deriving DecidableEq, Repr

/-- The shape of a node of a kind.  Comments and the texts of here-documents are dropped from
statements and arguments, and the statements of a body stand for it. -/
def Shape.ofKind : String → Shape
  | "class" => .classDecl
  | "module" => .moduleDecl
  | "method" => .methodDecl
  | "singleton_method" => .singletonMethodDecl
  | "call" => .call
  | "string" => .string
  | "chained_string" => .chainedString
  | "simple_symbol" => .simpleSymbol
  | "delimited_symbol" => .delimitedSymbol
  | "constant" => .constant
  | "scope_resolution" => .scopeResolution
  | "lambda" => .lambda
  | "do_block" | "block" => .block
  | "comment" | "heredoc_body" => .skipped
  | "body_statement" | "block_body" => .body
  | _ => .plain

namespace ParseNode

def shape (n : ParseNode) : Shape := Shape.ofKind n.kind

mutual

/-- The statements that a node stands for: none for a comment, those inside for a body, and
otherwise the node itself. -/
def statements : ParseNode → List ParseNode
  | ⟨id, label, children⟩ =>
    match Shape.ofKind label.kind with
    | .skipped => []
    | .body => statementsOf children
    | _ => [⟨id, label, children⟩]

/-- The statements of the named nodes of a list. -/
def statementsOf : List ParseNode → List ParseNode
  | [] => []
  | n :: ns => if n.label.named then statements n ++ statementsOf ns else statementsOf ns

end

theorem statements_eq (n : ParseNode) :
    n.statements =
      match n.shape with
      | .skipped => []
      | .body => statementsOf n.children
      | _ => [n] := by
  cases n
  rw [statements]
  rfl

mutual

theorem mem_nodes_of_mem_statements {m : ParseNode} :
    (n : ParseNode) → m ∈ n.statements → m ∈ n.nodes
  | ⟨id, label, children⟩, h => by
    rw [statements] at h
    split at h
    · cases h
    · exact mem_nodes_of_mem_descendants (mem_nodesOf_of_mem_statementsOf children h)
    · rw [List.mem_singleton.1 h]
      exact mem_nodes_self _

theorem mem_nodesOf_of_mem_statementsOf {m : ParseNode} :
    (ns : List ParseNode) → m ∈ statementsOf ns → m ∈ nodesOf ns
  | [], h => by simp [statementsOf] at h
  | n :: ns, h => by
    rw [statementsOf] at h
    rw [nodesOf, List.mem_append]
    split at h
    · rcases List.mem_append.1 h with h | h
      · exact .inl (mem_nodes_of_mem_statements n h)
      · exact .inr (mem_nodesOf_of_mem_statementsOf ns h)
    · exact .inr (mem_nodesOf_of_mem_statementsOf ns h)

end

/-- The statements of the named children that are none of the given nodes. -/
def statementsExcept (n : ParseNode) (except : List (Option ParseNode)) : List ParseNode :=
  statementsOf (n.children.filter fun c => !except.any fun s => s.any (·.id == c.id))

theorem mem_descendants_of_mem_statementsExcept {n m : ParseNode}
    {except : List (Option ParseNode)} (h : m ∈ n.statementsExcept except) :
    m ∈ n.descendants := by
  obtain ⟨c, hc, hm⟩ := mem_nodesOf.1 (mem_nodesOf_of_mem_statementsOf _ h)
  exact mem_descendants_of_mem (List.mem_filter.1 hc).1 hm

end ParseNode

end RubyOutline
