/-
RubyOutline/Conversion/Layer.lean

One layer of the conversion of parse trees.  `Converter.layer` looks at one parse node and says
which syntax form it is and which parse nodes stand in its holes.  `Converter.IsLayer` says the same
as a relation, with a case for every form and what it takes to be of that form; what is proved of
layers is proved from it.  Whatever stands in a hole stands below the node
(`Converter.mem_descendants_of_mem_holes`), and so is smaller.

A constant path is read by following the scopes from right to left.  A scope whose result is known
already ends the walk early: a path is extended, anything else is no path.
-/
import RubyOutline.ParseNode.Statements
import RubyOutline.Source
import RubyOutline.SyntaxNode

namespace RubyOutline

/-- A source with its columns: what a parse tree of it is read against. -/
structure Converter where
  source : Source
  lines : LineMap

namespace Converter

open ParseNode

def ofSource (source : Source) (encoding : PositionEncoding) : Converter :=
  ⟨source, .ofSource source encoding⟩

variable (cv : Converter)

def text (n : ParseNode) : String :=
  cv.source.slice n.span.startByte n.span.stopByte

def position (p : Point) : Position :=
  ⟨p.row, cv.lines.column p.row p.column⟩

def range (n : ParseNode) : SourceRange :=
  ⟨cv.position n.span.start, cv.position n.span.stop⟩

/-! ### Literals -/

def isStringPart (n : ParseNode) : Bool :=
  n.kind == "string_content" || n.kind == "escape_sequence"

def isInterpolation (n : ParseNode) : Bool :=
  n.kind == "interpolation"

/-- The literal text within a string or symbol. -/
def fragment (n : ParseNode) : String :=
  String.join ((n.namedChildren.filter isStringPart).map cv.text)

/-- A string literal of some pieces, each a fragment. -/
def stringLayer (pieces : List ParseNode) : Form ParseNode :=
  .stringLiteral (pieces.map cv.fragment) (pieces.any (·.namedChildren.any isInterpolation))

/-- The text of `:name` without its colon. -/
def symbolName (n : ParseNode) : String :=
  String.ofList ((cv.text n).toList.drop 1)

/-- The segments of a constant path and whether it starts with `::`, with `suffix` to the right;
`none` when some part is not a constant.  `known` gives results already found for scopes. -/
def constantPath (known : ParseNode → Option SyntaxNode) (n : ParseNode) (suffix : List String) :
    Option (List String × Bool) :=
  match n.child? "name" with
  | none => none
  | some name =>
    if name.shape = .constant then
      match _h : n.child? "scope" with
      | none => some (cv.text name :: suffix, true)
      | some scope =>
        match scope.shape with
        | .constant => some (cv.text scope :: cv.text name :: suffix, false)
        | .scopeResolution =>
          match known scope with
          | some ⟨_, .constantPath segments rooted⟩ =>
            some (segments ++ cv.text name :: suffix, rooted)
          | some _ => none
          | none => constantPath known scope (cv.text name :: suffix)
        | _ => none
    else none
termination_by sizeOf n
decreasing_by exact sizeOf_lt_of_mem (mem_of_child? _h)

/-! ### Layers -/

/-- A node that is only traversed. -/
def otherLayer (n : ParseNode) : Form ParseNode :=
  .other n.kind (statementsOf n.children)

/-- The statements of a block, its parameters left out. -/
def blockBody (n : ParseNode) : List ParseNode :=
  n.statementsExcept [n.child? "parameters" <|> n.childOfKind? "block_parameters"]

/-- The `superclass` clause of a class. -/
def superclassClause (n : ParseNode) : Option ParseNode :=
  n.child? "superclass" <|> n.childOfKind? "superclass"

/-- The text of the superclass: what comes first in the clause. -/
def superclassText (n : ParseNode) : Option String :=
  (superclassClause n).bind fun clause => clause.namedChildren.head?.map cv.text

def classLayer (n : ParseNode) : Option (Form ParseNode) :=
  (n.child? "name").map fun name =>
    .classDecl (cv.text name) (cv.range name) (cv.superclassText n)
      (n.statementsExcept [some name, superclassClause n])

def moduleLayer (n : ParseNode) : Option (Form ParseNode) :=
  (n.child? "name").map fun name =>
    .moduleDecl (cv.text name) (cv.range name) (n.statementsExcept [some name])

def methodLayer (n : ParseNode) : Option (Form ParseNode) :=
  (n.child? "name").map fun name =>
    .methodDecl (cv.text name) (cv.range name)
      (n.statementsExcept [some name, n.child? "parameters"])

/-- `def object.name`: the name and its range begin with the object. -/
def singletonMethodLayer (n : ParseNode) : Option (Form ParseNode) :=
  match n.child? "object" with
  | none => cv.methodLayer n
  | some object =>
    (n.child? "name").map fun name =>
      .methodDecl (cv.text object ++ "." ++ cv.text name)
        ⟨(cv.range object).start, (cv.range name).stop⟩
        (n.statementsExcept [some name, some object, n.child? "parameters"])

/-- The key of a pair, written `key:` or `:key =>`. -/
def keyText (n : ParseNode) : String :=
  let text := if n.shape = .simpleSymbol then cv.symbolName n else cv.text n
  String.ofList (text.toList.reverse.dropWhile (· == ':')).reverse

/-- A keyword argument, if its pair has both parts. -/
def keyword (n : ParseNode) : Option (KeywordArgument ParseNode) :=
  (n.child? "key").bind fun key => (n.child? "value").map fun value => ⟨cv.keyText key, value⟩

/-- The arguments that are no comments. -/
def argumentNodes (n : ParseNode) : List ParseNode :=
  match n.child? "arguments" with
  | none => []
  | some list => list.namedChildren.filter fun a => a.shape != .skipped

def isPair (n : ParseNode) : Bool := n.kind == "pair"

/-- The form of a call with a method. -/
def callForm (n method : ParseNode) : Form ParseNode :=
  .call
    { method := cv.text method
      messageRange := cv.range method
      receiver := n.child? "receiver"
      arguments := (argumentNodes n).filter (!isPair ·)
      keywords := ((argumentNodes n).filter isPair).filterMap cv.keyword
      block := n.child? "block" }

def callLayer (n : ParseNode) : Option (Form ParseNode) :=
  (n.child? "method").map (cv.callForm n)

/-- The form of a node and the nodes in its holes.  A declaration without a name, a call without
a method and a path with a part that is no constant are only traversed. -/
def layer (known : ParseNode → Option SyntaxNode) (n : ParseNode) : Form ParseNode :=
  match n.shape with
  | .classDecl => (cv.classLayer n).getD (otherLayer n)
  | .moduleDecl => (cv.moduleLayer n).getD (otherLayer n)
  | .methodDecl => (cv.methodLayer n).getD (otherLayer n)
  | .singletonMethodDecl => (cv.singletonMethodLayer n).getD (otherLayer n)
  | .call => (cv.callLayer n).getD (otherLayer n)
  | .string => cv.stringLayer [n]
  | .chainedString => cv.stringLayer (n.namedChildren.filter (·.shape = .string))
  | .simpleSymbol => .symbolLiteral (cv.symbolName n)
  | .delimitedSymbol =>
    if n.namedChildren.any isInterpolation then otherLayer n
    else .symbolLiteral (cv.fragment n)
  | .constant => .constantRef (cv.text n)
  | .scopeResolution =>
    match cv.constantPath known n [] with
    | some (segments, rooted) => .constantPath segments rooted
    | none => otherLayer n
  | .lambda => .lambda ((n.child? "body").map blockBody |>.getD [])
  | .block => .block (blockBody n)
  | .skipped | .body | .plain => otherLayer n

/-! ### What a layer can be -/

/-- Every form that a node can take, each with what it takes to be of that form. -/
inductive IsLayer (known : ParseNode → Option SyntaxNode) (n : ParseNode) :
    Form ParseNode → Prop
  | classDecl {name : ParseNode} (shape : n.shape = .classDecl)
      (hname : n.child? "name" = some name) :
      IsLayer known n (.classDecl (cv.text name) (cv.range name) (cv.superclassText n)
        (n.statementsExcept [some name, superclassClause n]))
  | moduleDecl {name : ParseNode} (shape : n.shape = .moduleDecl)
      (hname : n.child? "name" = some name) :
      IsLayer known n (.moduleDecl (cv.text name) (cv.range name) (n.statementsExcept [some name]))
  | methodDecl {name : ParseNode}
      (shape : n.shape = .methodDecl ∨ n.shape = .singletonMethodDecl ∧ n.child? "object" = none)
      (hname : n.child? "name" = some name) :
      IsLayer known n (.methodDecl (cv.text name) (cv.range name)
        (n.statementsExcept [some name, n.child? "parameters"]))
  | singletonMethodDecl {object name : ParseNode} (shape : n.shape = .singletonMethodDecl)
      (hobject : n.child? "object" = some object) (hname : n.child? "name" = some name) :
      IsLayer known n (.methodDecl (cv.text object ++ "." ++ cv.text name)
        ⟨(cv.range object).start, (cv.range name).stop⟩
        (n.statementsExcept [some name, some object, n.child? "parameters"]))
  | call {method : ParseNode} (shape : n.shape = .call)
      (hmethod : n.child? "method" = some method) : IsLayer known n (cv.callForm n method)
  | string (shape : n.shape = .string) : IsLayer known n (cv.stringLayer [n])
  | chainedString (shape : n.shape = .chainedString) :
      IsLayer known n (cv.stringLayer (n.namedChildren.filter (·.shape = .string)))
  | simpleSymbol (shape : n.shape = .simpleSymbol) :
      IsLayer known n (.symbolLiteral (cv.symbolName n))
  | delimitedSymbol (shape : n.shape = .delimitedSymbol)
      (hplain : n.namedChildren.any isInterpolation = false) :
      IsLayer known n (.symbolLiteral (cv.fragment n))
  | constant (shape : n.shape = .constant) : IsLayer known n (.constantRef (cv.text n))
  | constantPath {segments : List String} {rooted : Bool} (shape : n.shape = .scopeResolution)
      (hpath : cv.constantPath known n [] = some (segments, rooted)) :
      IsLayer known n (.constantPath segments rooted)
  | lambda (shape : n.shape = .lambda) :
      IsLayer known n (.lambda ((n.child? "body").map blockBody |>.getD []))
  | block (shape : n.shape = .block) : IsLayer known n (.block (blockBody n))
  | noName (shape : n.shape = .classDecl ∨ n.shape = .moduleDecl ∨ n.shape = .methodDecl ∨
      n.shape = .singletonMethodDecl) (hname : n.child? "name" = none) :
      IsLayer known n (otherLayer n)
  | noMethod (shape : n.shape = .call) (hmethod : n.child? "method" = none) :
      IsLayer known n (otherLayer n)
  | interpolated (shape : n.shape = .delimitedSymbol)
      (hplain : n.namedChildren.any isInterpolation = true) : IsLayer known n (otherLayer n)
  | noPath (shape : n.shape = .scopeResolution) (hpath : cv.constantPath known n [] = none) :
      IsLayer known n (otherLayer n)
  | traversed (shape : n.shape = .skipped ∨ n.shape = .body ∨ n.shape = .plain) :
      IsLayer known n (otherLayer n)

theorem isLayer_layer (known : ParseNode → Option SyntaxNode) (n : ParseNode) :
    cv.IsLayer known n (cv.layer known n) := by
  rw [layer]
  cases shape : n.shape with
  | classDecl =>
    rw [classLayer]
    cases hname : n.child? "name" with
    | none => exact .noName (.inl shape) hname
    | some name => exact .classDecl shape hname
  | moduleDecl =>
    rw [moduleLayer]
    cases hname : n.child? "name" with
    | none => exact .noName (.inr (.inl shape)) hname
    | some name => exact .moduleDecl shape hname
  | methodDecl =>
    rw [methodLayer]
    cases hname : n.child? "name" with
    | none => exact .noName (.inr (.inr (.inl shape))) hname
    | some name => exact .methodDecl (.inl shape) hname
  | singletonMethodDecl =>
    rw [singletonMethodLayer, methodLayer]
    cases hname : n.child? "name" with
    | none =>
      have hother : cv.IsLayer known n (otherLayer n) :=
        .noName (.inr (.inr (.inr shape))) hname
      cases n.child? "object" <;> exact hother
    | some name =>
      cases hobject : n.child? "object" with
      | none => exact .methodDecl (.inr ⟨shape, hobject⟩) hname
      | some object => exact .singletonMethodDecl shape hobject hname
  | call =>
    rw [callLayer]
    cases hmethod : n.child? "method" with
    | none => exact .noMethod shape hmethod
    | some method => exact .call shape hmethod
  | string => exact .string shape
  | chainedString => exact .chainedString shape
  | simpleSymbol => exact .simpleSymbol shape
  | delimitedSymbol =>
    simp only
    split
    · rename_i hplain
      exact .interpolated shape hplain
    · rename_i hplain
      exact .delimitedSymbol shape (Bool.eq_false_iff.2 hplain)
  | constant => exact .constant shape
  | scopeResolution =>
    simp only
    split
    · rename_i segments rooted hpath
      exact .constantPath shape hpath
    · rename_i hpath
      exact .noPath shape hpath
  | lambda => exact .lambda shape
  | block => exact .block shape
  | skipped => exact .traversed (.inl shape)
  | body => exact .traversed (.inr (.inl shape))
  | plain => exact .traversed (.inr (.inr shape))

/-! ### Holes are descendants -/

variable {cv}

theorem mem_descendants_of_mem_statementsOf {n c : ParseNode} (h : c ∈ statementsOf n.children) :
    c ∈ n.descendants :=
  mem_nodesOf_of_mem_statementsOf _ h

theorem mem_descendants_of_child? {n c : ParseNode} {field : String}
    (h : n.child? field = some c) : c ∈ n.descendants :=
  mem_descendants_of_mem (mem_of_child? h) c.mem_nodes_self

theorem mem_descendants_of_mem_blockBody {n c : ParseNode} (h : c ∈ blockBody n) :
    c ∈ n.descendants :=
  mem_descendants_of_mem_statementsExcept h

/-- What stands in a block below a node stands below the node. -/
theorem mem_descendants_of_mem_blockBody_below {n b c : ParseNode} (hb : b ∈ n.descendants)
    (hc : c ∈ blockBody b) : c ∈ n.descendants :=
  mem_descendants_trans hb (mem_nodes_of_mem_descendants (mem_descendants_of_mem_blockBody hc))

theorem mem_descendants_of_mem_argumentNodes {n c : ParseNode} (h : c ∈ argumentNodes n) :
    c ∈ n.descendants := by
  unfold argumentNodes at h
  split at h
  · cases h
  · rename_i list hl
    have hc : c ∈ list.children := mem_of_mem_namedChildren (List.mem_filter.1 h).1
    have hcl : c ∈ list.nodes :=
      mem_nodes_of_mem_descendants (mem_descendants_of_mem hc c.mem_nodes_self)
    exact mem_descendants_trans (mem_descendants_of_child? hl) hcl

theorem keyword_value {n : ParseNode} {k : KeywordArgument ParseNode}
    (h : cv.keyword n = some k) : n.child? "value" = some k.value := by
  obtain ⟨key, _, h⟩ := Option.bind_eq_some_iff.1 h
  obtain ⟨value, hv, rfl⟩ := Option.map_eq_some_iff.1 h
  exact hv

theorem mem_descendants_of_mem_callForm {n method c : ParseNode}
    (h : c ∈ (cv.callForm n method).holes) : c ∈ n.descendants := by
  simp only [callForm, Form.holes, Call.holes, List.mem_append, Option.mem_toList,
    List.mem_map] at h
  rcases h with ((h | h) | ⟨k, hk, rfl⟩) | h
  · exact mem_descendants_of_child? h
  · exact mem_descendants_of_mem_argumentNodes (List.mem_filter.1 h).1
  · obtain ⟨p, hp, hpk⟩ := List.mem_filterMap.1 hk
    have hpn : p ∈ n.descendants := mem_descendants_of_mem_argumentNodes (List.mem_filter.1 hp).1
    have hkp : k.value ∈ p.descendants := mem_descendants_of_child? (keyword_value hpk)
    exact mem_descendants_trans hpn (mem_nodes_of_mem_descendants hkp)
  · exact mem_descendants_of_child? h

/-- Whatever stands in a hole of a node's layer stands below the node. -/
theorem mem_descendants_of_mem_holes {known : ParseNode → Option SyntaxNode} {n c : ParseNode}
    (h : c ∈ (cv.layer known n).holes) : c ∈ n.descendants := by
  have hform := cv.isLayer_layer known n
  generalize cv.layer known n = form at h hform
  cases hform with
  | classDecl | moduleDecl | methodDecl | singletonMethodDecl =>
    exact mem_descendants_of_mem_statementsExcept h
  | call => exact mem_descendants_of_mem_callForm h
  | string | chainedString | simpleSymbol | delimitedSymbol | constant | constantPath => cases h
  | lambda =>
    cases hb : n.child? "body" with
    | none => simp [hb, Form.holes] at h
    | some b =>
      simp only [hb, Option.map_some, Option.getD_some, Form.holes] at h
      exact mem_descendants_of_mem_blockBody_below (mem_descendants_of_child? hb) h
  | block => exact mem_descendants_of_mem_blockBody h
  | noName | noMethod | interpolated | noPath | traversed =>
    exact mem_descendants_of_mem_statementsOf h

theorem sizeOf_lt_of_mem_holes {known : ParseNode → Option SyntaxNode} {n c : ParseNode}
    (h : c ∈ (cv.layer known n).holes) : sizeOf c < sizeOf n :=
  sizeOf_lt_of_mem_descendants (mem_descendants_of_mem_holes h)

theorem sizeOf_lt_of_mem_blockBody {n c : ParseNode} (h : c ∈ blockBody n) :
    sizeOf c < sizeOf n :=
  sizeOf_lt_of_mem_descendants (mem_descendants_of_mem_blockBody h)

end Converter

end RubyOutline
