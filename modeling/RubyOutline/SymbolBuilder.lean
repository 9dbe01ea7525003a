/-
RubyOutline/SymbolBuilder.lean

Assembly of a symbol forest through a stack of open scopes.

The builder keeps every symbol that was ever handed to it, in the order of arrival, each with the
place where it hangs; a symbol's number is its place in that order.  Symbols are never moved or
removed, and a symbol can be opened as a scope at any time, several times over, even when it
hangs nowhere.  The forest is read off the table of places (`SymbolBuilder.roots`): a symbol that
arrives later under a scope shows up wherever the scope's own symbol hangs.
-/
import RubyOutline.ParentTable
import RubyOutline.Symbol

namespace RubyOutline

/-- Where a symbol hangs. -/
inductive Place
  | root
  | nowhere
  | under (symbol : Nat)
deriving DecidableEq, Repr

/-- An open class or module and its declared superclass. -/
structure Scope where
  symbol : Nat
  superclass : Option String
deriving DecidableEq, Repr

structure SymbolBuilder where
  entries : Array (SymbolInfo × Place)
  /-- The open scopes, innermost first. -/
  scopes : List Scope
deriving DecidableEq, Repr

/-- The one way a builder can refuse: a scope is closed and none is open. -/
structure NoOpenScope where
deriving DecidableEq, Repr

def NoOpenScope.message (_ : NoOpenScope) : String := "pop_scope() called with no open scope"

namespace SymbolBuilder

def empty : SymbolBuilder := ⟨#[], []⟩

instance : Inhabited SymbolBuilder := ⟨empty⟩

def currentScope (b : SymbolBuilder) : Option Scope := b.scopes.head?

def depth (b : SymbolBuilder) : Nat := b.scopes.length

/-- The number the next symbol will have. -/
def next (b : SymbolBuilder) : Nat := b.entries.size

/-- Takes in a symbol without children. -/
def put (b : SymbolBuilder) (info : SymbolInfo) (place : Place) : SymbolBuilder :=
  { b with entries := b.entries.push (info, place) }

mutual

/-- Takes in a symbol with all those below it. -/
def putTree (b : SymbolBuilder) (place : Place) : Symbol → SymbolBuilder
  | ⟨info, children⟩ => putTrees (b.put info place) (.under b.next) children

def putTrees (b : SymbolBuilder) (place : Place) : List Symbol → SymbolBuilder
  | [] => b
  | s :: ss => putTrees (putTree b place s) place ss

end

/-- Where the next symbol goes: under the innermost open scope, or to the roots. -/
def placeHere (b : SymbolBuilder) : Place :=
  match b.currentScope with
  | none => .root
  | some scope => .under scope.symbol

/-- Hangs a symbol under the innermost open scope, or among the roots outside any scope. -/
def attach (b : SymbolBuilder) (s : Symbol) : SymbolBuilder :=
  b.putTree b.placeHere s

/-- Hangs a leaf under the innermost open scope.  Outside any scope it is dropped, and the answer
is `false`. -/
def attachLeaf (b : SymbolBuilder) (s : Symbol) : Bool × SymbolBuilder :=
  match b.currentScope with
  | none => (false, b.putTree .nowhere s)
  | some scope => (true, b.putTree (.under scope.symbol) s)

/-- Opens a scope for a symbol already taken in. -/
def pushScope (b : SymbolBuilder) (symbol : Nat) (superclass : Option String) : SymbolBuilder :=
  { b with scopes := ⟨symbol, superclass⟩ :: b.scopes }

/-- Closes the innermost scope and answers its symbol. -/
def popScope (b : SymbolBuilder) : Except NoOpenScope (Nat × SymbolBuilder) :=
  match b.scopes with
  | [] => .error {}
  | scope :: rest => .ok (scope.symbol, { b with scopes := rest })

/-- The slot of the forest table that a place names. -/
def slot : Place → Nat
  | .root => 0
  | .nowhere => 1
  | .under symbol => symbol + 2

/-- The slots of the forest: the roots, the dropped symbols, and the children of every symbol. -/
def forest (b : SymbolBuilder) : Array (List Symbol) :=
  ParentTable.hang 2 (fun e : SymbolInfo × Place => slot e.2) (fun _ e children => ⟨e.1, children⟩)
    b.entries

/-- The symbols that hang under no other, in the order of arrival. -/
def roots (b : SymbolBuilder) : List Symbol := b.forest.getD 0 []

end SymbolBuilder

end RubyOutline
