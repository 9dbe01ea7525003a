/-
RubyOutline/Symbol.lean

Outline symbols: what an editor lists for a document.  A symbol is its own entry (`SymbolInfo`)
together with the symbols below it, in source order.
-/
import RubyOutline.Position

namespace RubyOutline

inductive SymbolKind
  | «namespace»
  | «class»
  | method
  | field
  | other
deriving DecidableEq, Repr, Inhabited

namespace SymbolKind

def all : List SymbolKind := [.namespace, .class, .method, .field, .other]

def label : SymbolKind → String
  | .namespace => "namespace"
  | .class => "class"
  | .method => "method"
  | .field => "field"
  | .other => "other"

/-- The number that the Language Server Protocol gives a kind. -/
def code : SymbolKind → Nat
  | .namespace => 3
  | .class => 5
  | .method => 6
  | .field => 8
  | .other => 19

/-- The kind that has a number. -/
def ofCode? (code : Nat) : Option SymbolKind := all.find? (·.code == code)

theorem ofCode?_code (k : SymbolKind) : ofCode? k.code = some k := by
  cases k <;> rfl

/-- The label shown for a number: that of its kind, or the number itself if no kind has it. -/
def labelOfCode (code : Nat) : String := (ofCode? code).elim (Nat.repr code) label

theorem labelOfCode_code (k : SymbolKind) : labelOfCode k.code = k.label := by
  rw [labelOfCode, ofCode?_code]
  rfl

end SymbolKind

/-- A symbol without its children. -/
structure SymbolInfo where
  name : String
  kind : SymbolKind
  range : SourceRange
  selectionRange : SourceRange
deriving DecidableEq, Repr, Inhabited

structure Symbol where
  info : SymbolInfo
  children : List Symbol
deriving Inhabited

namespace Symbol

def leaf (info : SymbolInfo) : Symbol := ⟨info, []⟩

mutual

/-- A symbol and all those below it, in pre-order. -/
def walk : Symbol → List Symbol
  | ⟨info, children⟩ => ⟨info, children⟩ :: walkAll children

/-- The walks of a list of symbols, one after the other. -/
def walkAll : List Symbol → List Symbol
  | [] => []
  | s :: ss => s.walk ++ walkAll ss

end

theorem walkAll_eq_flatMap (ss : List Symbol) : walkAll ss = ss.flatMap walk := by
  induction ss with
  | nil => rfl
  | cons s ss ih => rw [walkAll, List.flatMap_cons, ih]

theorem walk_leaf (info : SymbolInfo) : (leaf info).walk = [leaf info] := by
  rw [leaf, walk, walkAll]

theorem flatMap_walk_leaves (infos : List SymbolInfo) :
    (infos.map leaf).flatMap walk = infos.map leaf := by
  induction infos with
  | nil => rfl
  | cons info infos ih =>
    rw [List.map_cons, List.flatMap_cons, walk_leaf, ih, List.singleton_append]

end Symbol

end RubyOutline
