/-
RubyOutline/Symbol/Lsp.lean

Symbols in the shape of the Language Server Protocol's `DocumentSymbol`: kinds are numbers, and a
range is an object of two positions.
-/
import RubyOutline.Symbol
import RubyOutline.Value

namespace RubyOutline

def Position.toLsp (p : Position) : Value :=
  .object [("line", .nat p.line), ("character", .nat p.character)]

def SourceRange.toLsp (r : SourceRange) : Value :=
  .object [("start", r.start.toLsp), ("end", r.stop.toLsp)]

/-- A symbol whose children are already written. -/
def SymbolInfo.toLsp (info : SymbolInfo) (children : List Value) : Value :=
  .object [("name", .string info.name), ("kind", .nat info.kind.code),
    ("range", info.range.toLsp), ("selectionRange", info.selectionRange.toLsp),
    ("children", .list children)]

namespace Symbol

mutual

def toLsp : Symbol → Value
  | ⟨info, children⟩ => info.toLsp (toLspAll children)

def toLspAll : List Symbol → List Value
  | [] => []
  | s :: ss => toLsp s :: toLspAll ss

end

theorem toLspAll_eq_map (ss : List Symbol) : toLspAll ss = ss.map toLsp := by
  induction ss with
  | nil => rfl
  | cons s ss ih => rw [toLspAll, List.map_cons, ih]

end Symbol

end RubyOutline
