/-
RubyOutline/Symbol/Listing.lean

Symbols as an indented list: a line for each symbol in the order of the walk, two spaces for each
level, with the name and the kind.  An entry gives its kind by number, and the label is looked up
under the number.
-/
import RubyOutline.Symbol

namespace RubyOutline.Symbol

/-- A symbol's own line. -/
def listingLine (depth : Nat) (info : SymbolInfo) : String :=
  String.ofList (List.replicate (2 * depth) ' ') ++ info.name ++ " [" ++
    SymbolKind.labelOfCode info.kind.code ++ "]"

mutual

/-- The lines of a symbol at a depth. -/
def listing (depth : Nat) : Symbol → List String
  | ⟨info, children⟩ => listingLine depth info :: listingAll (depth + 1) children

def listingAll (depth : Nat) : List Symbol → List String
  | [] => []
  | s :: ss => listing depth s ++ listingAll depth ss

end

end RubyOutline.Symbol
