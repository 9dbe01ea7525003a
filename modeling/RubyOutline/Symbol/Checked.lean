/-
RubyOutline/Symbol/Checked.lean

Positions, ranges and symbol entries out of unchecked values.  Both numbers of a position are
looked at together.  The two ends of a range come one after the other, and so do the ranges of a
symbol before its name and kind, so an issue is reported for the first part that has one.  The name
of a symbol comes out of a source and so is a string.
-/
import RubyOutline.Checked
import RubyOutline.Symbol

namespace RubyOutline

open Checked

def Position.check (line character : Value) : Checked Position :=
  Position.mk <$> (Check.nat line).under (.key "line")
    <*> (Check.nat character).under (.key "character")

/-- A range of its start line, start character, end line and end character. -/
def SourceRange.check (startLine startCharacter stopLine stopCharacter : Value) :
    Checked SourceRange :=
  (Position.check startLine startCharacter).andThen fun start =>
    (Position.check stopLine stopCharacter).map fun stop => ⟨start, stop⟩

/-- The entry of a symbol, its ranges already accepted. -/
def SymbolInfo.check (name kind : Value) (range selectionRange : SourceRange) :
    Checked SymbolInfo :=
  (fun name kind => ⟨name, kind, range, selectionRange⟩) <$>
    (Check.string name).under (.key "name")
    <*> (Check.word .enumError SymbolKind.all SymbolKind.label kind).under (.key "kind")

end RubyOutline
