/-
RubyOutline/Yaml/Cursor.lean

A place in a YAML text: what is still to be read, and the line and column it stands at.
-/
import RubyOutline.Yaml.Error

namespace RubyOutline.Yaml

structure Cursor where
  rest : List Char
  /-- The number of characters read. -/
  index : Nat := 0
  line : Nat := 0
  column : Nat := 0
deriving Repr, Inhabited

def isBreak (c : Char) : Bool :=
  c = '\n' || c = '\r' || c = '\u0085' || c = '\u2028' || c = '\u2029'

/-- A space, a tab or a line break. -/
def isGap (c : Char) : Bool := c = ' ' || c = '\t' || isBreak c

/-- Nothing or a gap follows. -/
def endsWord : List Char → Bool
  | [] => true
  | c :: _ => isGap c

/-- Nothing or a line break follows. -/
def endsLine : List Char → Bool
  | [] => true
  | c :: _ => isBreak c

/-- A line of three hyphens or three points begins here, as far as its first word tells. -/
def isDocumentMarker : List Char → Bool
  | '-' :: '-' :: '-' :: rest => endsWord rest
  | '.' :: '.' :: '.' :: rest => endsWord rest
  | _ => false

namespace Cursor

def peek? (c : Cursor) : Option Char := c.rest.head?

/-- The cursor after one more character.  A byte order mark takes no column. -/
def advance (c : Cursor) : Cursor :=
  match c.rest with
  | [] => c
  | ch :: rest =>
    if isBreak ch && !(ch = '\r' && rest.head? = some '\n') then
      ⟨rest, c.index + 1, c.line + 1, 0⟩
    else ⟨rest, c.index + 1, c.line, if ch = '\uFEFF' then c.column else c.column + 1⟩

def advanceBy (c : Cursor) : Nat → Cursor
  | 0 => c
  | n + 1 => c.advance.advanceBy n

/-- The cursor after the characters of `p` that follow. -/
def skipWhile (c : Cursor) (p : Char → Bool) : Cursor :=
  c.advanceBy (c.rest.takeWhile p).length

/-- The characters of `p` that follow, and the cursor after them. -/
def span (c : Cursor) (p : Char → Bool) : List Char × Cursor :=
  (c.rest.takeWhile p, c.skipWhile p)

/-- The line break that follows, as it counts, and the cursor after it. -/
def lineBreak? (c : Cursor) : Option (Char × Cursor) :=
  match c.rest with
  | '\r' :: '\n' :: _ => some ('\n', c.advanceBy 2)
  | ch :: _ =>
    if ch = '\u2028' || ch = '\u2029' then some (ch, c.advance)
    else if isBreak ch then some ('\n', c.advance)
    else none
  | [] => none

/-- The cursor after a line break, if one follows. -/
def skipBreak (c : Cursor) : Cursor := (c.lineBreak?.map (·.2)).getD c

end Cursor

end RubyOutline.Yaml
