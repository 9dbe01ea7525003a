/-
RubyOutline/Source.lean

A source document as bytes, and the columns a client counts in it.

A parser reports a position as a row and a byte column.  Clients count `character` in UTF-16
units, bytes or code points (`PositionEncoding`).  `LineMap.column` turns the one into the other
by decoding the part of the row before the byte column, so a cut through the middle of a
character, or through bytes that are no character at all, still has a column.  A prefix that is
ASCII throughout needs no decoding, and this also answers columns beyond the end of such a row
and rows beyond the end of the source: they are passed on as they are.
-/
import RubyOutline.Position
import RubyOutline.Text.Line
import RubyOutline.Text.Utf8

namespace RubyOutline

/-- The units in which a client counts columns. -/
inductive PositionEncoding
  | utf16
  | utf8
  | utf32
deriving DecidableEq, Repr, Inhabited

namespace PositionEncoding

def all : List PositionEncoding := [.utf16, .utf8, .utf32]

def label : PositionEncoding → String
  | .utf16 => "utf-16"
  | .utf8 => "utf-8"
  | .utf32 => "utf-32"

/-- The units a character takes. -/
def width (e : PositionEncoding) (c : Char) : Nat :=
  match e with
  | .utf16 => if c.toNat < 0x10000 then 1 else 2
  | .utf8 => c.utf8Size
  | .utf32 => 1

/-- The units a text takes. -/
def length (e : PositionEncoding) (cs : List Char) : Nat :=
  cs.foldl (fun units c => units + e.width c) 0

end PositionEncoding

/-- The bytes of a document. -/
structure Source where
  bytes : Array UInt8
deriving DecidableEq, Repr, Inhabited

namespace Source

def ofString (s : String) : Source := ⟨s.toUTF8.data⟩

/-- The whole text, damaged bytes replaced. -/
def text (s : Source) : String := Utf8.decodeString s.bytes.toList

/-- The text between two byte offsets, damaged bytes replaced. -/
def slice (s : Source) (start stop : Nat) : String :=
  Utf8.decodeString (s.bytes.extract start stop).toList

end Source

/-- The rows of a source, for an encoding. -/
structure LineMap where
  rows : Array (List UInt8)
  encoding : PositionEncoding
deriving Repr, Inhabited

namespace LineMap

def ofSource (s : Source) (encoding : PositionEncoding) : LineMap :=
  ⟨(Text.rows s.bytes.toList).toArray, encoding⟩

def isAscii (bytes : List UInt8) : Bool :=
  bytes.all (· < 0x80)

/-- The client's column of a byte column. -/
def column (m : LineMap) (row byteColumn : Nat) : Nat :=
  match m.encoding, m.rows[row]? with
  | .utf8, _ => byteColumn
  | _, none => byteColumn
  | encoding, some bytes =>
    let before := bytes.take byteColumn
    if isAscii before then byteColumn else encoding.length (Utf8.decode before)

/-- The client's column of a byte column, where a negative row is counted from the last row on and
a negative column from the end of its row.  There is none in a row before the first. -/
def signedColumn? (m : LineMap) (row byteColumn : Int) : Option Int :=
  let row := if m.encoding != .utf8 && row < 0 then row + m.rows.size else row
  if row < 0 then if m.encoding = .utf8 then some byteColumn else none
  else if 0 ≤ byteColumn then some (m.column row.toNat byteColumn.toNat)
  else
    match m.encoding, m.rows[row.toNat]? with
    | .utf8, _ => some byteColumn
    | _, none => some byteColumn
    | encoding, some bytes =>
      let before := bytes.take (bytes.length + byteColumn).toNat
      some (if isAscii before then byteColumn else encoding.length (Utf8.decode before))

end LineMap

end RubyOutline
