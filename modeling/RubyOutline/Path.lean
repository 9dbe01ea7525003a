/-
RubyOutline/Path.lean

File paths.

A path is read as its parts between slashes; empty parts and `.` say nothing and are dropped, `..`
is kept.  `Path.resolve` makes a path absolute and then lets every `..` take away the part before
it, by the text alone, whether or not such a folder exists.  `Path.uri` is the `file` URI of an
absolute path: all bytes but the unreserved ones and the slash are escaped, the escape character
among them.
-/
import RubyOutline.Text.Utf8

namespace RubyOutline

structure Path where
  /-- The slashes in front: none for a relative path, one for an absolute path; exactly two are
  kept as two. -/
  root : Nat
  parts : List String
deriving DecidableEq, Repr, Inhabited

namespace Path

def rootOf (cs : List Char) : Nat :=
  match (cs.takeWhile (· == '/')).length with
  | 0 => 0
  | 2 => 2
  | _ => 1

def ofString (text : String) : Path where
  root := rootOf text.toList
  parts := ((text.toList.splitOn '/').map String.ofList).filter fun s => s != "" && s != "."

def isAbsolute (p : Path) : Bool := p.root != 0

/-- A path holds the character that no name can hold. -/
def hasNull (p : Path) : Bool := p.parts.any (·.toList.contains '\x00')

/-- The text of a path.  The relative path without parts is `.`. -/
def toString (p : Path) : String :=
  if p.root = 0 ∧ p.parts = [] then "."
  else String.ofList (List.replicate p.root '/') ++ "/".intercalate p.parts

instance : ToString Path := ⟨Path.toString⟩

/-- Parts without `..`, each having taken away the part before it. -/
def normalParts (parts : List String) : List String :=
  (parts.foldl (fun above s => if s = ".." then above.drop 1 else s :: above) []).reverse

/-- The absolute parts that a path names as seen from a folder. -/
def resolveParts (folder : List String) (p : Path) : List String :=
  normalParts (if p.isAbsolute then p.parts else folder ++ p.parts)

/-- The path made absolute as seen from a folder; two slashes in front stay two. -/
def absolute (folder : List String) (p : Path) : Path :=
  ⟨if p.root = 2 then 2 else 1, resolveParts folder p⟩

/-- The absolute path that a path names as seen from a folder. -/
def resolve (folder : List String) (p : Path) : Path := ⟨1, resolveParts folder p⟩

/-! ### URIs -/

/-- The bytes that stand for themselves in a URI path. -/
def isUnescaped (b : UInt8) : Bool :=
  (0x61 ≤ b && b ≤ 0x7A) || (0x41 ≤ b && b ≤ 0x5A) || (0x30 ≤ b && b ≤ 0x39) ||
    b = 0x2D || b = 0x2E || b = 0x5F || b = 0x7E || b = 0x2F

/-- An upper-case hexadecimal digit. -/
def upperHexDigit (n : Nat) : Char :=
  if n < 10 then Char.ofNat (n + 48) else Char.ofNat (n + 55)

def escapeByte (b : UInt8) : List Char :=
  if isUnescaped b then [Char.ofNat b.toNat]
  else ['%', upperHexDigit (b.toNat / 16), upperHexDigit (b.toNat % 16)]

/-- A text with its bytes escaped for a URI. -/
def percentEncode (s : String) : String :=
  String.ofList ((Utf8.encode s).flatMap escapeByte)

/-- The URI of an absolute path. -/
def uri (p : Path) : String := "file://" ++ percentEncode p.toString

end Path

end RubyOutline
