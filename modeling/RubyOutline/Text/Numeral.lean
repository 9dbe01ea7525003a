/-
RubyOutline/Text/Numeral.lean

Numbers as a text writes them.  White space may stand around a numeral, a sign in front of it, and
its digits may be those of any script.  An integer may carry the mark of its base, and one in base
ten has at most 4300 digits.
-/
import RubyOutline.Text.Blank
import RubyOutline.Text.Codes
import RubyOutline.Value.Json

namespace RubyOutline.Text

/-- The zeros of all scripts; each is followed by the other nine digits of its script. -/
def zeros : List Nat :=
  [0x30, 0x660, 0x6F0, 0x7C0, 0x966, 0x9E6, 0xA66, 0xAE6, 0xB66, 0xBE6, 0xC66, 0xCE6, 0xD66, 0xDE6,
   0xE50, 0xED0, 0xF20, 0x1040, 0x1090, 0x17E0, 0x1810, 0x1946, 0x19D0, 0x1A80, 0x1A90, 0x1B50,
   0x1BB0, 0x1C40, 0x1C50, 0xA620, 0xA8D0, 0xA900, 0xA9D0, 0xA9F0, 0xAA50, 0xABF0, 0xFF10, 0x104A0,
   0x10D30, 0x11066, 0x110F0, 0x11136, 0x111D0, 0x112F0, 0x11450, 0x114D0, 0x11650, 0x116C0,
   0x11730, 0x118E0, 0x11950, 0x11C50, 0x11D50, 0x11DA0, 0x16A60, 0x16AC0, 0x16B50, 0x1D7CE,
   0x1D7D8, 0x1D7E2, 0x1D7EC, 0x1D7F6, 0x1E140, 0x1E2F0, 0x1E950, 0x1FBF0]

/-- The value of a decimal digit of any script. -/
def decimalDigit? (n : Nat) : Option Nat :=
  (zeros.find? fun start => start ≤ n && n < start + 10).map (n - ·)

/-- A code point as far as numerals are concerned: digits beyond ASCII become ASCII digits, white
space becomes a space, and whatever else lies beyond ASCII is no part of a numeral. -/
def plainCode (n : Nat) : Char :=
  if n < 0x7F then Char.ofNat n
  else
    match decimalDigit? n with
    | some d => Char.ofNat (0x30 + d)
    | none => if !isSurrogate n && isBlank (Char.ofNat n) then ' ' else '?'

/-- White space of ASCII: the space, and tab to carriage return. -/
def isAsciiBlank (c : Char) : Bool := c = ' ' || (0x09 ≤ c.toNat && c.toNat ≤ 0x0D)

/-- Why a text is no integer. -/
inductive NumeralError
  | malformed
  | tooLong (digits : Nat)
deriving DecidableEq, Repr

/-- The sign at the front of a numeral, and what follows it. -/
def readSign : List Char → Bool × List Char
  | '-' :: rest => (true, rest)
  | '+' :: rest => (false, rest)
  | cs => (false, cs)

/-- The letters that mark a base. -/
def baseMarks : List (Nat × Char) := [(2, 'b'), (8, 'o'), (16, 'x')]

/-- What follows the mark of a base, if it stands there. -/
def afterBaseMark (base : Nat) (cs : List Char) : List Char :=
  match cs with
  | '0' :: c :: rest => if baseMarks.lookup base = some c.toLower then rest else cs
  | _ => cs

/-- The value of a digit, if it is one in the base. -/
def digit? (base : Nat) (c : Char) : Option Nat := (Value.hexValue? c).filter (· < base)

/-- The number that digits of a base write. -/
def ofDigits (base : Nat) (cs : List Char) : Nat :=
  cs.foldl (fun n c => base * n + (digit? base c).getD 0) 0

/-- The integer that a text writes in a base. -/
def readInt (base : Nat) (text : Codes) : Except NumeralError Int :=
  let (negative, cs) := readSign ((text.map plainCode).dropWhile isAsciiBlank)
  let cs := afterBaseMark base cs
  let digits := cs.takeWhile fun c => (digit? base c).isSome
  if digits.isEmpty then .error .malformed
  else if base = 10 && Value.longestInteger < digits.length then .error (.tooLong digits.length)
  else if !((cs.drop digits.length).all isAsciiBlank) then .error .malformed
  else .ok (if negative then -(ofDigits base digits : Int) else ofDigits base digits)

/-- The words for floats that are no numbers. -/
def floatWords : List (String × Float) :=
  [("inf", 1.0 / 0.0), ("infinity", 1.0 / 0.0), ("nan", 0.0 / 0.0)]

/-- The exponent of a float, up to the end of the text. -/
def readExponent? : List Char → Option Int
  | [] => some 0
  | e :: rest =>
    let (negative, digits) := readSign rest
    if (e = 'e' || e = 'E') && !digits.isEmpty && digits.all Char.isDigit then
      some (if negative then -(Value.ofDigits digits : Int) else Value.ofDigits digits)
    else none

/-- The float that a decimal number without a sign writes. -/
def readUnsignedFloat? (cs : List Char) : Option Float :=
  let whole := cs.takeWhile Char.isDigit
  let rest := cs.drop whole.length
  let (fraction, rest) := match rest with
    | '.' :: rest => (rest.takeWhile Char.isDigit, rest.dropWhile Char.isDigit)
    | rest => ([], rest)
  if whole.isEmpty && fraction.isEmpty then none
  else (readExponent? rest).map fun exponent =>
    Value.nearestFloat false (Value.ofDigits (whole ++ fraction)) (exponent - fraction.length)

/-- The float that a text writes. -/
def readFloat? (text : Codes) : Option Float :=
  let (negative, cs) := readSign (trimList isAsciiBlank (text.map plainCode))
  let x := (floatWords.lookup (String.ofList (cs.map Char.toLower))).or (readUnsignedFloat? cs)
  x.map fun x => if negative then -x else x

end RubyOutline.Text
