/-
RubyOutline/Text/Utf8.lean

UTF-8 for bytes that may be damaged.  `Utf8.decode` reads any byte sequence: well-formed
characters come out as themselves, and each maximal ill-formed subpart (the longest start of a
character that the next byte does not continue, or else a single byte) comes out as one U+FFFD.

The decoder takes one byte at a time and remembers only the character it is in the middle of
(`Utf8.Partial`).  So a cut through the middle of a character is an ordinary state of the
decoder, and how a count of characters grows with the length of a prefix can be read off the
single step `Decoder.push`.
-/

namespace RubyOutline.Utf8

/-- The character shown for bytes that are no character. -/
def replacement : Char := '\uFFFD'

/-- A character whose first bytes have been read: how many bytes it still needs after the next
one, the interval the next one must lie in, and the bits collected so far. -/
structure Partial where
  more : Nat
  low : UInt8
  high : UInt8
  bits : Nat
deriving DecidableEq, Repr

/-- What a byte is when no character is open. -/
inductive Lead
  | ascii (c : Char)
  | opens (p : Partial)
  | stray
deriving DecidableEq, Repr

/-- The well-formed lead bytes.  The second byte's interval is narrowed after E0, ED, F0 and F4,
which keeps out overlong forms, surrogates and values beyond U+10FFFF. -/
def lead (b : UInt8) : Lead :=
  if b < 0x80 then .ascii (Char.ofNat b.toNat)
  else if b < 0xC2 then .stray
  else if b < 0xE0 then .opens ⟨0, 0x80, 0xBF, b.toNat - 0xC0⟩
  else if b = 0xE0 then .opens ⟨1, 0xA0, 0xBF, 0⟩
  else if b = 0xED then .opens ⟨1, 0x80, 0x9F, 0xD⟩
  else if b < 0xF0 then .opens ⟨1, 0x80, 0xBF, b.toNat - 0xE0⟩
  else if b = 0xF0 then .opens ⟨2, 0x90, 0xBF, 0⟩
  else if b < 0xF4 then .opens ⟨2, 0x80, 0xBF, b.toNat - 0xF0⟩
  else if b = 0xF4 then .opens ⟨2, 0x80, 0x8F, 4⟩
  else .stray

/-- The bits of a partial character with one more byte taken in. -/
def Partial.extend (p : Partial) (b : UInt8) : Nat :=
  p.bits * 64 + (b.toNat - 0x80)

/-- The characters decoded so far, last one first, and the character in the making. -/
structure Decoder where
  done : List Char
  open? : Option Partial
deriving DecidableEq, Repr

namespace Decoder

def start : Decoder := ⟨[], none⟩

/-- A byte taken while no character is open. -/
def begin (done : List Char) (b : UInt8) : Decoder :=
  match lead b with
  | .ascii c => ⟨c :: done, none⟩
  | .opens p => ⟨done, some p⟩
  | .stray => ⟨replacement :: done, none⟩

/-- One byte.  A byte that does not continue the open character ends it as a replacement and is
then read afresh. -/
def push (d : Decoder) (b : UInt8) : Decoder :=
  match d.open? with
  | none => begin d.done b
  | some p =>
    if p.low ≤ b ∧ b ≤ p.high then
      match p.more with
      | 0 => ⟨Char.ofNat (p.extend b) :: d.done, none⟩
      | more + 1 => ⟨d.done, some ⟨more, 0x80, 0xBF, p.extend b⟩⟩
    else
      begin (replacement :: d.done) b

/-- The characters read, last one first, an unfinished one counting as a replacement. -/
def finish (d : Decoder) : List Char :=
  match d.open? with
  | none => d.done
  | some _ => replacement :: d.done

end Decoder

/-- The characters of a byte sequence. -/
def decode (bytes : List UInt8) : List Char :=
  (bytes.foldl Decoder.push Decoder.start).finish.reverse

/-- The characters of a byte sequence as a string. -/
def decodeString (bytes : List UInt8) : String :=
  String.ofList (decode bytes)

/-- The bytes of a string. -/
def encode (s : String) : List UInt8 :=
  s.toUTF8.data.toList

/-! ### Faults -/

inductive FaultKind
  | invalidStart
  | invalidContinuation
  | unexpectedEnd
deriving DecidableEq, Repr

/-- Bytes that are no character: where they begin, and how many there are. -/
structure Fault where
  start : Nat
  length : Nat
  kind : FaultKind
deriving DecidableEq, Repr

/-- The first fault of a byte sequence. -/
def fault? (bytes : List UInt8) : Option Fault :=
  go bytes 0 none
where
  /-- `open?` is the character in the making and the place of its first byte. -/
  go : List UInt8 → (index : Nat) → (open? : Option (Nat × Partial)) → Option Fault
    | [], _, none => none
    | [], index, some (start, _) => some ⟨start, index - start, .unexpectedEnd⟩
    | b :: rest, index, none =>
      match lead b with
      | .ascii _ => go rest (index + 1) none
      | .opens p => go rest (index + 1) (some (index, p))
      | .stray => some ⟨index, 1, .invalidStart⟩
    | b :: rest, index, some (start, p) =>
      if p.low ≤ b ∧ b ≤ p.high then
        match p.more with
        | 0 => go rest (index + 1) none
        | more + 1 => go rest (index + 1) (some (start, ⟨more, 0x80, 0xBF, p.extend b⟩))
      else some ⟨start, index - start, .invalidContinuation⟩

end RubyOutline.Utf8
