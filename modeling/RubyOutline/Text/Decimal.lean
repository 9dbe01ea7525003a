/-
RubyOutline/Text/Decimal.lean

The text of a float: the fewest decimal digits that read back as the same float, and of those the
nearest to it.

A finite float is `m * 2 ^ q`.  The decimals that read back as it lie between the middles to its
two neighbours, the middles among them if `m` is even.  All comparisons are made with natural
numbers.
-/

namespace RubyOutline.Text

/-- A number `mantissa * 2 ^ exponent`. -/
structure Binary where
  mantissa : Nat
  exponent : Int
deriving DecidableEq, Repr

/-- A number `mantissa * 10 ^ exponent`. -/
structure Decimal where
  mantissa : Nat
  exponent : Int
deriving DecidableEq, Repr

namespace Binary

/-- The size of a finite float. -/
def ofFloat (x : Float) : Binary :=
  let bits : Nat := x.toBits.toNat % Nat.pow 2 63
  let fraction : Nat := bits % Nat.pow 2 52
  let scale : Nat := bits / Nat.pow 2 52
  if scale = 0 then ⟨fraction, -1074⟩ else ⟨Nat.pow 2 52 + fraction, (scale : Int) - 1075⟩

/-- A decimal is at most a binary number. -/
def atLeast (b : Binary) (d : Decimal) : Bool :=
  d.mantissa * Nat.pow 10 d.exponent.toNat * Nat.pow 2 (-b.exponent).toNat ≤
    b.mantissa * Nat.pow 2 b.exponent.toNat * Nat.pow 10 (-d.exponent).toNat

/-- A binary number is at most a decimal. -/
def atMost (b : Binary) (d : Decimal) : Bool :=
  b.mantissa * Nat.pow 2 b.exponent.toNat * Nat.pow 10 (-d.exponent).toNat ≤
    d.mantissa * Nat.pow 10 d.exponent.toNat * Nat.pow 2 (-b.exponent).toNat

/-- The middle between a float and its neighbour below, which is nearer at a power of two. -/
def middleBelow (b : Binary) : Binary :=
  if b.mantissa = Nat.pow 2 52 ∧ -1074 < b.exponent then ⟨4 * b.mantissa - 1, b.exponent - 2⟩
  else ⟨4 * b.mantissa - 2, b.exponent - 2⟩

/-- The middle between a float and its neighbour above. -/
def middleAbove (b : Binary) : Binary := ⟨4 * b.mantissa + 2, b.exponent - 2⟩

/-- A decimal reads back as a float. -/
def readsBack (b : Binary) (d : Decimal) : Bool :=
  if b.mantissa % 2 = 0 then b.middleBelow.atMost d && b.middleAbove.atLeast d
  else !b.middleBelow.atLeast d && !b.middleAbove.atMost d

/-- The greatest multiple of a power of ten that is at most a number. -/
def floorAt (b : Binary) (exponent : Int) : Decimal :=
  ⟨b.mantissa * Nat.pow 2 b.exponent.toNat * Nat.pow 10 (-exponent).toNat /
    (Nat.pow 10 exponent.toNat * Nat.pow 2 (-b.exponent).toNat), exponent⟩

/-- Of two neighbouring decimals the upper one is nearer. -/
def isNearerAbove (b : Binary) (below : Decimal) : Bool :=
  !(b.atMost ⟨10 * below.mantissa + 5, below.exponent - 1⟩)

/-- The decimal on a grid that reads back, if there is one. -/
def decimalAt? (b : Binary) (exponent : Int) : Option Decimal :=
  let below := b.floorAt exponent
  let above : Decimal := { below with mantissa := below.mantissa + 1 }
  match b.readsBack below, b.readsBack above with
  | true, true => some (if b.isNearerAbove below then above else below)
  | true, false => some below
  | false, true => some above
  | false, false => none

/-- The grids from the coarsest on that a float can need. -/
def grids : List Int := (List.range 634).map fun (n : Nat) => (309 : Int) - n

/-- The shortest decimal that reads back as a float other than zero. -/
def shortest (b : Binary) : Decimal :=
  (grids.findSome? fun exponent => (b.decimalAt? exponent).filter (·.mantissa != 0)).getD ⟨0, 0⟩

end Binary

/-- The digits of a decimal in writing: with a point, unless it would stand more than sixteen
digits after the first one or four before it. -/
def Decimal.text (d : Decimal) : String :=
  let digits := Nat.toDigits 10 d.mantissa
  let point : Int := digits.length + d.exponent
  let zeros (n : Int) := List.replicate n.toNat '0'
  String.ofList <|
    if d.mantissa = 0 then ['0', '.', '0']
    else if 16 < point ∨ point < -3 then
      let size := Nat.toDigits 10 (point - 1).natAbs
      digits.take 1 ++ (if digits.length = 1 then [] else '.' :: digits.drop 1) ++
        ['e', if point < 1 then '-' else '+'] ++ zeros (2 - size.length) ++ size
    else if point ≤ 0 then ['0', '.'] ++ zeros (-point) ++ digits
    else if digits.length ≤ point then digits ++ zeros (point - digits.length) ++ ['.', '0']
    else digits.take point.toNat ++ '.' :: digits.drop point.toNat

/-- The text of a float. -/
def ofFloat (x : Float) : String :=
  if x.isNaN then "nan"
  else
    let sign := if x.toBits.toNat < Nat.pow 2 63 then "" else "-"
    sign ++ (if x.isInf then "inf" else (Binary.ofFloat x).shortest.text)

end RubyOutline.Text
