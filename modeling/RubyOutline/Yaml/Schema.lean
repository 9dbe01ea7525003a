/-
RubyOutline/Yaml/Schema.lean

The types of YAML nodes and the values of scalars.

A plain scalar without a tag is what its text looks like (`plainType`): null, a truth value, an
integer in one of five notations, a float, a date, or else a string.  One line break at its end
does not count.  Quoted scalars are strings.  A tag asks for a type by name, and then the text is
read as that type however it looks (`intOfText` and its neighbours).
-/
import RubyOutline.Text.Case
import RubyOutline.Text.Numeral
import RubyOutline.Value
import RubyOutline.Yaml.Error

namespace RubyOutline.Yaml

/-! ### Types -/

/-- The type of a node. -/
inductive NodeType
  | null
  | bool
  | int
  | float
  | binary
  | timestamp
  | text
  | sequence
  | orderedMap
  | pairs
  | mapping
  | set
  /-- A key that merges other mappings in. -/
  | mergeKey
  /-- A key whose value stands for the mapping where a scalar is asked for. -/
  | valueKey
  /-- A type that has no values here. -/
  | unknown
deriving DecidableEq, Repr, Inhabited

namespace NodeType

/-- The types by their names. -/
def names : List (String × NodeType) :=
  [("null", .null), ("bool", .bool), ("int", .int), ("float", .float), ("binary", .binary),
   ("timestamp", .timestamp), ("str", .text), ("seq", .sequence), ("omap", .orderedMap),
   ("pairs", .pairs), ("map", .mapping), ("set", .set), ("merge", .mergeKey), ("value", .valueKey)]

/-- The type that a tag asks for. -/
def ofTag (tag : String) : NodeType :=
  let start := "tag:yaml.org,2002:"
  if start.toList.isPrefixOf tag.toList then
    (names.lookup (String.ofList (tag.toList.drop start.length))).getD .unknown
  else .unknown

/-- The values of a type can be keys. -/
def isHashable : NodeType → Bool
  | .sequence | .orderedMap | .pairs | .mapping | .set => false
  | _ => true

end NodeType

/-! ### What a plain scalar looks like -/

def isNullText (s : String) : Bool := ["", "~", "null", "Null", "NULL"].contains s

/-- The words for truth values, in lower case. -/
def boolWords : List (String × Bool) :=
  [("yes", true), ("no", false), ("true", true), ("false", false), ("on", true), ("off", false)]

/-- A word for a truth value in lower case, in upper case or with a capital. -/
def isBoolText (s : String) : Bool :=
  boolWords.any fun (word, _) => s = word || s = Text.capitalized word || s = Text.uppercase word

def isSign (c : Char) : Bool := c = '+' || c = '-'

/-- A text without a sign in front. -/
def unsigned (cs : List Char) : List Char :=
  match cs with
  | c :: rest => if isSign c then rest else cs
  | [] => []

/-- One or more characters, all of a kind or underscores. -/
def areDigits (p : Char → Bool) (cs : List Char) : Bool :=
  !cs.isEmpty && cs.all fun c => p c || c = '_'

def isOctalDigit (c : Char) : Bool := '0' ≤ c && c ≤ '7'

def isHexDigit (c : Char) : Bool := (Value.hexValue? c).isSome

/-- A digit in front and then digits and underscores. -/
def isDecimal (cs : List Char) : Bool :=
  cs.head?.any Char.isDigit && areDigits Char.isDigit cs

/-- A number of up to two digits and less than sixty. -/
def isSixtieth : List Char → Bool
  | [c] => c.isDigit
  | [c, d] => '0' ≤ c && c ≤ '5' && d.isDigit
  | _ => false

/-- A plain scalar of this form is an integer. -/
def looksLikeInt (text : List Char) : Bool :=
  match unsigned text with
  | ['0'] => true
  | '0' :: 'b' :: digits => areDigits (fun c => c = '0' || c = '1') digits
  | '0' :: 'x' :: digits => areDigits isHexDigit digits
  | '0' :: digits => areDigits isOctalDigit digits
  | cs =>
    match cs.splitOn ':' with
    | whole :: parts => isDecimal whole && whole.head? != some '0' && parts.all isSixtieth
    | [] => false

/-- An exponent with its sign, or nothing. -/
def isExponent : List Char → Bool
  | [] => true
  | e :: sign :: digits =>
    (e = 'e' || e = 'E') && isSign sign && !digits.isEmpty && digits.all Char.isDigit
  | _ => false

def isFractionChar (c : Char) : Bool := c.isDigit || c = '_'

/-- A plain scalar of this form is a float. -/
def looksLikeFloat (text : List Char) : Bool :=
  let cs := unsigned text
  let whole := cs.takeWhile (· != '.')
  match cs.dropWhile (· != '.') with
  | [] => false
  | _ :: fraction =>
    let tail := fraction.dropWhile isFractionChar
    match whole.splitOn ':' with
    | [[]] =>
      (fraction.head?.any Char.isDigit && isExponent tail && cs == text) ||
        ["inf", "Inf", "INF"].contains (String.ofList fraction) ||
        (["nan", "NaN", "NAN"].contains (String.ofList fraction) && cs == text)
    | [whole] => isDecimal whole && isExponent tail
    | whole :: parts => isDecimal whole && parts.all isSixtieth && tail.isEmpty
    | [] => false

/-- A text without one line break at its end. -/
def withoutLastBreak (cs : List Char) : List Char :=
  if cs.getLast? = some '\n' then cs.dropLast else cs

/-- The type of a plain scalar without a tag, by its one line. -/
def lineType (cs : List Char) : NodeType :=
  let line := String.ofList cs
  if isNullText line then .null
  else if isBoolText line then .bool
  else if looksLikeFloat cs then .float
  else if looksLikeInt cs then .int
  else if Timestamp.isForm cs then .timestamp
  else if line = "<<" then .mergeKey
  else if line = "=" then .valueKey
  else if ["!", "&", "*"].contains line then .unknown
  else .text

/-- The type of a plain scalar without a tag. -/
def plainType (text : Text.Codes) : NodeType :=
  match Text.ofCodes? text with
  | none => .text
  | some "\n" => .text
  | some s => lineType (withoutLastBreak s.toList)

/-! ### Scalars of a type -/

def withoutUnderscores (text : Text.Codes) : Text.Codes := text.filter (· != '_'.toNat)

/-- The sign in front of a number, which must have some character, and what follows it. -/
def signOf (text : Text.Codes) : Except YamlError (Bool × Text.Codes) :=
  match text with
  | [] => .error .emptyNumber
  | n :: rest =>
    if n = '-'.toNat then .ok (true, rest)
    else if n = '+'.toNat then .ok (false, rest)
    else .ok (false, text)

def readInt (base : Nat) (text : Text.Codes) : Except YamlError Int :=
  match Text.readInt base text with
  | .ok n => .ok n
  | .error .malformed => .error (.badInt text base)
  | .error (.tooLong digits) => .error (.longInt digits)

/-- What follows a start of a text, if it starts so. -/
def afterStart? (start : String) (text : Text.Codes) : Option Text.Codes :=
  if (Text.codes start).isPrefixOf text then some (text.drop start.length) else none

/-- The number that parts write, each worth sixty of the next. -/
def readSixtieths (text : Text.Codes) : Except YamlError Int := do
  let parts ← (text.splitOn ':'.toNat).mapM (readInt 10)
  return parts.foldl (60 * · + ·) 0

/-- The integer that a text without a sign writes. -/
def unsignedInt (text : Text.Codes) : Except YamlError Int :=
  match afterStart? "0b" text, afterStart? "0x" text, text with
  | some digits, _, _ => readInt 2 digits
  | _, some digits, _ => readInt 16 digits
  | _, _, [] => .error .emptyNumber
  | _, _, first :: _ =>
    if first = '0'.toNat then readInt 8 text
    else if text.contains ':'.toNat then readSixtieths text
    else readInt 10 text

/-- The integer that a text writes. -/
def intOfText (text : Text.Codes) : Except YamlError Int := do
  let (negative, digits) ← signOf (withoutUnderscores text)
  let n ← unsignedInt digits
  return if negative then -n else n

def readFloat (text : Text.Codes) : Except YamlError Float :=
  match Text.readFloat? text with
  | some x => .ok x
  | none => .error (.badFloat text)

/-- The sum of parts, each worth sixty of the next. -/
def sumSixtieths (parts : List Float) : Float :=
  (parts.reverse.foldl (fun (sum, worth) x => (sum + x * worth, worth * 60.0)) (0.0, 1.0)).1

/-- The float that a text writes. -/
def floatOfText (text : Text.Codes) : Except YamlError Float := do
  let (negative, digits) ← signOf (Text.lowerCodes (withoutUnderscores text))
  let x ←
    if digits = Text.codes ".inf" then pure (1.0 / 0.0)
    else if digits = Text.codes ".nan" then pure (0.0 / 0.0)
    else if digits.contains ':'.toNat then
      sumSixtieths <$> (digits.splitOn ':'.toNat).mapM readFloat
    else readFloat digits
  return if negative then -x else x

/-- The truth value that a text writes. -/
def boolOfText (text : Text.Codes) : Except YamlError Bool :=
  let word := Text.lowerCodes text
  match boolWords.find? fun (w, _) => Text.codes w == word with
  | some (_, b) => .ok b
  | none => .error (.badBool word)

/-- The date that a text writes. -/
def dateOfText (text : Text.Codes) : Except YamlError Value :=
  let line := withoutLastBreak (((Text.ofCodes? text).getD "").toList)
  match Timestamp.ofText? line with
  | none => .error .notDate
  | some t =>
    match t.fault? with
    | some fault => .error (.badDate fault)
    | none => .ok ((if t.time.isSome then Value.moment else Value.date) (String.ofList line))

/-! ### Bytes -/

/-- The value of a digit of base 64. -/
def base64Value? (n : Nat) : Option Nat :=
  let c := Char.ofNat n
  if c.isUpper then some (n - 0x41)
  else if c.isLower then some (n - 0x61 + 26)
  else if c.isDigit then some (n - 0x30 + 52)
  else if c = '+' then some 62
  else if c = '/' then some 63
  else none

/-- The digits of base 64 in a text, in groups of four.  A group that is shorter is filled up with
equals signs, and after it nothing counts; anything else between the digits is passed over.  `held`
is the number of digits in the group so far, `fill` that of the equals signs after them. -/
def base64Digits? : Text.Codes → (held fill : Nat) → Option (List Nat)
  | [], held, _ => if held = 0 then some [] else none
  | n :: rest, held, fill =>
    if n = '='.toNat then
      if held < 2 then base64Digits? rest held fill
      else if held + fill + 1 < 4 then base64Digits? rest held (fill + 1)
      else some []
    else
      match base64Value? n with
      | none => base64Digits? rest held fill
      | some d => (base64Digits? rest ((held + 1) % 4) 0).map (d :: ·)

/-- The bytes of digits of base 64: three for each group of four, fewer for a shorter group. -/
def ofBase64 : List Nat → List UInt8
  | a :: b :: c :: d :: rest =>
    ((a * 64 + b) / 16).toUInt8 :: ((b * 64 + c) / 4).toUInt8 :: (c * 64 + d).toUInt8 ::
      ofBase64 rest
  | [a, b, c] => [((a * 64 + b) / 16).toUInt8, ((b * 64 + c) / 4).toUInt8]
  | [a, b] => [((a * 64 + b) / 16).toUInt8]
  | _ => []

/-- The bytes that a text writes. -/
def bytesOfText (text : Text.Codes) : Except YamlError (List UInt8) :=
  match base64Digits? text 0 0 with
  | some digits => if text.all (· < 0x80) then .ok (ofBase64 digits) else .error .malformed
  | none => .error .malformed

end RubyOutline.Yaml
