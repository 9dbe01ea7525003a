/-
RubyOutline/Value/Json.lean

Values as JSON text.

`Value.ofJson` reads one JSON text.  Besides standard JSON it takes the number words `NaN`,
`Infinity` and `-Infinity`; a key given twice keeps its first place and its last value.  An integer
has at most 4300 digits, and a longer one is a fault of its own, found where it stands.  A string
with a surrogate escape that has no partner becomes a `brokenString`.

Two writers: `Value.toJson` puts everything on one line, `Value.toIndentedJson` starts a new line
for each element, indented by two spaces a level.  Both write ASCII only.
-/
import RubyOutline.Value

namespace RubyOutline.Value

/-! ### Writing -/

def hexDigit (n : Nat) : Char :=
  if n < 10 then Char.ofNat (n + 48) else Char.ofNat (n + 87)

/-- `\u` and four digits, for one UTF-16 unit. -/
def unitEscape (n : Nat) : List Char :=
  ['\\', 'u', hexDigit (n / 4096 % 16), hexDigit (n / 256 % 16), hexDigit (n / 16 % 16),
    hexDigit (n % 16)]

/-- A code point within a JSON string. -/
def escapeCode (n : Nat) : List Char :=
  if n = '"'.toNat then ['\\', '"']
  else if n = '\\'.toNat then ['\\', '\\']
  else if n = '\n'.toNat then ['\\', 'n']
  else if n = '\r'.toNat then ['\\', 'r']
  else if n = '\t'.toNat then ['\\', 't']
  else if n = 0x08 then ['\\', 'b']
  else if n = 0x0C then ['\\', 'f']
  else if 0x20 ≤ n ∧ n < 0x7F then [Char.ofNat n]
  else if n < 0x10000 then unitEscape n
  else
    let n := n - 0x10000
    unitEscape (0xD800 + n / 1024) ++ unitEscape (0xDC00 + n % 1024)

def quoteJson (cs : Text.Codes) : String :=
  String.ofList (['"'] ++ cs.flatMap escapeCode ++ ['"'])

/-- A scalar as JSON text.  A date is written as its text; floats, bytes and sets are never written
by this library. -/
def scalarJson : Value → String
  | .null => "null"
  | .bool b => if b then "true" else "false"
  | .int n => toString n
  | .float x => x.toString
  | .string s | .date s | .moment s => quoteJson (Text.codes s)
  | .brokenString cs => quoteJson cs
  | .bytes _ | .list _ | .set _ | .map _ => ""

mutual

/-- A value as JSON text on one line. -/
def toJson : Value → String
  | .list items => "[" ++ ",".intercalate (itemsJson items) ++ "]"
  | .map entries => "\x7b" ++ ",".intercalate (entriesJson entries) ++ "\x7d"
  | v => scalarJson v

def itemsJson : List Value → List String
  | [] => []
  | v :: vs => toJson v :: itemsJson vs

def entriesJson : List (Value × Value) → List String
  | [] => []
  | (k, v) :: es => (toJson k ++ ":" ++ toJson v) :: entriesJson es

end

/-- Elements on lines of their own between two brackets. -/
def bracketed (opening closing : String) (depth : Nat) (elements : List String) : String :=
  if elements.isEmpty then opening ++ closing
  else
    let newline (depth : Nat) := "\n" ++ String.ofList (List.replicate (2 * depth) ' ')
    opening ++ newline (depth + 1) ++ ("," ++ newline (depth + 1)).intercalate elements ++
      newline depth ++ closing

mutual

/-- A value as indented JSON text, its first line already placed at the given depth. -/
def indentedFrom (depth : Nat) : Value → String
  | .list items => bracketed "[" "]" depth (indentedItems (depth + 1) items)
  | .map entries => bracketed "\x7b" "\x7d" depth (indentedEntries (depth + 1) entries)
  | v => scalarJson v

def indentedItems (depth : Nat) : List Value → List String
  | [] => []
  | v :: vs => indentedFrom depth v :: indentedItems depth vs

def indentedEntries (depth : Nat) : List (Value × Value) → List String
  | [] => []
  | (k, v) :: es => (scalarJson k ++ ": " ++ indentedFrom depth v) :: indentedEntries depth es

end

/-- A value as indented JSON text. -/
def toIndentedJson (v : Value) : String := indentedFrom 0 v

/-! ### Reading -/

def isJsonSpace (c : Char) : Bool :=
  c = ' ' || c = '\t' || c = '\n' || c = '\r'

def skipSpace (cs : List Char) : List Char := cs.dropWhile isJsonSpace

def hexValue? (c : Char) : Option Nat :=
  if '0' ≤ c ∧ c ≤ '9' then some (c.toNat - 48)
  else if 'a' ≤ c ∧ c ≤ 'f' then some (c.toNat - 87)
  else if 'A' ≤ c ∧ c ≤ 'F' then some (c.toNat - 55)
  else none

/-- The number that hexadecimal digits write. -/
def ofHex? (cs : List Char) : Option Nat :=
  cs.foldlM (fun n c => (hexValue? c).map (16 * n + ·)) 0

/-- The number that decimal digits write. -/
def ofDigits (cs : List Char) : Nat :=
  cs.foldl (fun n c => 10 * n + (c.toNat - 48)) 0

/-- What a one-letter escape stands for. -/
def unescape? : Char → Option Char
  | '"' => some '"'
  | '\\' => some '\\'
  | '/' => some '/'
  | 'b' => some '\x08'
  | 'f' => some '\x0c'
  | 'n' => some '\n'
  | 'r' => some '\r'
  | 't' => some '\t'
  | _ => none

/-- Why a text is not read as JSON. -/
inductive JsonFault
  | malformed
  | longInteger
deriving DecidableEq, Repr

/-- What is read at the front of a text, and the rest. -/
abbrev JsonRead (α : Type) := Except JsonFault (α × List Char)

/-- The rest of a string after its opening quote; `read` holds its code points and UTF-16 units so
far, last one first. -/
def readString : List Char → (read : Text.Codes) → JsonRead Value
  | [], _ => .error .malformed
  | '"' :: rest, read => .ok (ofCodes (Text.joinPairs read.reverse), rest)
  | '\\' :: 'u' :: a :: b :: c :: d :: rest, read =>
    match ofHex? [a, b, c, d] with
    | none => .error .malformed
    | some unit => readString rest (unit :: read)
  | '\\' :: c :: rest, read =>
    match unescape? c with
    | none => .error .malformed
    | some c => readString rest (c.toNat :: read)
  | c :: rest, read =>
    if c.toNat < 0x20 || c = '\\' then .error .malformed else readString rest (c.toNat :: read)

/-- The float nearest to a decimal `mantissa * 10 ^ exponent`.  Beyond the range of floats the
exponent itself decides. -/
def nearestFloat (negative : Bool) (mantissa : Nat) (exponent : Int) : Float :=
  let size : Int := (Nat.toDigits 10 mantissa).length + exponent
  let x : Float :=
    if mantissa = 0 ∨ size < -340 then 0.0
    else if size > 320 then 1.0 / 0.0
    else Float.ofScientific mantissa (exponent < 0) exponent.natAbs
  if negative then -x else x

/-- Digits at the front of a text, and the rest. -/
def spanDigits (cs : List Char) : List Char × List Char :=
  (cs.takeWhile Char.isDigit, cs.dropWhile Char.isDigit)

/-- The fraction of a number: its digits, if a point and a digit follow. -/
def readFraction (cs : List Char) : List Char × List Char :=
  match cs with
  | '.' :: rest =>
    match spanDigits rest with
    | ([], _) => ([], cs)
    | found => found
  | _ => ([], cs)

/-- The exponent of a number, if one follows. -/
def readExponent (cs : List Char) : Option Int × List Char :=
  let digits (sign : Int) (rest : List Char) : Option Int × List Char :=
    match spanDigits rest with
    | ([], _) => (none, cs)
    | (ds, rest) => (some (sign * ofDigits ds), rest)
  match cs with
  | e :: '-' :: rest => if e = 'e' ∨ e = 'E' then digits (-1) rest else (none, cs)
  | e :: '+' :: rest => if e = 'e' ∨ e = 'E' then digits 1 rest else (none, cs)
  | e :: rest => if e = 'e' ∨ e = 'E' then digits 1 rest else (none, cs)
  | [] => (none, cs)

/-- The longest integer, in digits. -/
def longestInteger : Nat := 4300

/-- A number after its sign.  No digit may follow a leading zero. -/
def readNumber (negative : Bool) (cs : List Char) : JsonRead Value :=
  let whole := match cs with
    | '0' :: rest => (['0'], rest)
    | _ => spanDigits cs
  if whole.1.isEmpty then .error .malformed
  else
    let (fraction, rest) := readFraction whole.2
    let (exponent, rest) := readExponent rest
    if fraction.isEmpty && exponent.isNone then
      let n : Int := ofDigits whole.1
      if longestInteger < whole.1.length then .error .longInteger
      else .ok (.int (if negative then -n else n), rest)
    else
      .ok (.float (nearestFloat negative (ofDigits (whole.1 ++ fraction))
        (exponent.getD 0 - fraction.length)), rest)

/-- What follows a word at the front of a text. -/
def afterWord? (word : String) (cs : List Char) : Option (List Char) :=
  if word.toList.isPrefixOf cs then some (cs.drop word.length) else none

/-- The words of JSON and the values they stand for. -/
def jsonWords : List (String × Value) :=
  [("null", .null), ("true", .bool true), ("false", .bool false), ("NaN", .float (0.0 / 0.0)),
   ("Infinity", .float (1.0 / 0.0)), ("-Infinity", .float (-1.0 / 0.0))]

/-- A word or a number. -/
def readScalar (cs : List Char) : JsonRead Value :=
  match jsonWords.findSome? fun (word, v) => (afterWord? word cs).map (v, ·) with
  | some found => .ok found
  | none =>
    match cs with
    | '-' :: rest => readNumber true rest
    | _ => readNumber false cs

mutual

/-- A value without white space in front.  The fuel bounds the number of steps. -/
def readValue : (fuel : Nat) → List Char → JsonRead Value
  | 0, _ => .error .malformed
  | _, [] => .error .malformed
  | _ + 1, '"' :: rest => readString rest []
  | fuel + 1, '[' :: rest =>
    match skipSpace rest with
    | ']' :: rest => .ok (.list [], rest)
    | rest => readItems fuel rest []
  | fuel + 1, '\x7b' :: rest =>
    match skipSpace rest with
    | '\x7d' :: rest => .ok (.map [], rest)
    | rest => readEntries fuel rest []
  | _ + 1, cs => readScalar cs

/-- The items of a list from the next one on. -/
def readItems : (fuel : Nat) → List Char → List Value → JsonRead Value
  | 0, _, _ => .error .malformed
  | fuel + 1, cs, items =>
    match readValue fuel cs with
    | .error e => .error e
    | .ok (v, rest) =>
      match skipSpace rest with
      | ',' :: rest => readItems fuel (skipSpace rest) (v :: items)
      | ']' :: rest => .ok (.list (v :: items).reverse, rest)
      | _ => .error .malformed

/-- The entries of an object from the next one on. -/
def readEntries : (fuel : Nat) → List Char → List (Value × Value) → JsonRead Value
  | 0, _, _ => .error .malformed
  | fuel + 1, '"' :: rest, entries =>
    match readString rest [] with
    | .error e => .error e
    | .ok (key, rest) =>
      match skipSpace rest with
      | ':' :: rest =>
        match readValue fuel (skipSpace rest) with
        | .error e => .error e
        | .ok (v, rest) =>
          match skipSpace rest with
          | ',' :: rest => readEntries fuel (skipSpace rest) ((key, v) :: entries)
          | '\x7d' :: rest => .ok (ofEntries ((key, v) :: entries).reverse, rest)
          | _ => .error .malformed
      | _ => .error .malformed
  | _ + 1, _, _ => .error .malformed

end

/-- The value that a JSON text writes. -/
def ofJson (text : String) : Except JsonFault Value :=
  let cs := skipSpace text.toList
  match readValue (2 * cs.length + 1) cs with
  | .error e => .error e
  | .ok (v, rest) => if (skipSpace rest).isEmpty then .ok v else .error .malformed

def ofJson? (text : String) : Option Value := (ofJson text).toOption

end RubyOutline.Value
