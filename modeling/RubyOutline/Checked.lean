/-
RubyOutline/Checked.lean

Checks that report every fault.  A check of a value either accepts it, turned into what it stands
for, or lists what is wrong with it and where.  Independent checks are combined with `<*>`, which
gathers the issues of both sides in order; a check that needs the result of another one follows it
with `Checked.andThen`.

Scalars are taken leniently: an integer may also be written as a string, a whole float or a truth
value, a truth value as a word or as 0 or 1, a string as its bytes, and a list as a set.  A text of
which no more is asked than to be one may hold surrogates (`Check.text`); any further question about
a text is asked of a string (`Check.string`).
-/
import RubyOutline.Text.Blank
import RubyOutline.Text.Case
import RubyOutline.Text.Utf8
import RubyOutline.Value

namespace RubyOutline

/-- A step on the way to a part of a value. -/
inductive Step
  | key (name : String)
  | index (i : Nat)
deriving DecidableEq, Repr

inductive IssueKind
  | missing
  | extraForbidden
  | modelType
  | stringType
  | stringTooShort
  | stringUnicode
  | literalError
  | enumError
  | listType
  | valueError
  | intType
  | intParsing
  | intParsingSize
  | intFromFloat
  | finiteNumber
  | greaterThanEqual
  | lessThanEqual
  | boolType
  | boolParsing
  | pathType
deriving DecidableEq, Repr

namespace IssueKind

def code : IssueKind → String
  | .missing => "missing"
  | .extraForbidden => "extra_forbidden"
  | .modelType => "model_type"
  | .stringType => "string_type"
  | .stringTooShort => "string_too_short"
  | .stringUnicode => "string_unicode"
  | .literalError => "literal_error"
  | .enumError => "enum"
  | .listType => "list_type"
  | .valueError => "value_error"
  | .intType => "int_type"
  | .intParsing => "int_parsing"
  | .intParsingSize => "int_parsing_size"
  | .intFromFloat => "int_from_float"
  | .finiteNumber => "finite_number"
  | .greaterThanEqual => "greater_than_equal"
  | .lessThanEqual => "less_than_equal"
  | .boolType => "bool_type"
  | .boolParsing => "bool_parsing"
  | .pathType => "path_type"

end IssueKind

/-- What is wrong, and where. -/
structure Issue where
  place : List Step
  kind : IssueKind
deriving DecidableEq, Repr

inductive Checked (α : Type)
  | accepted (a : α)
  | rejected (issues : List Issue)
deriving Repr

namespace Checked

variable {α β γ : Type}

def map (f : α → β) : Checked α → Checked β
  | accepted a => accepted (f a)
  | rejected is => rejected is

/-- Both sides, the issues of the first before those of the second. -/
def both (f : Checked (α → β)) (x : Checked α) : Checked β :=
  match f, x with
  | accepted f, accepted a => accepted (f a)
  | accepted _, rejected is => rejected is
  | rejected is, accepted _ => rejected is
  | rejected is, rejected js => rejected (is ++ js)

instance : Applicative Checked where
  pure := accepted
  map := map
  seq f x := both f (x ())

/-- A check of a result, if there is one. -/
def andThen (x : Checked α) (f : α → Checked β) : Checked β :=
  match x with
  | accepted a => f a
  | rejected is => rejected is

def issue (kind : IssueKind) : Checked α := rejected [⟨[], kind⟩]

/-- The same check seen from further up. -/
def under (step : Step) : Checked α → Checked α
  | accepted a => accepted a
  | rejected is => rejected (is.map fun i => { i with place := step :: i.place })

/-- The results of checks that are all made, whatever comes of the others. -/
def sequence : List (Checked α) → Checked (List α)
  | [] => accepted []
  | x :: xs => both (map List.cons x) (sequence xs)

/-- The results of checks made one after the other, up to the first that is rejected. -/
def inTurn : List (Checked α) → Checked (List α)
  | [] => accepted []
  | x :: xs => x.andThen fun a => (inTurn xs).map (a :: ·)

end Checked

/-! ### Scalars -/

namespace Check

open Checked

/-- The string that bytes write, which is an issue of a kind if there is none. -/
def ofBytes (kind : IssueKind) (data : List UInt8) : Checked String :=
  match String.fromUTF8? data.toByteArray with
  | some s => accepted s
  | none => issue kind

/-- Any text. -/
def text : Value → Checked AnyText
  | .string s => accepted s
  | .brokenString cs => accepted (.ofCodes cs)
  | .bytes data => (ofBytes .stringUnicode data).map .string
  | _ => issue .stringType

/-- A text without surrogates. -/
def string (v : Value) : Checked String :=
  (text v).andThen fun
    | .string s => accepted s
    | .broken .. => issue .stringUnicode

/-- One of some words. -/
def word {α : Type} (kind : IssueKind) (choices : List α) (label : α → String) :
    Value → Checked α
  | .string s =>
    match choices.find? (label · == s) with
    | some a => accepted a
    | none => issue kind
  | .brokenString _ => issue .stringUnicode
  | _ => issue kind

/-! ### Integers -/

/-- A text without a plus sign in front.  No other sign may follow one. -/
def withoutPlus? : List Char → Option (List Char)
  | '+' :: '-' :: _ => none
  | '+' :: rest => some rest
  | cs => some cs

/-- A text without a point and the zeros after it at its end. -/
def withoutFraction (cs : List Char) : List Char :=
  let whole := cs.takeWhile (· != '.')
  let zeros := cs.drop (whole.length + 1)
  if !zeros.isEmpty && zeros.all (· == '0') then whole else cs

/-- A text without zeros in front and the underscores among them.  Of nothing but those the last
one is left. -/
def withoutLeadingZeros? (cs : List Char) : Option (List Char) :=
  let starts (c : Char) : Bool := ('1' ≤ c && c ≤ '9') || c = '-'
  match cs with
  | [] => none
  | c :: _ =>
    if starts c then some cs
    else if c != '0' then none
    else
      match cs.dropWhile fun c => c = '0' || c = '_' with
      | [] => some (cs.getLast?.toList)
      | d :: rest => if starts d then some (d :: rest) else none

/-- A text without its underscores, if each stands by itself between other characters. -/
def withoutUnderscores (cs : List Char) : List Char :=
  let pieces := cs.splitOn '_'
  if pieces.all (!·.isEmpty) then pieces.flatten else cs

/-- The digits of an integer with a minus sign if it is negative, before they are read. -/
def cleanedInt? (text : List Char) : Option (List Char) := do
  let cs ← withoutPlus? (Text.trimList Text.isBlank text)
  return withoutUnderscores (← withoutLeadingZeros? (withoutFraction cs))

/-- The integer that a minus sign, if there is one, and digits write. -/
def intOfDigits? (cs : List Char) : Option Int :=
  let (negative, digits) := match cs with
    | '-' :: digits => (true, digits)
    | digits => (false, digits)
  if digits.isEmpty || !digits.all Char.isDigit then none
  else
    let n : Nat := digits.foldl (fun n c => 10 * n + (c.toNat - 48)) 0
    some (if negative then -(n : Int) else n)

/-- The longest integer read, in characters. -/
def longestInt : Nat := 4300

/-- The integer that a text writes. -/
def intOfText (s : String) : Checked Int :=
  match cleanedInt? s.toList with
  | none => issue .intParsing
  | some cs =>
    if longestInt < (String.ofList cs).utf8ByteSize then issue .intParsingSize
    else match intOfDigits? cs with
      | some n => accepted n
      | none => issue .intParsing

/-- The integer that a float is, if it is whole and fits into 64 bits. -/
def intOfFloat (x : Float) : Checked Int :=
  if x.isNaN || x.isInf then issue .finiteNumber
  else if x.floor != x then issue .intFromFloat
  else if x.abs < 9223372036854775808.0 then accepted x.toInt64.toInt
  else issue .intParsingSize

def int : Value → Checked Int
  | .int n => accepted n
  | .bool b => accepted (if b then 1 else 0)
  | .float x => intOfFloat x
  | .string s => intOfText s
  | .brokenString _ => issue .stringUnicode
  | .bytes data => (ofBytes .intParsing data).andThen intOfText
  | _ => issue .intType

/-- An integer that is not negative. -/
def nat (v : Value) : Checked Nat :=
  (int v).andThen fun n => if n < 0 then issue .greaterThanEqual else accepted n.toNat

def trueWords : List String := ["1", "t", "y", "on", "yes", "true"]
def falseWords : List String := ["0", "f", "n", "no", "off", "false"]

/-- The truth value that an integer of 64 bits is. -/
def boolOfInt (n : Int) : Checked Bool :=
  if n < -9223372036854775808 ∨ 9223372036854775807 < n then issue .boolType
  else if n = 0 then accepted false
  else if n = 1 then accepted true
  else issue .boolParsing

def boolOfText (s : String) : Checked Bool :=
  let word := Text.lowercase s
  if trueWords.contains word then accepted true
  else if falseWords.contains word then accepted false
  else issue .boolParsing

def bool : Value → Checked Bool
  | .bool b => accepted b
  | .string s => boolOfText s
  | .brokenString _ => issue .stringUnicode
  | .bytes data => (ofBytes .boolParsing data).andThen boolOfText
  | .int n => boolOfInt n
  | .float x =>
    match intOfFloat x with
    | accepted n => boolOfInt n
    | rejected _ => issue .boolType
  | _ => issue .boolType

/-! ### Structures -/

def listOf {α : Type} (element : Value → Checked α) : Value → Checked (List α)
  | .list vs | .set vs =>
    Checked.sequence (vs.zipIdx.map fun (v, i) => (element v).under (.index i))
  | _ => issue .listType

/-- A field with a default. -/
def fieldOr {α : Type} (entries : List (Value × Value)) (key : String) (default : α)
    (check : Value → Checked α) : Checked α :=
  match Value.lookup? key entries with
  | none => accepted default
  | some v => (check v).under (.key key)

/-- A field that must be there. -/
def required {α : Type} (entries : List (Value × Value)) (key : String)
    (check : Value → Checked α) : Checked α :=
  match Value.lookup? key entries with
  | none => (issue .missing).under (.key key)
  | some v => (check v).under (.key key)

/-- A value with fields. -/
def fields {α : Type} (check : List (Value × Value) → Checked α) : Value → Checked α
  | .map entries => check entries
  | _ => issue .modelType

end Check

end RubyOutline
