/-
RubyOutline/Value.lean

Values as they come out of a settings file, an environment variable or a request: the JSON values,
and with them what YAML adds, namely bytes, dates, sets and keys that are no strings.  A map keeps
its entries in the order of writing; writing a key again replaces its value in place.
-/
import RubyOutline.Text.AnyText

namespace RubyOutline

inductive Value
  | null
  | bool (b : Bool)
  | int (n : Int)
  | float (x : Float)
  | string (s : String)
  /-- A text that holds a surrogate and so is no string. -/
  | brokenString (codes : Text.Codes)
  | bytes (data : List UInt8)
  | date (text : String)
  /-- A date with a time of day. -/
  | moment (text : String)
  | list (items : List Value)
  | set (items : List Value)
  | map (entries : List (Value × Value))
deriving Inhabited, Repr

namespace Value

/-- A map whose keys are strings. -/
def object (entries : List (String × Value)) : Value :=
  .map (entries.map fun (k, v) => (.string k, v))

def strings (ss : List String) : Value := .list (ss.map .string)

/-- A text as a value. -/
def ofText : AnyText → Value
  | .string s => .string s
  | .broken cs _ => .brokenString cs

def texts (ts : List AnyText) : Value := .list (ts.map ofText)

def nat (n : Nat) : Value := .int n

/-- A value that counts as yes. -/
def isYes : Value → Bool
  | .null => false
  | .bool b => b
  | .int n => n != 0
  | .float x => x != 0.0
  | .string s => s != ""
  | .bytes data => !data.isEmpty
  | .list vs | .set vs => !vs.isEmpty
  | .map entries => !entries.isEmpty
  | _ => true

/-- The text of some code points as a value. -/
def ofCodes (cs : Text.Codes) : Value := ofText (.ofCodes cs)

/-- The integer that a number is, if it is whole.  Truth values count as 0 and 1. -/
def wholeNumber? : Value → Option Int
  | .bool b => some (if b then 1 else 0)
  | .int n => some n
  | .float x => if x.floor == x && x.abs < 9223372036854775808.0 then some x.toInt64.toInt else none
  | _ => none

/-- Two scalars that are one key of a map.  Numbers are one key if they are equal. -/
def sameKey : Value → Value → Bool
  | .null, .null => true
  | .float a, .float b => a == b
  | .string a, .string b => a == b
  | .brokenString a, .brokenString b => a == b
  | .bytes a, .bytes b => a == b
  | .date a, .date b => a == b
  | .moment a, .moment b => a == b
  | a, b =>
    match a.wholeNumber?, b.wholeNumber? with
    | some m, some n => m == n
    | _, _ => false

/-- Writes an entry: over the one with the same key, or at the end. -/
def insertEntry (entries : List (Value × Value)) (key value : Value) : List (Value × Value) :=
  if entries.any (·.1.sameKey key) then
    entries.map fun (k, v) => if k.sameKey key then (k, value) else (k, v)
  else
    entries ++ [(key, value)]

/-- The entries that are left of entries written one after the other. -/
def writtenEntries (entries : List (Value × Value)) : List (Value × Value) :=
  entries.foldl (fun written (k, v) => insertEntry written k v) []

/-- A map of entries written one after the other. -/
def ofEntries (entries : List (Value × Value)) : Value := .map (writtenEntries entries)

/-- The entry of a list of entries under a string key. -/
def lookup? (key : String) (entries : List (Value × Value)) : Option Value :=
  entries.findSome? fun
    | (.string k, v) => if k == key then some v else none
    | _ => none

/-- The entry of a map under a string key. -/
def get? (v : Value) (key : String) : Option Value :=
  match v with
  | .map entries => lookup? key entries
  | _ => none

/-- The entries whose keys are strings. -/
def stringEntries (entries : List (Value × Value)) : List (String × Value) :=
  entries.filterMap fun
    | (.string k, v) => some (k, v)
    | _ => none

end Value

end RubyOutline
