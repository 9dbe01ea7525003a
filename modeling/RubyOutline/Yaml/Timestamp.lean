/-
RubyOutline/Yaml/Timestamp.lean

Dates and times as YAML writes them: `2024-05-17`, or with a time of day, fractions of a second
and a time zone.  A text of the right form can still name no moment.
-/
import RubyOutline.Value.Json

namespace RubyOutline.Yaml

structure Timestamp where
  year : Nat
  month : Nat
  day : Nat
  /-- Hour, minute and second. -/
  time : Option (Nat × Nat × Nat)
  /-- The time zone: seconds ahead of universal time. -/
  offset : Int
deriving DecidableEq, Repr

namespace Timestamp

/-! ### Reading -/

/-- A number of between `least` and `most` digits, and the rest. -/
def number? (least most : Nat) (cs : List Char) : Option (Nat × List Char) :=
  let digits := cs.takeWhile Char.isDigit
  if least ≤ digits.length && digits.length ≤ most then
    some (Value.ofDigits digits, cs.drop digits.length)
  else none

/-- The rest after a character. -/
def after? (c : Char) : List Char → Option (List Char)
  | d :: rest => if c = d then some rest else none
  | [] => none

def isSpace (c : Char) : Bool := c = ' ' || c = '\t'

/-- The offset of a time zone at the end of the text: nothing, `Z`, or hours and maybe minutes. -/
def zone? (cs : List Char) : Option Int :=
  match cs with
  | [] | ['Z'] => some 0
  | sign :: rest => do
    guard (sign = '+' || sign = '-')
    let (hours, rest) ← number? 1 2 rest
    let minutes ← match rest with
      | [] => some 0
      | ':' :: rest => do
        let (minutes, rest) ← number? 2 2 rest
        guard rest.isEmpty
        some minutes
      | _ => none
    let seconds : Int := 3600 * hours + 60 * minutes
    return if sign = '-' then -seconds else seconds

/-- The time of day after a date with its time zone, up to the end of the text. -/
def time? (cs : List Char) : Option ((Nat × Nat × Nat) × Int) := do
  let cs ← match cs with
    | 'T' :: rest | 't' :: rest => some rest
    | c :: rest => if isSpace c then some (rest.dropWhile isSpace) else none
    | [] => none
  let (hour, cs) ← number? 1 2 cs
  let (minute, cs) ← number? 2 2 (← after? ':' cs)
  let (second, cs) ← number? 2 2 (← after? ':' cs)
  let cs := match cs with
    | '.' :: rest => rest.dropWhile Char.isDigit
    | cs => cs
  let zone := cs.dropWhile isSpace
  guard (!zone.isEmpty || cs.isEmpty)
  return ((hour, minute, second), ← zone? zone)

/-- The moment that a text has the form of. -/
def ofText? (text : List Char) : Option Timestamp := do
  let (year, cs) ← number? 4 4 text
  let (month, cs) ← number? 1 2 (← after? '-' cs)
  let (day, cs) ← number? 1 2 (← after? '-' cs)
  if cs.isEmpty then return ⟨year, month, day, none, 0⟩
  let (time, offset) ← time? cs
  return ⟨year, month, day, some time, offset⟩

/-- A plain scalar of this form is a date.  Without a time it has two digits each for month and
day. -/
def isForm (text : List Char) : Bool :=
  (ofText? text).any fun t => t.time.isSome || text.length = 10

/-! ### Moments that do not exist -/

/-- Why there is no such moment. -/
inductive Fault
  | offset (seconds : Int)
  | year
  | month
  | day
  | hour
  | minute
  | second
deriving DecidableEq, Repr

/-- A length of time in days and the seconds that are left, those that are zero left out. -/
def lengthText (seconds : Int) : String :=
  let days := seconds.fdiv 86400
  let rest := seconds.fmod 86400
  ", ".intercalate
    ((if days = 0 then [] else [s!"days={days}"]) ++ if rest = 0 then [] else [s!"seconds={rest}"])

def Fault.message : Fault → String
  | .offset seconds =>
    "offset must be a timedelta strictly between -timedelta(hours=24) and timedelta(hours=24), " ++
      s!"not datetime.timedelta({lengthText seconds})."
  | .year => "year 0 is out of range"
  | .month => "month must be in 1..12"
  | .day => "day is out of range for month"
  | .hour => "hour must be in 0..23"
  | .minute => "minute must be in 0..59"
  | .second => "second must be in 0..59"

def isLeap (year : Nat) : Bool := year % 4 = 0 && (year % 100 != 0 || year % 400 = 0)

def monthDays (year month : Nat) : Nat :=
  if month = 2 then if isLeap year then 29 else 28
  else if [4, 6, 9, 11].contains month then 30
  else 31

/-- Why no such moment exists, if so.  The time zone is looked at first. -/
def fault? (t : Timestamp) : Option Fault :=
  let (hour, minute, second) := t.time.getD (0, 0, 0)
  if 86400 ≤ t.offset.natAbs then some (.offset t.offset)
  else if t.year = 0 then some .year
  else if t.month = 0 || 12 < t.month then some .month
  else if t.day = 0 || monthDays t.year t.month < t.day then some .day
  else if 23 < hour then some .hour
  else if 59 < minute then some .minute
  else if 59 < second then some .second
  else none

end Timestamp

end RubyOutline.Yaml
