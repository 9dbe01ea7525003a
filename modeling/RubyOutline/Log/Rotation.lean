/-
RubyOutline/Log/Rotation.lean

When a log file is full and how long old ones are kept, in words.

A file is full at a size (`10 MB`), after some length of time (`1 week, 2 days`), at a recurring
moment (`daily`), or at a time of day, on a day of the week or on every day (`friday at 12:30`).
Old files are kept for some length of time.  Case does not matter in any of this.
-/
import RubyOutline.Text.Case
import RubyOutline.Text.Numeral
import RubyOutline.Text.Quoted

namespace RubyOutline

/-- Why the words for a rotation or a retention say nothing. -/
inductive RotationError
  | badSizeNumber (text : String)
  | badDurationNumber (text : String)
  | badUnit (text : String)
  | badDay (text : String)
  | badTime (text : String)
  | badRotation (text : String)
  | badRetention (text : String)
deriving DecidableEq, Repr

namespace RotationError

def message : RotationError → String
  | .badSizeNumber text => s!"Invalid float value while parsing size: '{text}'"
  | .badDurationNumber text => s!"Invalid float value while parsing duration: '{text}'"
  | .badUnit text => s!"Invalid unit value while parsing duration: '{text}'"
  | .badDay text => s!"Invalid day while parsing daytime: '{text}'"
  | .badTime text => s!"Invalid time while parsing daytime: '{text}'"
  | .badRotation text => s!"Cannot parse rotation from: '{text}'"
  | .badRetention text => s!"Cannot parse retention from: '{text}'"

end RotationError

namespace Rotation

open Text

def isDecimal (c : Char) : Bool := (decimalDigit? c.toNat).isSome

/-- The characters that numbers are made of. -/
def isNumberChar (c : Char) : Bool :=
  isDecimal c || c = '.' || c = '+' || c = '-' || c = 'e' || c = 'E'

def isLetter (c : Char) : Bool := c.isAlpha

def isNumber (cs : List Char) : Bool := (readFloat? (cs.map Char.toNat)).isSome

/-! ### Sizes -/

/-- The unit of a size: a multiple, the mark of the binary ones, bits or bytes. -/
def isSizeUnit (cs : List Char) : Bool :=
  let afterMultiple := match cs with
    | c :: rest => if "kmgtpezy".toList.contains c then rest else cs
    | [] => []
  afterMultiple = ['b'] || afterMultiple = ['i', 'b']

/-- Whether a text says a size. -/
def saysSize (cs : List Char) : Except RotationError Bool :=
  let number := cs.takeWhile isNumberChar
  let unit := (cs.drop number.length).dropWhile isPadding
  if number.isEmpty || !isSizeUnit (unit.map Char.toLower) then .ok false
  else if isNumber number then .ok true
  else .error (.badSizeNumber (String.ofList number))

/-! ### Lengths of time -/

def units : List String :=
  ["y", "year", "years", "month", "months", "w", "week", "weeks", "d", "day", "days", "h", "hour",
   "hours", "min", "mins", "minute", "minutes", "s", "sec", "secs", "second", "seconds", "ms",
   "millisecond", "milliseconds", "us", "microsecond", "microseconds"]

/-- A number with its unit, and what follows them.  The letter `e` can be the end of a number or,
where no other unit follows, the unit. -/
def partOf? (cs : List Char) : Option ((List Char × List Char) × List Char) :=
  let number := cs.takeWhile isNumberChar
  let rest := cs.drop number.length
  let unit := (rest.dropWhile isPadding).takeWhile isLetter
  if number.isEmpty then none
  else if !unit.isEmpty then
    some ((number, unit), (rest.dropWhile isPadding).dropWhile isLetter)
  else
    match number.getLast? with
    | some last =>
      if isLetter last && 2 ≤ number.length then some ((number.dropLast, [last]), rest) else none
    | none => none

def isSeparator (c : Char) : Bool := isPadding c || c = ','

/-- The parts of a length of time, in at most so many steps. -/
def partsOf? : (steps : Nat) → List Char → Option (List (List Char × List Char))
  | 0, _ => none
  | steps + 1, cs => do
    let (part, rest) ← partOf? cs
    match rest.dropWhile isSeparator with
    | [] => return [part]
    | rest => return part :: (← partsOf? steps rest)

def checkPart (part : List Char × List Char) : Except RotationError Unit :=
  if !isNumber part.1 then .error (.badDurationNumber (String.ofList part.1))
  else if units.contains (String.ofList (part.2.map Char.toLower)) then .ok ()
  else .error (.badUnit (String.ofList part.2))

/-- Whether a text says a length of time.  Every part takes up a character at least. -/
def saysDuration (cs : List Char) : Except RotationError Bool :=
  match partsOf? (cs.length + 1) cs with
  | none => .ok false
  | some parts => do
    parts.forM checkPart
    return true

/-! ### Moments -/

def recurring : List String := ["hourly", "daily", "weekly", "monthly", "yearly"]

def weekdays : List String :=
  ["monday", "tuesday", "wednesday", "thursday", "friday", "saturday", "sunday"]

/-- Whether a text says a day of the week: by its name, or by its number after a `w`. -/
def saysDay (text : String) : Except RotationError Bool :=
  let word := lowercase (trim isPadding text)
  match word.toList with
  | 'w' :: digits =>
    if !digits.isEmpty && digits.all isDecimal then
      match readInt 10 (digits.map Char.toNat) with
      | .ok n => if n < 7 then .ok true else .error (.badDay text)
      | .error _ => .error (.badDay text)
    else .ok (weekdays.contains word)
  | _ => .ok (weekdays.contains word)

/-- A reader takes something off the front of a text. -/
abbrev Reader := List Char → Option (List Char)

/-- Two digits of which the first is given with what it allows for the second, or one digit. -/
def digits (firsts : List Char) (extra : Char → Char → Bool) (single : Char → Bool) : Reader
  | a :: b :: rest =>
    if (firsts.contains a && isDecimal b) || extra a b then some rest
    else if single a then some (b :: rest) else none
  | [a] => if single a then some [] else none
  | [] => none

def hour : Reader := digits ['0', '1'] (fun a b => a = '2' && '0' ≤ b && b ≤ '3') isDecimal

def minute : Reader := digits ['0', '1', '2', '3', '4', '5'] (fun _ _ => false) isDecimal

/-- An hour of the half day, from one to twelve. -/
def halfDayHour : Reader :=
  digits []
    (fun a b => (a = '1' && '0' ≤ b && b ≤ '2') || (a = '0' && '1' ≤ b && b ≤ '9'))
    fun a => '1' ≤ a && a ≤ '9'

/-- At most six digits. -/
def fraction : Reader := fun cs =>
  let digits := (cs.takeWhile Char.isDigit).take 6
  if digits.isEmpty then none else some (cs.drop digits.length)

def sign (c : Char) : Reader
  | a :: rest => if a = c then some rest else none
  | [] => none

def blanks : Reader
  | c :: rest => if isPadding c then some (rest.dropWhile isPadding) else none
  | [] => none

/-- The half of the day. -/
def halfDay : Reader
  | a :: b :: rest =>
    if (a.toLower = 'a' || a.toLower = 'p') && b.toLower = 'm' then some rest else none
  | _ => none

/-- The forms of a time of day. -/
def timeForms : List (List Reader) :=
  let colon := sign ':'
  let clock := [colon, minute, colon, minute]
  [[hour], [hour, colon, minute], [hour] ++ clock, [hour] ++ clock ++ [sign '.', fraction],
   [halfDayHour, blanks, halfDay], [halfDayHour, colon, minute, blanks, minute],
   [halfDayHour] ++ clock ++ [blanks, halfDay],
   [halfDayHour] ++ clock ++ [sign '.', fraction, blanks, halfDay]]

/-- A text has a form from one end to the other. -/
def hasForm (form : List Reader) (cs : List Char) : Bool :=
  form.foldlM (fun cs read => read cs) cs = some []

/-- A text looks like a time of day: digits and points, and perhaps a half of the day. -/
def looksLikeTime (cs : List Char) : Bool :=
  let isClock (c : Char) : Bool := isDecimal c || c = '.' || c = ':'
  let rest := (cs.dropWhile isClock).dropWhile isPadding
  (cs.head?.any isClock) && (rest.isEmpty || halfDay rest = some [])

/-- Whether a text says a time of day. -/
def saysTime (text : String) : Except RotationError Bool :=
  let cs := trimList isPadding text.toList
  if !looksLikeTime cs then .ok false
  else if timeForms.any (hasForm · cs) then .ok true
  else .error (.badTime text)

/-- The texts before and after the first `at` that stands by itself on a line. -/
def splitAt? (before : List Char) : List Char → Option (List Char × List Char)
  | [] => none
  | c :: rest =>
    let after := if isPadding c then rest.dropWhile isPadding else []
    match after with
    | a :: t :: d :: time =>
      if a.toLower = 'a' && t.toLower = 't' && isPadding d then
        some (before.reverse, time.dropWhile isPadding)
      else if c = '\n' then none else splitAt? (c :: before) rest
    | _ => if c = '\n' then none else splitAt? (c :: before) rest

/-- Whether a text says a moment of a day or of a week. -/
def saysMoment (text : String) : Except RotationError Bool :=
  match splitAt? [] text.toList with
  | none => do return (← saysDay text) || (← saysTime text)
  | some (day, time) => do
    let (day, time) := (String.ofList day, String.ofList time)
    if !(← saysDay day) then throw (.badDay day)
    if !(← saysTime time) then throw (.badTime time)
    return true

/-! ### Checks -/

/-- The string that a text is.  A text with a surrogate says nothing, whatever else is in it. -/
def words (fault : String → RotationError) : AnyText → Except RotationError String
  | .string s => .ok s
  | t => .error (fault (shown t))

/-- Looks whether a text says when a file is full. -/
def check (text : AnyText) : Except RotationError Unit := do
  let text ← words .badRotation text
  let trimmed := trim isPadding text
  if ← saysSize trimmed.toList then return
  if ← saysDuration trimmed.toList then return
  if recurring.contains (lowercase trimmed) then return
  if ← saysMoment trimmed then return
  throw (.badRotation text)

/-- Looks whether a text says how long files are kept. -/
def checkRetention (text : AnyText) : Except RotationError Unit := do
  let text ← words .badRetention text
  if ← saysDuration (trimList isPadding text.toList) then return
  throw (.badRetention text)

end Rotation

end RubyOutline
