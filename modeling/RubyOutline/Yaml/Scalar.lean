/-
RubyOutline/Yaml/Scalar.lean

The texts of YAML scalars: plain ones, quoted ones and block scalars.

In all of them line breaks are folded: a single one counts as a space, and of several in a row the
first says nothing.  A text is collected as code points, since an escape may name half of a
surrogate pair; two such halves stay two.
-/
import RubyOutline.Yaml.Cursor

namespace RubyOutline.Yaml

/-- What a line break and the breaks after it fold to. -/
def foldBreaks (first : Char) (more : List Char) : List Char :=
  if first != '\n' then first :: more
  else if more.isEmpty then [' ']
  else more

/-! ### Plain scalars -/

/-- A plain scalar ends before this character. -/
def endsPlain (inFlow : Bool) (c : Char) (rest : List Char) : Bool :=
  isGap c ||
    (c = ':' && (endsWord rest || (inFlow && rest.head?.any ",[]\x7b\x7d".toList.contains))) ||
    (inFlow && ",?[]\x7b\x7d".toList.contains c)

/-- The characters up to the end of a plain scalar's piece. -/
def plainPiece (inFlow : Bool) : List Char → List Char
  | [] => []
  | c :: rest => if endsPlain inFlow c rest then [] else c :: plainPiece inFlow rest

/-- Spaces and line breaks: the breaks, and the cursor after all of them.  There are none to fold
when a document marker follows a break. -/
def plainBreaks : (fuel : Nat) → Cursor → Option (List Char) × Cursor
  | 0, c => (some [], c)
  | fuel + 1, c =>
    if c.peek? = some ' ' then plainBreaks fuel c.advance
    else
      match c.lineBreak? with
      | none => (some [], c)
      | some (ch, c) =>
        if isDocumentMarker c.rest then (none, c)
        else
          let (more, c) := plainBreaks fuel c
          (more.map (ch :: ·), c)

/-- What stands between two pieces of a plain scalar. -/
structure PlainGap where
  text : List Char
  after : Cursor
  hasBreak : Bool

def plainGap (c : Cursor) : PlainGap :=
  let (spaces, c) := c.span (· = ' ')
  match c.lineBreak? with
  | none => ⟨spaces, c, false⟩
  | some (first, c) =>
    if isDocumentMarker c.rest then ⟨[], c, true⟩
    else
      match plainBreaks (c.rest.length + 1) c with
      | (some more, c) => ⟨foldBreaks first more, c, true⟩
      | (none, c) => ⟨[], c, true⟩

/-- The text of a plain scalar after a gap, the cursor after it, and whether a line break comes
last. -/
def plainFrom (inFlow : Bool) (indent : Int) : (fuel : Nat) → PlainGap → List Char × Cursor × Bool
  | 0, gap => ([], gap.after, gap.hasBreak)
  | fuel + 1, gap =>
    let c := gap.after
    let piece := if c.peek? = some '#' then [] else plainPiece inFlow c.rest
    if piece.isEmpty then ([], c, gap.hasBreak)
    else
      let next := plainGap (c.advanceBy piece.length)
      let goesOn := !next.text.isEmpty && (inFlow || indent ≤ next.after.column)
      let (rest, after, hasBreak) :=
        if goesOn then plainFrom inFlow indent fuel next else ([], next.after, next.hasBreak)
      (gap.text ++ piece ++ rest, after, hasBreak)

/-- A plain scalar. -/
def plainScalar (inFlow : Bool) (indent : Int) (c : Cursor) : Text.Codes × Cursor × Bool :=
  let (text, after, hasBreak) := plainFrom inFlow indent (c.rest.length + 1) ⟨[], c, false⟩
  (text.map Char.toNat, after, hasBreak)

/-! ### Quoted scalars -/

/-- The breaks of a quoted scalar's empty lines. -/
def quotedBreaks : (fuel : Nat) → Cursor → Except YamlError (List Char × Cursor)
  | 0, _ => .error .malformed
  | fuel + 1, c =>
    if isDocumentMarker c.rest then .error .malformed
    else
      let c := c.skipWhile fun ch => ch = ' ' || ch = '\t'
      match c.lineBreak? with
      | none => .ok ([], c)
      | some (ch, c) => do
        let (more, c) ← quotedBreaks fuel c
        return (ch :: more, c)

/-- The white space within a quoted scalar. -/
def quotedGap (c : Cursor) : Except YamlError (List Char × Cursor) :=
  let (spaces, c) := c.span fun ch => ch = ' ' || ch = '\t'
  match c.lineBreak? with
  | none => .ok (spaces, c)
  | some (first, c) => do
    let (more, c) ← quotedBreaks (c.rest.length + 1) c
    return (foldBreaks first more, c)

/-- What a one-letter escape stands for. -/
def escapes : List (Char × Char) :=
  [('0', '\x00'), ('a', '\x07'), ('b', '\x08'), ('t', '\t'), ('\t', '\t'), ('n', '\n'),
   ('v', '\x0b'), ('f', '\x0c'), ('r', '\r'), ('e', '\x1b'), (' ', ' '), ('"', '"'), ('\\', '\\'),
   ('/', '/'), ('N', '\u0085'), ('_', '\u00a0'), ('L', '\u2028'), ('P', '\u2029')]

/-- The number of hexadecimal digits after an escape's letter. -/
def escapeDigits : List (Char × Nat) := [('x', 2), ('u', 4), ('U', 8)]

/-- The code point of an escape. -/
def escapedCode (n : Nat) : Except YamlError Nat :=
  if n < 0x110000 then .ok n else .error (if n < 0x80000000 then .badCharacter else .hugeCharacter)

/-- An escape after its backslash: the code points it stands for, and the cursor after it. -/
def escape (c : Cursor) : Except YamlError (Text.Codes × Cursor) :=
  match c.peek? with
  | none => .error .malformed
  | some ch =>
    match escapes.lookup ch, escapeDigits.lookup ch with
    | some found, _ => .ok ([found.toNat], c.advance)
    | none, some count =>
      let digits := (c.rest.drop 1).take count
      if digits.length < count then .error .malformed
      else
        match Value.ofHex? digits with
        | none => .error .malformed
        | some n => do return ([← escapedCode n], c.advanceBy (count + 1))
    | none, none =>
      -- an escaped line break is none, but those of empty lines after it are
      match c.lineBreak? with
      | none => .error .malformed
      | some (_, c) => do
        let (breaks, c) ← quotedBreaks (c.rest.length + 1) c
        return (breaks.map Char.toNat, c)

/-- The next piece of a quoted scalar: the code points it stands for, and the cursor after it.  At
the closing quote there is none. -/
def quotedPiece (quote : Char) (c : Cursor) : Except YamlError (Option (Text.Codes × Cursor)) :=
  match c.rest with
  | [] => .error .malformed
  | ch :: rest =>
    if ch = quote then
      -- two single quotes are one that does not end the scalar
      if quote = '\'' && rest.head? = some '\'' then .ok (some (['\''.toNat], c.advanceBy 2))
      else .ok none
    else if quote = '"' && ch = '\\' then some <$> escape c.advance
    else if isGap ch then (quotedGap c).map fun (text, c) => some (text.map Char.toNat, c)
    else .ok (some ([ch.toNat], c.advance))

/-- The rest of a quoted scalar after its opening quote. -/
def quotedFrom (quote : Char) : (fuel : Nat) → Cursor → Except YamlError (Text.Codes × Cursor)
  | 0, _ => .error .malformed
  | fuel + 1, c => do
    match ← quotedPiece quote c with
    | none => return ([], c.advance)
    | some (codes, c) =>
      let (rest, c) ← quotedFrom quote fuel c
      return (codes ++ rest, c)

/-- A quoted scalar. -/
def quotedScalar (quote : Char) (c : Cursor) : Except YamlError (Text.Codes × Cursor) :=
  quotedFrom quote (c.rest.length + 1) c.advance

/-! ### Block scalars -/

/-- What becomes of the line breaks at the end of a block scalar. -/
inductive Chomping
  | clip
  | strip
  | keep
deriving DecidableEq, Repr

def chomping? : Char → Option Chomping
  | '+' => some .keep
  | '-' => some .strip
  | _ => none

/-- The indicators after `|` or `>`: an indentation and a chomping, in any order. -/
def blockIndicators (c : Cursor) :
    Except YamlError (Option Nat × Chomping × Cursor) := do
  let (chomp, c) := chompAt c
  let (indent, c) ← digitAt c
  let (chomp, c) := if chomp.isSome then (chomp, c) else chompAt c
  if c.peek? = some ' ' || endsLine c.rest then return (indent, chomp.getD .clip, c)
  throw .malformed
where
  chompAt (c : Cursor) : Option Chomping × Cursor :=
    match c.peek?.bind chomping? with
    | some chomp => (some chomp, c.advance)
    | none => (none, c)
  digitAt (c : Cursor) : Except YamlError (Option Nat × Cursor) :=
    match c.peek? with
    | some d =>
      if d = '0' then .error .malformed
      else if d.isDigit then .ok (some (d.toNat - 48), c.advance)
      else .ok (none, c)
    | none => .ok (none, c)

/-- What may stand at the end of a line that says no more: spaces and a comment. -/
def restOfLine (c : Cursor) : Except YamlError Cursor :=
  let c := c.skipWhile (· = ' ')
  let c := if c.peek? = some '#' then c.skipWhile fun ch => !isBreak ch else c
  if endsLine c.rest then .ok c.skipBreak else .error .malformed

/-- The empty lines in front of a block scalar: their breaks, the greatest column reached, and the
cursor after them. -/
def leadingLines : (fuel : Nat) → (column : Nat) → Cursor → List Char × Nat × Cursor
  | 0, column, c => ([], column, c)
  | fuel + 1, column, c =>
    if c.peek? = some ' ' then
      leadingLines fuel (max column c.advance.column) c.advance
    else
      match c.lineBreak? with
      | none => ([], column, c)
      | some (ch, c) =>
        let (more, column, c) := leadingLines fuel column c
        (ch :: more, column, c)

/-- Up to `indent` columns of spaces. -/
def skipIndent (indent : Nat) (c : Cursor) : Cursor :=
  c.advanceBy (min (indent - c.column) (c.rest.takeWhile (· = ' ')).length)

/-- The breaks of empty lines within a block scalar. -/
def emptyLines (indent : Nat) : (fuel : Nat) → Cursor → List Char × Cursor
  | 0, c => ([], c)
  | fuel + 1, c =>
    let c := skipIndent indent c
    match c.lineBreak? with
    | none => ([], c)
    | some (ch, c) =>
      let (more, c) := emptyLines indent fuel c
      (ch :: more, c)

def startsBlank (c : Cursor) : Bool := c.peek?.any fun ch => ch = ' ' || ch = '\t'

/-- The lines of a block scalar, after the breaks in front of them. -/
def blockLines (folded : Bool) (indent : Nat) (chomp : Chomping) :
    (fuel : Nat) → (breaks : List Char) → Cursor → List Char × Cursor
  | 0, _, c => ([], c)
  | fuel + 1, breaks, c =>
    let (line, after) := c.span fun ch => !isBreak ch
    let end? := after.lineBreak?
    let lineEnd := (end?.map fun (ch, _) => [ch]).getD []
    let (next, c') := emptyLines indent (after.rest.length + 1) after.skipBreak
    let text := breaks ++ line
    if c'.column = indent && !c'.rest.isEmpty then
      let joint :=
        if folded && lineEnd == ['\n'] && !startsBlank c && !startsBlank c' then
          if next.isEmpty then [' '] else []
        else lineEnd
      let (rest, last) := blockLines folded indent chomp fuel next c'
      (text ++ joint ++ rest, last)
    else
      let ending := match chomp with
        | .strip => []
        | .clip => lineEnd
        | .keep => lineEnd ++ next
      (text ++ ending, c')

/-- A block scalar, in a block that is indented to `indent`. -/
def blockScalar (indent : Int) (c : Cursor) : Except YamlError (Text.Codes × Cursor) := do
  let folded := c.peek? = some '>'
  let (increment, chomp, c) ← blockIndicators c.advance
  let c ← restOfLine c
  let least := (max (indent + 1) 1).toNat
  let (breaks, column, c) := match increment with
    | none =>
      let (breaks, column, c) := leadingLines (c.rest.length + 1) 0 c
      (breaks, max least column, c)
    | some n =>
      let (breaks, c) := emptyLines (least + n - 1) (c.rest.length + 1) c
      (breaks, least + n - 1, c)
  if c.column = column && !c.rest.isEmpty then
    let (text, c) := blockLines folded column chomp (c.rest.length + 1) breaks c
    return (text.map Char.toNat, c)
  let ending := if chomp = .keep then breaks else []
  return (ending.map Char.toNat, c)

end RubyOutline.Yaml
