/-
RubyOutline/Yaml/Token.lean

The tokens of a YAML text.

Indentation becomes tokens of its own: a block opens with `blockSequenceStart` or
`blockMappingStart` and closes with `blockEnd`.  A key of a mapping need not announce itself; it is
known as one only when its colon comes.  So wherever a key may stand, the scanner leaves an open
place in the list of tokens and remembers it (`KeyPlace`), and the colon fills that place later.
A place stays open on its own line and for 1024 characters.

A text is read no further than its first fault.  The tokens in front of it are still there to be
read, up to the first place that is open: what stands after that place has not been settled.
-/
import RubyOutline.Text.Utf8
import RubyOutline.Yaml.Scalar

namespace RubyOutline.Yaml

/-- A tag as it is written: a handle, if it has one, and what follows it. -/
structure Tag where
  handle : Option String
  suffix : String
deriving DecidableEq, Repr

inductive Directive
  | version (major : Nat)
  | tagHandle (handle expansion : String)
  | other
deriving DecidableEq, Repr

inductive Token
  | directive (d : Directive)
  | documentStart
  | documentEnd
  | blockSequenceStart
  | blockMappingStart
  | blockEnd
  | sequenceStart
  | sequenceEnd
  | mappingStart
  | mappingEnd
  | blockEntry
  | flowEntry
  | key
  | value
  | alias (name : String)
  | anchor (name : String)
  | tag (t : Tag)
  | scalar (text : Text.Codes) (plain : Bool)
deriving DecidableEq, Repr

/-- An open place for a key. -/
structure KeyPlace where
  slot : Nat
  required : Bool
  index : Nat
  line : Nat
  column : Nat
deriving Repr

structure Scanner where
  cursor : Cursor
  /-- The tokens so far, each open place for a key having a slot of its own. -/
  slots : Array (List Token) := #[]
  /-- The depth of flow brackets. -/
  flow : Nat := 0
  indent : Int := -1
  /-- The indentations of the enclosing blocks, innermost first. -/
  outer : List Int := []
  keyAllowed : Bool := true
  /-- The open places, each with its depth of flow brackets. -/
  places : List (Nat × KeyPlace) := []

namespace Scanner

def rest (s : Scanner) : List Char := s.cursor.rest

def push (s : Scanner) (t : Token) : Scanner := { s with slots := s.slots.push [t] }

/-- A token of so many characters. -/
def pushAt (s : Scanner) (t : Token) (length : Nat) : Scanner :=
  { s.push t with cursor := s.cursor.advanceBy length }

/-! ### Places for keys -/

/-- Gives up the open place at the present depth. -/
def dropPlace (s : Scanner) : Except YamlError Scanner :=
  match s.places.lookup s.flow with
  | none => .ok s
  | some place =>
    if place.required then .error .malformed
    else .ok { s with places := s.places.filter (·.1 != s.flow) }

/-- Opens a place for a key, if a key may stand here. -/
def openPlace (s : Scanner) : Except YamlError Scanner :=
  if s.keyAllowed then do
    let s ← s.dropPlace
    let c := s.cursor
    -- what begins a line of a block mapping has to turn out a key
    let required := s.flow = 0 && s.indent = c.column
    let place : KeyPlace := ⟨s.slots.size, required, c.index, c.line, c.column⟩
    return { s with places := (s.flow, place) :: s.places, slots := s.slots.push [] }
  else .ok s

/-- A place is stale on another line or far behind. -/
def isStale (c : Cursor) (place : KeyPlace) : Bool :=
  place.line != c.line || 1024 < c.index - place.index

/-- Gives up all stale places. -/
def dropStale (s : Scanner) : Except YamlError Scanner :=
  if s.places.any fun (_, place) => isStale s.cursor place && place.required then
    .error .malformed
  else .ok { s with places := s.places.filter fun (_, place) => !isStale s.cursor place }

/-! ### Indentation -/

/-- Closes the blocks that are indented further than a column. -/
def closeBlocks (s : Scanner) (column : Int) : Scanner :=
  if s.flow != 0 then s
  else go s.outer s
where
  go : List Int → Scanner → Scanner
    | [], s => s
    | indent :: outer, s =>
      if column < s.indent then go outer { s.push .blockEnd with indent, outer } else s

/-- Opens a block at a column, if it is indented further than the present one. -/
def indentTo (s : Scanner) (column : Nat) : Bool × Scanner :=
  if s.indent < column then
    (true, { s with indent := column, outer := s.indent :: s.outer })
  else (false, s)

/-- Opens a block at the cursor with its first token, if it is indented further. -/
def openBlock (s : Scanner) (start : Token) : Scanner :=
  match s.indentTo s.cursor.column with
  | (true, s) => s.push start
  | (false, s) => s

/-! ### Between tokens -/

/-- Skips spaces, comments and line breaks.  After a line break a key may stand. -/
def skipToToken : (fuel : Nat) → Scanner → Scanner
  | 0, s => s
  | fuel + 1, s =>
    let c := s.cursor.skipWhile (· = ' ')
    let c := if c.peek? = some '#' then c.skipWhile fun ch => !isBreak ch else c
    match c.lineBreak? with
    | none => { s with cursor := c }
    | some (_, c) =>
      skipToToken fuel { s with cursor := c, keyAllowed := s.keyAllowed || s.flow = 0 }

/-! ### Names, tags and directives -/

/-- A character of an anchor, a directive or a tag handle. -/
def isWordChar (c : Char) : Bool := c.isAlphanum || c = '-' || c = '_'

/-- The name after `*` or `&`, and the cursor after it. -/
def anchorName (c : Cursor) : Except YamlError (String × Cursor) :=
  let (name, c) := c.advance.span isWordChar
  if name.isEmpty then .error .malformed
  else if endsWord c.rest || c.rest.head?.any "?:,]\x7d%@\x60".toList.contains then
    .ok (String.ofList name, c)
  else .error .malformed

/-- The characters of a tag other than escaped bytes. -/
def isTagChar (c : Char) : Bool :=
  c.isAlphanum || "-;/?:@&=+$,_.!~*'()[]".toList.contains c

/-- The rest of a tag, with its escaped bytes. -/
def tagBytes : (fuel : Nat) → Cursor → Except YamlError (List UInt8 × Cursor)
  | 0, _ => .error .malformed
  | fuel + 1, c =>
    match c.rest with
    | '%' :: a :: b :: _ =>
      match Value.ofHex? [a, b] with
      | none => .error .malformed
      | some n => do
        let (more, c) ← tagBytes fuel (c.advanceBy 3)
        return (n.toUInt8 :: more, c)
    | ch :: _ =>
      if isTagChar ch then do
        let (more, c) ← tagBytes fuel c.advance
        return (Utf8.encode (String.singleton ch) ++ more, c)
      else .ok ([], c)
    | [] => .ok ([], c)

def tagSuffix (c : Cursor) : Except YamlError (String × Cursor) := do
  let (bytes, c) ← tagBytes (c.rest.length + 1) c
  match String.fromUTF8? bytes.toByteArray with
  | some suffix => if suffix = "" then throw .malformed else return (suffix, c)
  | none => throw .malformed

/-- A tag handle: one exclamation mark, or two with a word between them. -/
def tagHandle (c : Cursor) : Except YamlError (String × Cursor) :=
  if c.peek? != some '!' then .error .malformed
  else
    let (word, after) := c.advance.span isWordChar
    if after.peek? = some '!' then .ok ("!" ++ String.ofList word ++ "!", after.advance)
    else if word.isEmpty && after.peek? = some ' ' then .ok ("!", after)
    else .error .malformed

/-- A tag. -/
def readTag (c : Cursor) : Except YamlError (Tag × Cursor) := do
  let (tag, c) ← match c.rest.drop 1 with
    | '<' :: _ => do
      -- written out in full
      let (suffix, c) ← tagSuffix (c.advanceBy 2)
      if c.peek? != some '>' then throw .malformed
      pure (⟨none, suffix⟩, c.advance)
    | rest =>
      if endsWord rest then pure (⟨none, "!"⟩, c.advance)
      else if (rest.takeWhile fun ch => ch != ' ' && !isBreak ch).contains '!' then do
        let (handle, c) ← tagHandle c
        let (suffix, c) ← tagSuffix c
        pure (⟨some handle, suffix⟩, c)
      else do
        let (suffix, c) ← tagSuffix c.advance
        pure (⟨some "!", suffix⟩, c)
  if c.peek? = some ' ' || endsLine c.rest then return (tag, c)
  throw .malformed

/-- A number of a version. -/
def versionNumber (c : Cursor) : Except YamlError (Nat × Cursor) :=
  let (digits, c) := c.span Char.isDigit
  if digits.isEmpty then .error .malformed else .ok (Value.ofDigits digits, c)

/-- A directive after its percent sign. -/
def readDirective (c : Cursor) : Except YamlError (Directive × Cursor) := do
  let (name, c) := c.span isWordChar
  if name.isEmpty || !(c.peek? = some ' ' || endsLine c.rest) then throw .malformed
  let spaces (c : Cursor) := c.skipWhile (· = ' ')
  let (directive, c) ← match String.ofList name with
    | "YAML" => do
      let (major, c) ← versionNumber (spaces c)
      if c.peek? != some '.' then throw .malformed
      let (_, c) ← versionNumber c.advance
      if !(c.peek? = some ' ' || endsLine c.rest) then throw .malformed
      pure (Directive.version major, c)
    | "TAG" => do
      let (handle, c) ← tagHandle (spaces c)
      if c.peek? != some ' ' then throw .malformed
      let (expansion, c) ← tagSuffix (spaces c)
      if !(c.peek? = some ' ' || endsLine c.rest) then throw .malformed
      pure (Directive.tagHandle handle expansion, c)
    | _ => pure (Directive.other, c.skipWhile fun ch => !isBreak ch)
  return (directive, ← restOfLine c)

/-! ### Tokens -/

/-- Ends whatever is open before a line that belongs to the stream and not to a document. -/
def endBlocks (s : Scanner) : Except YamlError Scanner := do
  let s ← (s.closeBlocks (-1)).dropPlace
  return { s with keyAllowed := false }

/-- An opening bracket. -/
def openFlow (s : Scanner) (t : Token) : Except YamlError Scanner := do
  let s ← s.openPlace
  return { s.pushAt t 1 with flow := s.flow + 1, keyAllowed := true }

/-- A closing bracket. -/
def closeFlow (s : Scanner) (t : Token) : Except YamlError Scanner := do
  let s ← s.dropPlace
  if s.flow = 0 then throw .malformed
  return { s.pushAt t 1 with flow := s.flow - 1, keyAllowed := false }

/-- A comma between brackets. -/
def separate (s : Scanner) : Except YamlError Scanner := do
  let s ← s.dropPlace
  return { s.pushAt .flowEntry 1 with keyAllowed := true }

/-- A hyphen in front of an entry of a block sequence. -/
def startEntry (s : Scanner) : Except YamlError Scanner := do
  if s.flow = 0 && !s.keyAllowed then throw .malformed
  let s := if s.flow = 0 then s.openBlock .blockSequenceStart else s
  let s ← s.dropPlace
  return { s.pushAt .blockEntry 1 with keyAllowed := true }

/-- A question mark in front of a key. -/
def startKey (s : Scanner) : Except YamlError Scanner := do
  if s.flow = 0 && !s.keyAllowed then throw .malformed
  let s := if s.flow = 0 then s.openBlock .blockMappingStart else s
  let s ← s.dropPlace
  return { s.pushAt .key 1 with keyAllowed := s.flow = 0 }

/-- A colon after a key. -/
def startValue (s : Scanner) : Except YamlError Scanner := do
  match s.places.lookup s.flow with
  | some place =>
    -- the colon makes a key of what stands at the place, and perhaps a mapping begins with it
    let s := { s with places := s.places.filter (·.1 != s.flow), keyAllowed := false }
    let (opens, s) := if s.flow = 0 then s.indentTo place.column else (false, s)
    let tokens := if opens then [.blockMappingStart, .key] else [.key]
    return pushAt { s with slots := s.slots.setIfInBounds place.slot tokens } .value 1
  | none =>
    -- a value whose key is empty, or was announced by a question mark
    if s.flow = 0 && !s.keyAllowed then throw .malformed
    let s := if s.flow = 0 then s.openBlock .blockMappingStart else s
    return { s.pushAt .value 1 with keyAllowed := s.flow = 0 }

/-- A token that can be a key, and whether another key may stand after it. -/
def atom (s : Scanner) (read : Cursor → Except YamlError (Token × Cursor × Bool)) :
    Except YamlError Scanner := do
  let s ← s.openPlace
  let (t, cursor, keyAllowed) ← read s.cursor
  return { s.push t with cursor, keyAllowed }

/-- A block scalar, which is never a key. -/
def blockText (s : Scanner) : Except YamlError Scanner := do
  let s ← s.dropPlace
  let (text, cursor) ← blockScalar s.indent s.cursor
  return { s.push (.scalar text false) with cursor, keyAllowed := true }

/-- A plain scalar begins here. -/
def startsPlain (inFlow : Bool) (c : Char) (rest : List Char) : Bool :=
  !(isGap c || "-?:,[]\x7b\x7d#&*!|>'\"%@\x60".toList.contains c) ||
    (!endsWord rest && (c = '-' || (!inFlow && (c = '?' || c = ':'))))

/-- The token that begins at the cursor. -/
def token (s : Scanner) (c : Char) (rest : List Char) : Except YamlError Scanner :=
  let inFlow := s.flow != 0
  let atStart := s.cursor.column = 0
  -- signs that are plain text elsewhere come before plain scalars, and only where they are signs
  if c = '%' && atStart then do
    let s ← s.endBlocks
    let (d, cursor) ← readDirective s.cursor.advance
    return { s.push (.directive d) with cursor }
  else if atStart && isDocumentMarker (c :: rest) then do
    let s ← s.endBlocks
    return s.pushAt (if c = '-' then .documentStart else .documentEnd) 3
  else if c = '[' then s.openFlow .sequenceStart
  else if c = '\x7b' then s.openFlow .mappingStart
  else if c = ']' then s.closeFlow .sequenceEnd
  else if c = '\x7d' then s.closeFlow .mappingEnd
  else if c = ',' then s.separate
  else if c = '-' && endsWord rest then s.startEntry
  else if c = '?' && (inFlow || endsWord rest) then s.startKey
  else if c = ':' && (inFlow || endsWord rest) then s.startValue
  else if c = '*' then s.atom fun c => do
    let (name, c) ← anchorName c
    return (.alias name, c, false)
  else if c = '&' then s.atom fun c => do
    let (name, c) ← anchorName c
    return (.anchor name, c, false)
  else if c = '!' then s.atom fun c => do
    let (t, c) ← readTag c
    return (.tag t, c, false)
  else if (c = '|' || c = '>') && !inFlow then s.blockText
  else if c = '\'' || c = '"' then s.atom fun cursor => do
    let (text, cursor) ← quotedScalar c cursor
    return (.scalar text false, cursor, false)
  else if startsPlain inFlow c rest then s.atom fun c =>
    let (text, c, hasBreak) := plainScalar inFlow (s.indent + 1) c
    .ok (.scalar text true, c, hasBreak)
  else .error .malformed

/-- The next token and what is closed before it.  The answer is `false` at the end of the text. -/
def step (s : Scanner) : Except YamlError (Bool × Scanner) := do
  let s ← (s.skipToToken (s.rest.length + 1)).dropStale
  let s := s.closeBlocks s.cursor.column
  match s.rest with
  | [] => return (false, ← s.endBlocks)
  | c :: rest => return (true, ← s.token c rest)

/-- The tokens that do not depend on what is read later. -/
def settled (s : Scanner) : List Token :=
  let pending := s.places.filter fun (_, place) => !isStale s.cursor place
  (s.slots.toList.take (pending.foldl (fun n (_, place) => min n place.slot) s.slots.size)).flatten

end Scanner

/-- The tokens of a text, up to a fault if there is one. -/
structure TokenStream where
  tokens : List Token
  fault : Option YamlError := none
deriving Repr

namespace TokenStream

/-- All tokens from where a scanner stands. -/
def ofScanner : (fuel : Nat) → Scanner → TokenStream
  | 0, s => ⟨s.settled, some .malformed⟩
  | fuel + 1, s =>
    match s.step with
    | .error e => ⟨s.settled, some e⟩
    | .ok (true, s) => ofScanner fuel s
    | .ok (false, s) => ⟨s.slots.toList.flatten, none⟩

end TokenStream


/-- The characters a YAML text may hold. -/
def isPrintable (c : Char) : Bool :=
  let n := c.toNat
  n = 0x09 || n = 0x0A || n = 0x0D || (0x20 ≤ n && n ≤ 0x7E) || n = 0x85 ||
    (0xA0 ≤ n && n ≤ 0xFFFD) || 0x10000 ≤ n

/-- The tokens of a text.  A byte order mark in front is passed over. -/
def TokenStream.ofText (text : List Char) : TokenStream :=
  let start : Cursor := { rest := text }
  let cursor := if start.peek? = some '\uFEFF' then start.advance else start
  if text.all isPrintable then .ofScanner (text.length + 2) { cursor } else ⟨[], some .malformed⟩

end RubyOutline.Yaml
