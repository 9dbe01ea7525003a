/-
RubyOutline/Text/Template.lean

Texts with fields to be filled in.  A field stands in braces and has a name, perhaps a conversion
after an exclamation mark and perhaps a format after a colon, which can have fields of its own; a
brace that is meant as one is written twice.  There is one field, the time.

`Template.pieces` tells text from fields and does not look into the fields.  `Template.fill` puts
the time in their place.
-/
import RubyOutline.Text.Numeral

namespace RubyOutline.Text

/-- Why a template cannot be filled in. -/
inductive TemplateError
  | lonelyBrace (brace : Char)
  | braceInName
  | unclosedField
  | unclosedFormat
  | missingConversion
  | longConversion
  | badConversion (letter : Char)
  | positionalField
  | hugePosition
  | emptyPart
  | noPart (name : String)
  | noItems
  | tooDeep
  | unknownField (name : String)
deriving DecidableEq, Repr

/-- The letter of a conversion, or its code point where it is no ASCII letter or sign. -/
def TemplateError.letterText (c : Char) : String :=
  if 32 < c.toNat && c.toNat < 127 then String.ofList [c]
  else "\\x" ++ String.ofList (Nat.toDigits 16 c.toNat)

def TemplateError.message : TemplateError → String
  | .lonelyBrace brace => s!"Single '{brace}' encountered in format string"
  | .braceInName => "unexpected '\x7b' in field name"
  | .unclosedField => "expected '\x7d' before end of string"
  | .unclosedFormat => "unmatched '\x7b' in format spec"
  | .missingConversion => "end of string while looking for conversion specifier"
  | .longConversion => "expected ':' after conversion specifier"
  | .badConversion letter => "Unknown conversion specifier " ++ letterText letter
  | .positionalField => "Format string contains positional fields"
  | .hugePosition => "Too many decimal digits in format string"
  | .emptyPart => "Empty attribute in format string"
  | .noPart name => s!"The time has no part {name}"
  | .noItems => "The time has no items"
  | .tooDeep => "Max string recursion exceeded"
  | .unknownField name => s!"There is no field {name}"

namespace Template

/-- A field as it is written. -/
structure Field where
  name : List Char
  conversion : Option Char := none
  format : List Char := []
deriving DecidableEq, Repr

inductive Piece
  | text (cs : List Char)
  | field (field : Field)
deriving DecidableEq, Repr

/-! ### Reading -/

/-- The name of a field, the character that ends it and what follows.  What stands in brackets
belongs to the name, whatever it is. -/
def nameOf (inBrackets : Bool) :
    List Char → Except TemplateError (List Char × Char × List Char)
  | [] => .error .unclosedField
  | c :: rest =>
    if inBrackets then do
      let (name, stop, rest) ← nameOf (c != ']') rest
      return (c :: name, stop, rest)
    else if c = '\x7b' then .error .braceInName
    else if c = '\x7d' || c = ':' || c = '!' then .ok ([], c, rest)
    else do
      let (name, stop, rest) ← nameOf (c = '[') rest
      return (c :: name, stop, rest)

/-- The format of a field and what follows the brace that closes the field, the format's own
braces being closed first. -/
def formatOf (depth : Nat) : List Char → Except TemplateError (List Char × List Char)
  | [] => .error .unclosedFormat
  | c :: rest =>
    if c = '\x7d' && depth = 0 then .ok ([], rest)
    else do
      let depth := if c = '\x7b' then depth + 1 else if c = '\x7d' then depth - 1 else depth
      let (format, rest) ← formatOf depth rest
      return (c :: format, rest)

/-- The field after an opening brace, and what follows it. -/
def fieldOf (cs : List Char) : Except TemplateError (Field × List Char) := do
  let (name, stop, rest) ← nameOf false cs
  if stop = '\x7d' then return ({ name }, rest)
  else if stop = ':' then
    let (format, rest) ← formatOf 0 rest
    return ({ name, format }, rest)
  else
    match rest with
    | [] => throw .missingConversion
    | [_] => throw .unclosedFormat
    | c :: '\x7d' :: rest => return ({ name, conversion := some c }, rest)
    | c :: ':' :: rest =>
      let (format, rest) ← formatOf 0 rest
      return ({ name, conversion := some c, format }, rest)
    | _ => throw .longConversion

theorem length_of_nameOf {b : Bool} {cs : List Char} {r : List Char × Char × List Char}
    (h : nameOf b cs = .ok r) : r.2.2.length < cs.length := by
  induction cs generalizing b r with
  | nil => simp [nameOf] at h
  | cons c cs ih =>
    unfold nameOf at h
    split at h
    · cases hn : nameOf (c != ']') cs with
      | error e => simp [hn, bind, Except.bind] at h
      | ok s =>
        obtain ⟨name, stop, rest⟩ := s
        have := ih hn
        simp only [hn, bind, Except.bind, pure, Except.pure, Except.ok.injEq] at h
        subst h
        simp only [List.length_cons] at this ⊢
        omega
    · split at h
      · cases h
      · split at h
        · cases h
          simp
        · cases hn : nameOf (c = '[') cs with
          | error e => simp [hn, bind, Except.bind] at h
          | ok s =>
            obtain ⟨name, stop, rest⟩ := s
            have := ih hn
            simp only [hn, bind, Except.bind, pure, Except.pure, Except.ok.injEq] at h
            subst h
            simp only [List.length_cons] at this ⊢
            omega

theorem length_of_formatOf {depth : Nat} {cs : List Char} {r : List Char × List Char}
    (h : formatOf depth cs = .ok r) : r.2.length < cs.length := by
  induction cs generalizing depth r with
  | nil => simp [formatOf] at h
  | cons c cs ih =>
    unfold formatOf at h
    split at h
    · cases h
      simp
    · simp only [bind, Except.bind, pure, Except.pure] at h
      split at h
      · cases h
      · rename_i s hs
        have := ih hs
        cases h
        simp only [List.length_cons]
        omega

theorem length_of_fieldOf {cs : List Char} {r : Field × List Char} (h : fieldOf cs = .ok r) :
    r.2.length < cs.length := by
  unfold fieldOf at h
  cases hn : nameOf false cs with
  | error e => simp [hn, bind, Except.bind] at h
  | ok s =>
    obtain ⟨name, stop, rest⟩ := s
    have hlen := length_of_nameOf hn
    simp only [hn, bind, Except.bind, pure, Except.pure] at h hlen
    split at h
    · -- the name alone
      cases h
      exact hlen
    · split at h
      · -- a format
        split at h
        · cases h
        · rename_i hf
          have := length_of_formatOf hf
          cases h
          simp only at this ⊢
          omega
      · -- a conversion, and perhaps a format after it
        split at h
        · cases h
        · cases h
        · cases h
          simp only [List.length_cons] at hlen ⊢
          omega
        · split at h
          · cases h
          · rename_i hf
            have := length_of_formatOf hf
            cases h
            simp only [List.length_cons] at this hlen ⊢
            omega
        · cases h

/-- The pieces of a template, and the fault that ends them. -/
def pieces (cs : List Char) : List Piece × Option TemplateError :=
  match cs with
  | [] => ([], none)
  | c :: rest =>
    if c = '\x7b' || c = '\x7d' then
      match rest with
      | [] => ([], some (.lonelyBrace c))
      | d :: after =>
        if d = c then
          let (found, fault) := pieces after
          (.text [c] :: found, fault)
        else if c = '\x7d' then ([], some (.lonelyBrace c))
        else
          match _h : fieldOf (d :: after) with
          | .error e => ([], some e)
          | .ok (field, rest) =>
            let (found, fault) := pieces rest
            (.field field :: found, fault)
    else
      let (found, fault) := pieces rest
      (.text [c] :: found, fault)
termination_by cs.length
decreasing_by
  · simp only [List.length_cons]; omega
  · have := length_of_fieldOf _h
    simp only [List.length_cons] at this ⊢
    omega
  · simp

/-- Looks whether a template is well written, its fields aside. -/
def check (text : String) : Except TemplateError Unit :=
  match (pieces text.toList).2 with
  | some e => .error e
  | none => .ok ()

/-! ### Filling in -/

/-- The greatest number of a field. -/
def greatestPosition : Nat := Nat.pow 2 63 - 1

/-- The number that a name writes in digits. -/
def position? (name : List Char) : Option Nat :=
  if name.isEmpty then none
  else name.foldlM (fun n c => (decimalDigit? c.toNat).map (10 * n + ·)) 0

/-- Why the part of the time that a name asks for is not there. -/
def partError (rest : List Char) : TemplateError :=
  match rest with
  | '[' :: rest =>
    let name := rest.takeWhile (· != ']')
    if name.isEmpty then .emptyPart
    else if (position? name).any (greatestPosition < ·) then .hugePosition
    else .noItems
  | _ =>
    let name := (rest.drop 1).takeWhile fun c => c != '.' && c != '['
    if name.isEmpty then .emptyPart else .noPart (String.ofList name)

/-- Looks whether a name names the time, without asking for a part of it. -/
def checkName (name : List Char) : Except TemplateError Unit :=
  let first := name.takeWhile fun c => c != '.' && c != '['
  let rest := name.drop first.length
  match position? first with
  | some n => .error (if greatestPosition < n then .hugePosition else .positionalField)
  | none =>
    if first.isEmpty then .error .positionalField
    else if first != ['t', 'i', 'm', 'e'] then .error (.unknownField (String.ofList first))
    else if rest.isEmpty then .ok ()
    else .error (partError rest)

def checkConversion : Option Char → Except TemplateError Unit
  | none => .ok ()
  | some c => if "rsa".toList.contains c then .ok () else .error (.badConversion c)

/-- A template with the time in the place of its fields, in formats that can be nested to some
depth. -/
def fillTo (time : String → String) : (depth : Nat) → List Char → Except TemplateError (List Char)
  | 0, _ => .error .tooDeep
  | depth + 1, cs => do
    let (found, fault) := pieces cs
    let filled ← found.mapM fun
      | .text cs => .ok cs
      | .field field => do
        checkName field.name
        checkConversion field.conversion
        let format ← if field.format.contains '\x7b' then fillTo time depth field.format
          else .ok field.format
        return (time (String.ofList format)).toList
    match fault with
    | some e => throw e
    | none => return filled.flatten

/-- A template with the time in the place of its fields.  The time is given by its format. -/
def fill (time : String → String) (text : String) : Except TemplateError String :=
  String.ofList <$> fillTo time 2 text.toList

end Template

end RubyOutline.Text
