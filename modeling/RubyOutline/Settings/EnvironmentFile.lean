/-
RubyOutline/Settings/EnvironmentFile.lean

Environment variables as a file lists them: a name, an equals sign and a value on each line, maybe
with `export` in front and a comment at the end.  A value in quotes may go over several lines, and
a backslash escapes in it.  A line of another form is passed over, and so is a name without a
value.
-/
import RubyOutline.Settings.Environment

namespace RubyOutline.EnvironmentFile

def isLineEnd (c : Char) : Bool := c = '\n' || c = '\r'

/-- White space within a line. -/
def isGap (c : Char) : Bool := Text.isPadding c && !isLineEnd c

/-- What one line says, and what follows it. -/
structure Line where
  binding : Option (String × String)
  rest : List Char

/-- What follows the rest of a line. -/
def afterLine (cs : List Char) : List Char :=
  match cs.dropWhile fun c => !isLineEnd c with
  | '\r' :: '\n' :: rest => rest
  | _ :: rest => rest
  | [] => []

/-- What follows `export` at the front of a line, if that is there. -/
def afterExport (cs : List Char) : List Char :=
  let word := "export".toList
  let rest := cs.drop word.length
  if word.isPrefixOf cs && rest.head?.any isGap then rest.dropWhile isGap else cs

/-- The name at the front of a line, in single quotes or not, and what follows it. -/
def readName? (cs : List Char) : Option (List Char × List Char) :=
  let found := match cs with
    | '\'' :: quoted =>
      match quoted.dropWhile (· != '\'') with
      | _ :: rest => (quoted.takeWhile (· != '\''), rest)
      | [] => ([], [])
    | _ =>
      let inName (c : Char) := c != '=' && c != '#' && !Text.isPadding c
      (cs.takeWhile inName, cs.dropWhile inName)
  if found.1.isEmpty then none else some found

/-- What the escapes stand for, for each kind of quotes. -/
def escapes (quote : Char) : List (Char × Char) :=
  if quote = '\'' then [('\\', '\\'), ('\'', '\'')]
  else
    [('\\', '\\'), ('\'', '\''), ('"', '"'), ('a', '\x07'), ('b', '\x08'), ('f', '\x0c'),
     ('n', '\n'), ('r', '\r'), ('t', '\t'), ('v', '\x0b')]

/-- The text between quotes as it is written, and what follows the closing quote. -/
def readQuoted? (quote : Char) : List Char → Option (List Char × List Char)
  | [] => none
  | '\\' :: c :: rest =>
    if c = quote then (readQuoted? quote rest).map fun (text, rest) => ('\\' :: c :: text, rest)
    else (readQuoted? quote (c :: rest)).map fun (text, rest) => ('\\' :: text, rest)
  | c :: rest =>
    if c = quote then some ([], rest)
    else (readQuoted? quote rest).map fun (text, rest) => (c :: text, rest)
termination_by cs => cs.length

/-- A text with its escapes replaced. -/
def unescape (quote : Char) : List Char → List Char
  | '\\' :: c :: rest =>
    match (escapes quote).lookup c with
    | some found => found :: unescape quote rest
    | none => '\\' :: unescape quote (c :: rest)
  | c :: rest => c :: unescape quote rest
  | [] => []
termination_by cs => cs.length

/-- A value without quotes: up to a comment, which follows white space. -/
def withoutComment : List Char → List Char
  | [] => []
  | c :: rest =>
    if isGap c && (rest.dropWhile isGap).head? = some '#' then [] else c :: withoutComment rest

/-- The value after an equals sign, and what follows it. -/
def readValue? (cs : List Char) : Option (List Char × List Char) :=
  let line := cs.takeWhile fun c => !isLineEnd c
  let plain := ((withoutComment line).reverse.dropWhile Text.isPadding).reverse
  match cs with
  | [] => some (plain, [])
  | quote :: rest =>
    if quote = '\'' || quote = '"' then
      (readQuoted? quote rest).map fun (text, rest) => (unescape quote text, rest)
    else some (plain, cs.drop line.length)

/-- Nothing but a comment stands on the rest of the line. -/
def endsLine (cs : List Char) : Bool :=
  match cs.dropWhile isGap with
  | [] => true
  | c :: _ => c = '#' || isLineEnd c

/-- The line at the front of a text. -/
def readLine (text : List Char) : Line :=
  let cs := afterExport (text.dropWhile Text.isPadding)
  match readName? cs with
  | none => ⟨none, afterLine cs⟩
  | some (name, rest) =>
    match rest.dropWhile isGap with
    | '=' :: rest =>
      match readValue? (rest.dropWhile isGap) with
      | some (value, rest) =>
        if endsLine rest then ⟨some (String.ofList name, String.ofList value), afterLine rest⟩
        else ⟨none, afterLine rest⟩
      | none => ⟨none, afterLine rest⟩
    | rest => ⟨none, afterLine rest⟩

/-- The variables that a text lists.  The fuel bounds the number of lines. -/
def readLines : (fuel : Nat) → List Char → Environment
  | 0, _ => []
  | _, [] => []
  | fuel + 1, text =>
    let line := readLine text
    line.binding.toList ++ readLines fuel line.rest

end RubyOutline.EnvironmentFile

namespace RubyOutline

/-- The variables that a text lists. -/
def Environment.ofText (text : List Char) : Environment :=
  EnvironmentFile.readLines (text.length + 1) text

end RubyOutline
