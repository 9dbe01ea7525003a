/-
RubyOutline/Text/Line.lean

Lines.  A source is cut into rows at each line feed byte, so there is always one row more than
there are line feeds.  Text read from a file has its line ends made uniform first
(`uniformLineEnds`).
-/

namespace RubyOutline.Text

/-- The rows of a source: what lies between line feeds. -/
def rows (bytes : List UInt8) : List (List UInt8) := bytes.splitOn 0x0A

/-- Line ends as line feeds: a carriage return and the line feed after it are one line end. -/
def uniformLineEnds : List Char → List Char
  | [] => []
  | '\r' :: '\n' :: rest => '\n' :: uniformLineEnds rest
  | '\r' :: rest => '\n' :: uniformLineEnds rest
  | c :: rest => c :: uniformLineEnds rest

end RubyOutline.Text
