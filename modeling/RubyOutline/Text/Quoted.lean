/-
RubyOutline/Text/Quoted.lean

A text in quotes, as messages show names and scalars.  Single quotes are used unless the text
holds one and no double quote.  The quote in use, the backslash and whatever does not print are
escaped, the latter by the shortest of `\x`, `\u` and `\U` that reaches it.
-/
import RubyOutline.Text.Codes
import RubyOutline.Text.Printed
import RubyOutline.Value.Json

namespace RubyOutline.Text

/-- The last `count` hexadecimal digits of a number. -/
def hexDigits : (count : Nat) → Nat → List Char
  | 0, _ => []
  | count + 1, n => hexDigits count (n / 16) ++ [Value.hexDigit (n % 16)]

/-- A text as it is shown where surrogates have no place: each of them as its escape. -/
def shown : AnyText → String
  | .string s => s
  | .broken cs _ => String.ofList (cs.flatMap fun n =>
      if isSurrogate n then ['\\', 'u'] ++ hexDigits 4 n else [Char.ofNat n])

/-- A code point between quotes. -/
def quotedCode (quote : Char) (n : Nat) : List Char :=
  if n = quote.toNat ∨ n = '\\'.toNat then ['\\', Char.ofNat n]
  else if n = '\n'.toNat then ['\\', 'n']
  else if n = '\r'.toNat then ['\\', 'r']
  else if n = '\t'.toNat then ['\\', 't']
  else if isPrinted n then [Char.ofNat n]
  else if n < 0x100 then ['\\', 'x'] ++ hexDigits 2 n
  else if n < 0x10000 then ['\\', 'u'] ++ hexDigits 4 n
  else ['\\', 'U'] ++ hexDigits 8 n

def quotedCodes (cs : Codes) : String :=
  let quote := if cs.contains '\''.toNat && !cs.contains '"'.toNat then '"' else '\''
  String.ofList ([quote] ++ cs.flatMap (quotedCode quote) ++ [quote])

def quoted (s : String) : String := quotedCodes (codes s)

end RubyOutline.Text
