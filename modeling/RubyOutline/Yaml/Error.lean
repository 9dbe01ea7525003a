/-
RubyOutline/Yaml/Error.lean

Why a YAML text has no value.  Only a text that breaks the grammar, or asks for a type that does
not fit, is `malformed`; the others are escapes that name no character, and scalars whose tag asks
for a value they do not write.
-/
import RubyOutline.Text.Quoted
import RubyOutline.Yaml.Timestamp

namespace RubyOutline.Yaml

inductive YamlError
  | malformed
  /-- An escape beyond the last code point. -/
  | badCharacter
  /-- An escape of more than 31 bits. -/
  | hugeCharacter
  /-- A number of no characters. -/
  | emptyNumber
  | badInt (text : Text.Codes) (base : Nat)
  | longInt (digits : Nat)
  | badFloat (text : Text.Codes)
  | badBool (text : Text.Codes)
  | notDate
  | badDate (fault : Timestamp.Fault)
  /-- A date that is no scalar of its own. -/
  | notText
deriving DecidableEq, Repr

namespace YamlError

/-- The longest quotation of an integer, in characters. -/
def longestQuotation : Nat := 200

def message : YamlError → String
  | .malformed => "Invalid YAML in config file"
  | .badCharacter => "chr() arg not in range(0x110000)"
  | .hugeCharacter => "Python int too large to convert to C int"
  | .emptyNumber => "string index out of range"
  | .badInt text base =>
    let quotation := String.ofList ((Text.quotedCodes text).toList.take longestQuotation)
    s!"invalid literal for int() with base {base}: {quotation}"
  | .longInt digits =>
    s!"Exceeds the limit ({Value.longestInteger} digits) for integer string conversion: " ++
      s!"value has {digits} digits; use sys.set_int_max_str_digits() to increase the limit"
  | .badFloat text => s!"could not convert string to float: {Text.quotedCodes text}"
  | .badBool text => Text.quotedCodes text
  | .notDate => "'NoneType' object has no attribute 'groupdict'"
  | .badDate fault => fault.message
  | .notText => "expected string or bytes-like object, got 'list'"

end YamlError

end RubyOutline.Yaml
