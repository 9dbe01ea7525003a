/-
RubyOutline/MacroTable/Checked.lean

Callback macros out of unchecked values.  A callback needs a name that is not empty; all else has
a default, and keys that mean nothing are passed over.
-/
import RubyOutline.Checked
import RubyOutline.MacroTable

namespace RubyOutline

open Checked

/-- A text that is not empty. -/
def Check.nonemptyString (v : Value) : Checked String :=
  (Check.string v).andThen fun s => if s = "" then issue .stringTooShort else accepted s

def CallbackMacro.check (v : Value) : Checked CallbackMacro :=
  Check.fields (fun entries =>
    CallbackMacro.mk <$> Check.required entries "name" Check.nonemptyString
      <*> Check.fieldOr entries "family" .custom
        (Check.word .enumError CallbackFamily.all CallbackFamily.label)
      <*> Check.fieldOr entries "accepts_arguments" true Check.bool
      <*> Check.fieldOr entries "accepts_block" true Check.bool) v

end RubyOutline
