/-
RubyOutline/SizeLimit.lean

How large a file may be: a number of kilobytes, whole or not.
-/
import RubyOutline.Text.Decimal

namespace RubyOutline

inductive SizeLimit
  | whole (kilobytes : Int)
  | fractional (kilobytes : Float)
deriving DecidableEq, Repr

namespace SizeLimit

/-- A file of so many bytes is too large. -/
def isExceededBy (size : Nat) : SizeLimit → Bool
  | .whole n => n * 1024 < size
  | .fractional x => x * 1024 < Float.ofNat size

/-- The number of kilobytes in writing. -/
def text : SizeLimit → String
  | .whole n => toString n
  | .fractional x => Text.ofFloat x

instance : ToString SizeLimit := ⟨text⟩

end SizeLimit

end RubyOutline
