/-
RubyOutline/Text/Blank.lean

White space.  `isBlank` is the Unicode property White_Space.  Names are trimmed by the wider set
`isPadding`, which also holds the four separator controls U+001C to U+001F.  Neither set holds
the zero width space U+200B.
-/

namespace RubyOutline.Text

/-- The code points with the property White_Space, as intervals. -/
def blankIntervals : List (Nat × Nat) :=
  [(0x09, 0x0D), (0x20, 0x20), (0x85, 0x85), (0xA0, 0xA0), (0x1680, 0x1680), (0x2000, 0x200A),
   (0x2028, 0x2029), (0x202F, 0x202F), (0x205F, 0x205F), (0x3000, 0x3000)]

def isBlank (c : Char) : Bool :=
  blankIntervals.any fun (low, high) => low ≤ c.toNat && c.toNat ≤ high

/-- White space and the separator controls. -/
def isPadding (c : Char) : Bool :=
  isBlank c || (0x1C ≤ c.toNat && c.toNat ≤ 0x1F)

/-- A list without the elements of `p` at its two ends. -/
def trimList {α : Type} (p : α → Bool) (xs : List α) : List α :=
  ((xs.dropWhile p).reverse.dropWhile p).reverse

/-- A string without the characters of `p` at its two ends. -/
def trim (p : Char → Bool) (s : String) : String :=
  String.ofList (trimList p s.toList)

theorem isPadding_of_isBlank {c : Char} (h : isBlank c = true) : isPadding c = true := by
  simp [isPadding, h]

theorem isBlank_of_isWhitespace {c : Char} (h : c.isWhitespace = true) : isBlank c = true := by
  simp only [Char.isWhitespace, Bool.or_eq_true, decide_eq_true_eq] at h
  rcases h with ((h | h) | h) | h <;> subst h <;> decide

end RubyOutline.Text
