/-
RubyOutline/Text/Codes.lean

Texts as code points.  An escape can name half of a surrogate pair, and a text that holds one
without its partner is no `String`.  `codes` and `ofCodes?` go between strings and those code
points that make a string.
-/

namespace RubyOutline.Text

/-- A text as code points, surrogates among them. -/
abbrev Codes := List Nat

def codes (s : String) : Codes := s.toList.map Char.toNat

def isSurrogate (n : Nat) : Bool := 0xD800 ≤ n && n < 0xE000

/-- The string of a text without surrogates. -/
def ofCodes? (cs : Codes) : Option String :=
  if cs.any isSurrogate then none else some (String.ofList (cs.map Char.ofNat))

/-- Each pair of surrogates as the one character it stands for. -/
def joinPairs : Codes → Codes
  | [] => []
  | [n] => [n]
  | n :: m :: rest =>
    if 0xD800 ≤ n ∧ n < 0xDC00 ∧ 0xDC00 ≤ m ∧ m < 0xE000 then
      (0x10000 + (n - 0xD800) * 1024 + (m - 0xDC00)) :: joinPairs rest
    else n :: joinPairs (m :: rest)

theorem isSurrogate_toNat (c : Char) : isSurrogate c.toNat = false := by
  have h : (c.toNat < 0xD800) ∨ (0xDFFF < c.toNat ∧ c.toNat < 0x110000) := c.valid
  simp only [isSurrogate, Bool.and_eq_false_iff, decide_eq_false_iff_not]
  omega

theorem ofCodes?_codes (s : String) : ofCodes? (codes s) = some s := by
  have h : (codes s).any isSurrogate = false := by
    simp only [codes, List.any_map, List.any_eq_false, Function.comp_apply, isSurrogate_toNat]
    simp
  rw [ofCodes?, if_neg (by simp [h])]
  simp [codes, Function.comp_def]

end RubyOutline.Text
