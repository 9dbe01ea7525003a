/-
RubyOutline/Text/AnyText.lean

Texts that may hold surrogates.  What comes from a source or names a file is a string.  A setting
is any text at all: an escape in a settings file can name half of a surrogate pair, and where
nothing more is asked of a text than to be one, that is a text too.
-/
import RubyOutline.Text.Blank
import RubyOutline.Text.Codes

namespace RubyOutline

open Text

/-- A text: a string, unless a surrogate is among its code points. -/
inductive AnyText
  | string (s : String)
  | broken (codes : Codes) (isBroken : codes.any isSurrogate = true)
deriving DecidableEq, Repr

namespace AnyText

instance : Coe String AnyText := ⟨string⟩

instance : Inhabited AnyText := ⟨string ""⟩

/-- The text of some code points. -/
def ofCodes (cs : Codes) : AnyText :=
  if h : cs.any isSurrogate = true then broken cs h else string (String.ofList (cs.map Char.ofNat))

def isString : AnyText → Bool
  | string _ => true
  | broken .. => false

def string? : AnyText → Option String
  | string s => some s
  | broken .. => none

/-- The strings among some texts. -/
def strings (ts : List AnyText) : List String := ts.filterMap string?

/-- A code point of a character that is trimmed off names. -/
def isPaddingCode (n : Nat) : Bool := !isSurrogate n && isPadding (Char.ofNat n)

theorem any_isSurrogate_trimList (cs : Codes) :
    (trimList isPaddingCode cs).any isSurrogate = cs.any isSurrogate := by
  have hdropWhile : ∀ ns : Codes,
      (ns.dropWhile isPaddingCode).any isSurrogate = ns.any isSurrogate := by
    intro ns
    induction ns with
    | nil => rfl
    | cons n ns ih =>
      by_cases hn : isPaddingCode n = true
      · have hwhole : isSurrogate n = false := by
          simp only [isPaddingCode, Bool.and_eq_true, Bool.not_eq_true'] at hn
          exact hn.1
        rw [List.dropWhile_cons_of_pos hn, ih, List.any_cons, hwhole, Bool.false_or]
      · rw [List.dropWhile_cons_of_neg hn]
  rw [trimList, List.any_reverse, hdropWhile, List.any_reverse, hdropWhile]

/-- A text without the padding at its two ends, which leaves surrogates where they are. -/
def strip : AnyText → AnyText
  | string s => string (trim isPadding s)
  | broken cs h => broken (trimList isPaddingCode cs) ((any_isSurrogate_trimList cs).trans h)

@[simp] theorem isString_strip (t : AnyText) : t.strip.isString = t.isString := by
  cases t <;> rfl

theorem ofCodes_of_any {cs : Codes} (h : cs.any isSurrogate = true) : ofCodes cs = broken cs h :=
  dif_pos h

theorem mem_strings {ts : List AnyText} {s : String} : s ∈ strings ts ↔ string s ∈ ts := by
  rw [strings, List.mem_filterMap]
  constructor
  · rintro ⟨t, ht, hs⟩
    cases t with
    | string s' =>
      cases hs
      exact ht
    | broken cs h => cases hs
  · exact fun h => ⟨string s, h, rfl⟩

@[simp] theorem strings_map (ss : List String) : strings (ss.map string) = ss := by
  induction ss with
  | nil => rfl
  | cons s ss ih => exact congrArg (s :: ·) ih

/-- Texts that are strings are those among them that are. -/
theorem eq_map_strings {ts : List AnyText} (h : ∀ t ∈ ts, t.isString = true) :
    ts = (strings ts).map string := by
  induction ts with
  | nil => rfl
  | cons t ts ih =>
    obtain ⟨ht, hts⟩ := List.forall_mem_cons.1 h
    cases t with
    | string s => exact congrArg (string s :: ·) (ih hts)
    | broken cs hcs => cases ht

end AnyText

end RubyOutline
