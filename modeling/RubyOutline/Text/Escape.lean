/-
RubyOutline/Text/Escape.lean

Escape sequences of terminals: an escape character and an opening bracket, then parameters, then
intermediate characters, then one final character.  Output that no terminal shows has none.
-/

namespace RubyOutline.Text

def isParameter (c : Char) : Bool := '0' ≤ c && c ≤ '?'

def isIntermediate (c : Char) : Bool := ' ' ≤ c && c ≤ '/'

def isFinal (c : Char) : Bool := '@' ≤ c && c ≤ '~'

/-- What follows an escape sequence whose opening has been read, if it is one. -/
def afterEscape? (cs : List Char) : Option (List Char) :=
  match (cs.dropWhile isParameter).dropWhile isIntermediate with
  | c :: rest => if isFinal c then some rest else none
  | [] => none

theorem length_dropWhile_le {α : Type} (p : α → Bool) (xs : List α) :
    (xs.dropWhile p).length ≤ xs.length :=
  (List.dropWhile_sublist p).length_le

theorem length_of_afterEscape? {cs rest : List Char} (h : afterEscape? cs = some rest) :
    rest.length < cs.length := by
  unfold afterEscape? at h
  split at h
  · rename_i c after hc
    have h1 := length_dropWhile_le isParameter cs
    have h2 := length_dropWhile_le isIntermediate (cs.dropWhile isParameter)
    rw [hc, List.length_cons] at h2
    split at h
    · cases h
      omega
    · cases h
  · cases h

/-- The characters without those of escape sequences. -/
def dropEscapes (cs : List Char) : List Char :=
  match cs with
  | [] => []
  | '\x1b' :: '[' :: rest =>
    match _h : afterEscape? rest with
    | some after => dropEscapes after
    | none => '\x1b' :: '[' :: dropEscapes rest
  | c :: rest => c :: dropEscapes rest
termination_by cs.length
decreasing_by
  · have := length_of_afterEscape? _h
    simp only [List.length_cons]
    omega
  all_goals simp only [List.length_cons]; omega

/-- A text without escape sequences. -/
def withoutEscapes (text : String) : String := String.ofList (dropEscapes text.toList)

end RubyOutline.Text
