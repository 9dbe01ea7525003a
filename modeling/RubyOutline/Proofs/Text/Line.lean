/-
RubyOutline/Proofs/Text/Line.lean

Lines of bytes and lines of characters.  The line that a stretch of text ends in is what follows its
last line feed (`lastLine`).  Seen from the whole source it is the beginning of the row whose number
is the count of the line feeds (`rows_append`).  A line feed is a byte of its own, and no other
character has this byte in it; so counting line feeds and taking the last line is the same before
and after encoding (`count_encoded`, `lastLine_encoded`).
-/
import RubyOutline.Text.Line

namespace RubyOutline.Text

variable {α β : Type} [DecidableEq α] [DecidableEq β] {a : α} {b : β}

/-- What follows the last separator of a list; all of it if there is none. -/
def lastLine (a : α) : List α → List α
  | [] => []
  | x :: xs => if a ∈ x :: xs then lastLine a xs else x :: xs

theorem lastLine_of_not_mem {xs : List α} (h : a ∉ xs) : lastLine a xs = xs := by
  cases xs with
  | nil => rfl
  | cons x xs => rw [lastLine, if_neg h]

theorem lastLine_cons_of_mem {x : α} {xs : List α} (h : a ∈ x :: xs) :
    lastLine a (x :: xs) = lastLine a xs := by
  rw [lastLine, if_pos h]

theorem lastLine_append_of_mem {ys : List α} (h : a ∈ ys) (xs : List α) :
    lastLine a (xs ++ ys) = lastLine a ys := by
  induction xs with
  | nil => rfl
  | cons x xs ih =>
    rw [List.cons_append, lastLine_cons_of_mem (List.mem_cons_of_mem _ (List.mem_append_right _ h)),
      ih]

/-! ### Rows -/

theorem rows_cons (x : UInt8) (bytes : List UInt8) :
    rows (x :: bytes) =
      if x = 0x0A then [] :: rows bytes else (rows bytes).modifyHead (x :: ·) := by
  rw [rows, List.splitOn, List.splitOnP_cons_eq_if_modifyHead]
  simp only [beq_iff_eq]
  rfl

/-- The bytes of a row are bytes of the source. -/
theorem mem_of_mem_rows {bytes row : List UInt8} (hrow : row ∈ rows bytes) {b : UInt8}
    (hb : b ∈ row) : b ∈ bytes := by
  induction bytes generalizing row with
  | nil =>
    obtain rfl : row = [] := List.mem_singleton.1 hrow
    cases hb
  | cons x bytes ih =>
    rw [rows_cons] at hrow
    split at hrow
    · rcases List.mem_cons.1 hrow with rfl | hrow
      · cases hb
      · exact List.mem_cons_of_mem _ (ih hrow hb)
    · have hne : rows bytes ≠ [] := List.splitOnP_ne_nil _ _
      obtain ⟨first, others, hrows⟩ := List.exists_cons_of_ne_nil hne
      rw [hrows] at hrow ih
      rcases List.mem_cons.1 hrow with rfl | hrow
      · rcases List.mem_cons.1 hb with rfl | hb
        · exact List.mem_cons_self
        · exact List.mem_cons_of_mem _ (ih List.mem_cons_self hb)
      · exact List.mem_cons_of_mem _ (ih (List.mem_cons_of_mem _ hrow) hb)

/-- The row that a stretch of the source ends in begins with the last line of the stretch. -/
theorem rows_append (before after : List UInt8) :
    ∃ rest, (rows (before ++ after))[before.count 0x0A]? = some (lastLine 0x0A before ++ rest) := by
  induction before with
  | nil =>
    have hne : rows after ≠ [] := List.splitOnP_ne_nil _ _
    obtain ⟨row, rows', hrows⟩ := List.exists_cons_of_ne_nil hne
    exact ⟨row, by simp [hrows, lastLine]⟩
  | cons x before ih =>
    obtain ⟨rest, ih⟩ := ih
    rw [List.cons_append, rows_cons]
    by_cases hx : x = 0x0A
    · -- a line feed begins a new row
      obtain rfl := hx
      rw [if_pos rfl, List.count_cons_self, lastLine_cons_of_mem List.mem_cons_self,
        List.getElem?_cons_succ]
      exact ⟨rest, ih⟩
    · rw [if_neg hx, List.count_cons_of_ne hx]
      by_cases hmem : 0x0A ∈ before
      · -- the byte belongs to an earlier row
        obtain ⟨k, hk⟩ := Nat.exists_eq_succ_of_ne_zero
          (Nat.ne_of_gt (List.count_pos_iff.2 hmem))
        rw [lastLine_cons_of_mem (List.mem_cons_of_mem _ hmem)]
        refine ⟨rest, ?_⟩
        rw [hk] at ih ⊢
        rw [← ih]
        cases rows (before ++ after) <;> rfl
      · -- the byte belongs to the row itself
        have hxs : 0x0A ∉ x :: before := by simp [hmem, Ne.symm hx]
        rw [lastLine_of_not_mem hmem, List.count_eq_zero_of_not_mem hmem] at ih
        rw [lastLine_of_not_mem hxs, List.count_eq_zero_of_not_mem hmem]
        refine ⟨rest, ?_⟩
        cases hrows : rows (before ++ after) with
        | nil => simp [hrows] at ih
        | cons row rows' =>
          rw [hrows] at ih
          simpa using ih

/-! ### Encoded lines -/

variable {f : α → List β}

omit [DecidableEq β] in
theorem mem_encoded (hsep : f a = [b]) (hother : ∀ x, x ≠ a → b ∉ f x) {xs : List α} :
    b ∈ xs.flatMap f ↔ a ∈ xs := by
  rw [List.mem_flatMap]
  constructor
  · rintro ⟨x, hx, hb⟩
    by_cases hxa : x = a
    · exact hxa ▸ hx
    · exact absurd hb (hother x hxa)
  · intro ha
    exact ⟨a, ha, by simp [hsep]⟩

/-- A separator that is encoded as one, and by nothing else, is counted alike before and after. -/
theorem count_encoded (hsep : f a = [b]) (hother : ∀ x, x ≠ a → b ∉ f x) (xs : List α) :
    (xs.flatMap f).count b = xs.count a := by
  induction xs with
  | nil => rfl
  | cons x xs ih =>
    rw [List.flatMap_cons, List.count_append, ih]
    by_cases hxa : x = a
    · obtain rfl := hxa
      rw [hsep, List.count_cons_self]
      simp [Nat.add_comm]
    · rw [List.count_eq_zero_of_not_mem (hother x hxa), List.count_cons_of_ne hxa, Nat.zero_add]

theorem lastLine_encoded (hsep : f a = [b]) (hother : ∀ x, x ≠ a → b ∉ f x) (xs : List α) :
    lastLine b (xs.flatMap f) = (lastLine a xs).flatMap f := by
  induction xs with
  | nil => rfl
  | cons x xs ih =>
    by_cases hmem : a ∈ x :: xs
    · rw [lastLine_cons_of_mem hmem, ← ih, List.flatMap_cons]
      by_cases hxs : a ∈ xs
      · exact lastLine_append_of_mem ((mem_encoded hsep hother).2 hxs) _
      · -- the separator comes first, and is the last one
        obtain rfl : a = x := (List.mem_cons.1 hmem).resolve_right hxs
        rw [hsep, List.singleton_append, lastLine_cons_of_mem List.mem_cons_self]
    · have hmem' : b ∉ (x :: xs).flatMap f := fun h => hmem ((mem_encoded hsep hother).1 h)
      rw [lastLine_of_not_mem hmem, lastLine_of_not_mem hmem']

end RubyOutline.Text
