/-
RubyOutline/Sizes.lean

Sizes of lists.  A work list gets smaller when its first entry is replaced by what stands within
the entry, in whatever order and with whatever left out.
-/

namespace RubyOutline

variable {α : Type} [SizeOf α]

theorem sizeOf_append (xs ys : List α) : sizeOf (xs ++ ys) + 1 = sizeOf xs + sizeOf ys := by
  induction xs with
  | nil =>
    simp only [List.nil_append, List.nil.sizeOf_spec]
    omega
  | cons x xs ih =>
    simp only [List.cons_append, List.cons.sizeOf_spec]
    omega

theorem sizeOf_reverse (xs : List α) : sizeOf xs.reverse = sizeOf xs := by
  induction xs with
  | nil => rfl
  | cons x xs ih =>
    have := sizeOf_append xs.reverse [x]
    simp only [List.cons.sizeOf_spec, List.nil.sizeOf_spec] at this
    simp only [List.reverse_cons, List.cons.sizeOf_spec]
    omega

theorem sizeOf_filter_le (p : α → Bool) (xs : List α) : sizeOf (xs.filter p) ≤ sizeOf xs := by
  induction xs with
  | nil => exact Nat.le_refl _
  | cons x xs ih =>
    rw [List.filter_cons]
    split <;> simp only [List.cons.sizeOf_spec] <;> omega

/-- Entries that are smaller than the first one altogether may take its place. -/
theorem sizeOf_append_lt {x : α} {xs pending : List α} (h : sizeOf xs < sizeOf x) :
    sizeOf (xs ++ pending) < sizeOf (x :: pending) := by
  have := sizeOf_append xs pending
  simp only [List.cons.sizeOf_spec]
  omega

end RubyOutline
