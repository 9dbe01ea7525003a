/-
RubyOutline/Proofs/ParentTable.lean

What a table of rows hangs into its slots.  `ParentTable.slotsAfter` is the same construction as
`ParentTable.hang` with the slots as a function of their number instead of an array: the rows are
gone through from the last to the first, and a row takes the list of its own slot for the children
of its node.  `getD_hang` says that the two agree on all slots of the table.

The slots of rows already gone through are never read again, so only those of earlier rows
matter.  What is in a slot before the table is gone through stays behind what the table puts
there (`slotsAfter_eq_append`), and a table of two parts is gone through part by part
(`slotsAfter_append`).  No row is hung twice (`hungOnce_counted`), whatever slots the rows name.

A node is built from its row and from what the later rows hang under it (`exists_row_of_mem`), and
the nodes of a slot stand in the order of their rows (`map_number_slotsAfter`).  A row that comes
last is found below just those slots where the row that it hangs under is found
(`mem_counted_concat`).
-/
import Mathlib.Data.List.Nodup
import RubyOutline.ParentTable

namespace RubyOutline.ParentTable

variable {α β : Type}
variable (base : Nat) (slot : α → Nat) (build : Nat → α → List β → β)

/-! ### Slots as a function -/

/-- The slots after the rows, numbered from `i` on, are hung into slots already filled. -/
def slotsAfter (filled : Nat → List β) : List α → (i : Nat) → Nat → List β
  | [], _, k => filled k
  | row :: rows, i, k =>
    if k = slot row then
      build i row (slotsAfter filled rows (i + 1) (base + i)) :: slotsAfter filled rows (i + 1) k
    else slotsAfter filled rows (i + 1) k

@[simp] theorem slotsAfter_nil (filled : Nat → List β) (i k : Nat) :
    slotsAfter base slot build filled [] i k = filled k := rfl

theorem slotsAfter_cons (filled : Nat → List β) (row : α) (rows : List α) (i k : Nat) :
    slotsAfter base slot build filled (row :: rows) i k =
      if k = slot row then
        build i row (slotsAfter base slot build filled rows (i + 1) (base + i)) ::
          slotsAfter base slot build filled rows (i + 1) k
      else slotsAfter base slot build filled rows (i + 1) k := rfl

/-- A table of two parts, the last one first. -/
theorem slotsAfter_append (filled : Nat → List β) (xs ys : List α) (i : Nat) :
    slotsAfter base slot build filled (xs ++ ys) i =
      slotsAfter base slot build (slotsAfter base slot build filled ys (i + xs.length)) xs i := by
  induction xs generalizing i with
  | nil => rfl
  | cons x xs ih =>
    funext k
    have hlen : i + (x :: xs).length = i + 1 + xs.length := by
      rw [List.length_cons]
      omega
    rw [List.cons_append, slotsAfter_cons, slotsAfter_cons, ih, hlen]

/-- Whatever fills the slots beforehand stays behind, so long as no row takes it for its own
children. -/
theorem slotsAfter_eq_append {filled : Nat → List β} {rows : List α} {i : Nat}
    (h : ∀ j, i ≤ j → j < i + rows.length → filled (base + j) = []) (k : Nat) :
    slotsAfter base slot build filled rows i k =
      slotsAfter base slot build (fun _ => []) rows i k ++ filled k := by
  induction rows generalizing i k with
  | nil => rfl
  | cons row rows ih =>
    have hrows : ∀ j, i + 1 ≤ j → j < i + 1 + rows.length → filled (base + j) = [] := by
      intro j hj hlt
      refine h j (by omega) ?_
      rw [List.length_cons]
      omega
    have hown : filled (base + i) = [] := by
      refine h i (Nat.le_refl i) ?_
      rw [List.length_cons]
      omega
    rw [slotsAfter_cons, slotsAfter_cons, ih hrows, ih hrows k, hown, List.append_nil]
    split
    · rw [List.cons_append]
    · rfl

/-! ### Every row is hung once -/

/-- The rows counted in the nodes of a slot, when rows are numbered from `i` on. -/
def counted (count : β → List Nat) (rows : List α) (i k : Nat) : List Nat :=
  (slotsAfter base slot build (fun _ => []) rows i k).flatMap count

/-- No row is counted twice, neither in one slot nor in two that earlier rows can still read. -/
structure HungOnce (rowsIn : Nat → List Nat) (bound i : Nat) : Prop where
  nodup : ∀ k, k < bound → (rowsIn k).Nodup
  le : ∀ k, k < bound → ∀ j ∈ rowsIn k, i ≤ j
  disjoint : ∀ k l, k < bound → l < bound → l ≠ k → (rowsIn l).Disjoint (rowsIn k)

/-- One more row, which goes into a slot together with the rows below it: the slot gains them, and
all other slots stay as they are. -/
theorem HungOnce.cons {rowsIn rowsIn' : Nat → List Nat} {bound i s : Nat}
    (h : HungOnce rowsIn (bound + 1) (i + 1)) (hown : rowsIn' s = i :: (rowsIn bound ++ rowsIn s))
    (hother : ∀ k, k ≠ s → rowsIn' k = rowsIn k) : HungOnce rowsIn' bound i := by
  obtain ⟨hnodup, hle, hdisjoint⟩ := h
  have hi : ∀ k, k < bound + 1 → i ∉ rowsIn k := by
    intro k hk hmem
    have := hle k hk i hmem
    omega
  have howned : ∀ k, k < bound → k ≠ s → s < bound → (rowsIn' k).Disjoint (rowsIn' s) := by
    intro k hk hks hs
    rw [hother k hks, hown, List.disjoint_cons_right, List.disjoint_append_right]
    exact ⟨hi k (by omega), hdisjoint _ _ (by omega) (by omega) (by omega),
      hdisjoint _ _ (by omega) (by omega) hks⟩
  -- in each of the three parts, a slot is the one that gains the row or is as it was
  refine ⟨fun k hk => ?_, fun k hk j hj => ?_, fun k l hk hl hlk => ?_⟩
  · by_cases hks : k = s
    · rw [hks] at hk ⊢
      rw [hown, List.nodup_cons, List.mem_append, List.nodup_append']
      exact ⟨fun h => h.elim (hi _ (by omega)) (hi _ (by omega)),
        hnodup _ (by omega), hnodup _ (by omega), hdisjoint _ _ (by omega) (by omega) (by omega)⟩
    · rw [hother k hks]
      exact hnodup k (by omega)
  · by_cases hks : k = s
    · rw [hks] at hk hj
      rw [hown, List.mem_cons, List.mem_append] at hj
      rcases hj with rfl | hj | hj
      · exact Nat.le_refl j
      · exact Nat.le_of_succ_le (hle _ (by omega) j hj)
      · exact Nat.le_of_succ_le (hle _ (by omega) j hj)
    · rw [hother k hks] at hj
      exact Nat.le_of_succ_le (hle k (by omega) j hj)
  · by_cases hks : k = s
    · rw [hks] at hk hlk ⊢
      exact howned l hl hlk hk
    · by_cases hls : l = s
      · rw [hls] at hl ⊢
        exact List.disjoint_symm (howned k hk hks hl)
      · rw [hother k hks, hother l hls]
        exact hdisjoint k l (by omega) (by omega) hlk

/-- If a node counts its own row and those of its children, then no row is counted twice, whatever
slots the rows name. -/
theorem hungOnce_counted {count : β → List Nat}
    (hcount : ∀ i row children, count (build i row children) = i :: children.flatMap count)
    (rows : List α) (i : Nat) :
    HungOnce (counted base slot build count rows i) (base + i) i := by
  induction rows generalizing i with
  | nil =>
    have hnil : ∀ k, counted base slot build count [] i k = [] := fun k => rfl
    exact ⟨fun k _ => by simp [hnil], fun k _ => by simp [hnil], fun k l _ _ _ => by simp [hnil]⟩
  | cons row rows ih =>
    refine HungOnce.cons (s := slot row) (ih (i + 1)) ?_ fun k hk => ?_
    · simp only [counted, slotsAfter_cons, if_true, List.flatMap_cons, hcount, List.cons_append]
    · simp only [counted, slotsAfter_cons, if_neg hk]

/-! ### Nodes and their rows -/

/-- The rows that name a slot, by their numbers, when rows are numbered from `i` on. -/
def numbersIn (rows : List α) (i k : Nat) : List Nat :=
  ((rows.zipIdx i).filter fun row => slot row.1 = k).map (·.2)

theorem numbersIn_cons (row : α) (rows : List α) (i k : Nat) :
    numbersIn slot (row :: rows) i k =
      if slot row = k then i :: numbersIn slot rows (i + 1) k
      else numbersIn slot rows (i + 1) k := by
  rw [numbersIn, List.zipIdx_cons, List.filter_cons]
  split <;> simp_all [numbersIn]

/-- Rows that do not name a slot can be left out, so long as the others keep their numbers. -/
theorem numbersIn_append_of_forall_ne {rows : List α} {k : Nat} (h : ∀ row ∈ rows, slot row ≠ k)
    (later : List α) (i : Nat) :
    numbersIn slot (rows ++ later) i k = numbersIn slot later (i + rows.length) k := by
  induction rows generalizing i with
  | nil => rfl
  | cons row rows ih =>
    rw [List.forall_mem_cons] at h
    rw [List.cons_append, numbersIn_cons, if_neg h.1, ih h.2, List.length_cons]
    congr 1
    omega

theorem pairwise_lt_numbersIn (rows : List α) (i k : Nat) :
    (numbersIn slot rows i k).Pairwise (· < ·) := by
  have hsublist : (numbersIn slot rows i k).Sublist ((rows.zipIdx i).map (·.2)) :=
    List.filter_sublist.map _
  rw [List.zipIdx_map_snd] at hsublist
  exact (List.pairwise_lt_range' 1).sublist hsublist

theorem mem_numbersIn_iff {rows : List α} {k n : Nat} :
    n ∈ numbersIn slot rows 0 k ↔ ∃ row, rows[n]? = some row ∧ slot row = k := by
  simp only [numbersIn, List.mem_map, List.mem_filter, decide_eq_true_eq, Prod.exists,
    List.mk_mem_zipIdx_iff_getElem?, exists_eq_right]

/-- The nodes of a slot are those of the rows that name it. -/
theorem map_number_slotsAfter {number : β → Nat}
    (hnumber : ∀ i row children, number (build i row children) = i) (rows : List α) (i k : Nat) :
    (slotsAfter base slot build (fun _ => []) rows i k).map number = numbersIn slot rows i k := by
  induction rows generalizing i with
  | nil => rfl
  | cons row rows ih =>
    rw [slotsAfter_cons, numbersIn_cons]
    by_cases hk : k = slot row
    · rw [if_pos hk, if_pos hk.symm, List.map_cons, hnumber, ih]
    · rw [if_neg hk, if_neg (Ne.symm hk), ih]

/-- A function of nodes that can be computed from the row and the children alone can be applied
while the nodes are built. -/
theorem map_slotsAfter {γ : Type} {build' : Nat → α → List γ → γ} (f : β → γ)
    (hf : ∀ i row children, f (build i row children) = build' i row (children.map f))
    (rows : List α) (i k : Nat) :
    (slotsAfter base slot build (fun _ => []) rows i k).map f =
      slotsAfter base slot build' (fun _ => []) rows i k := by
  induction rows generalizing i k with
  | nil => rfl
  | cons row rows ih =>
    rw [slotsAfter_cons, slotsAfter_cons]
    split
    · rw [List.map_cons, hf, ih, ih]
    · rw [ih]

/-- Every node is built from a row and from what the later rows hang under it. -/
theorem exists_row_of_mem {walk : β → List β}
    (hwalk : ∀ i row children,
      walk (build i row children) = build i row children :: children.flatMap walk)
    {rows : List α} {i k : Nat} {t : β}
    (ht : t ∈ (slotsAfter base slot build (fun _ => []) rows i k).flatMap walk) :
    ∃ earlier row later, rows = earlier ++ row :: later ∧
      t = build (i + earlier.length) row
        (slotsAfter base slot build (fun _ => []) later (i + earlier.length + 1)
          (base + (i + earlier.length))) := by
  induction rows generalizing i k with
  | nil => cases ht
  | cons row rows ih =>
    -- a node of a later row is that row's node in this table as well
    have hlater : ∀ {k},
        t ∈ (slotsAfter base slot build (fun _ => []) rows (i + 1) k).flatMap walk →
          ∃ earlier row' later, row :: rows = earlier ++ row' :: later ∧
            t = build (i + earlier.length) row'
              (slotsAfter base slot build (fun _ => []) later (i + earlier.length + 1)
                (base + (i + earlier.length))) := by
      intro k h
      obtain ⟨earlier, row', later, rfl, hrow⟩ := ih h
      have hlength : i + 1 + earlier.length = i + (row :: earlier).length := by
        rw [List.length_cons]
        omega
      rw [hlength] at hrow
      exact ⟨row :: earlier, row', later, rfl, hrow⟩
    rw [slotsAfter_cons] at ht
    split at ht
    · rw [List.flatMap_cons, hwalk, List.mem_append, List.mem_cons] at ht
      rcases ht with (rfl | ht) | ht
      · exact ⟨[], row, rows, rfl, rfl⟩
      · exact hlater ht
      · exact hlater ht
    · exact hlater ht

/-- A row at the end of a table is counted in the slot that it names, and with the row that it
hangs under. -/
theorem mem_counted_concat {count : β → List Nat}
    (hcount : ∀ i row children, count (build i row children) = i :: children.flatMap count)
    (rows : List α) (row : α) (i k n : Nat) :
    n ∈ counted base slot build count (rows ++ [row]) i k ↔
      n ∈ counted base slot build count rows i k ∨
      n = i + rows.length ∧ (slot row = k ∨
        ∃ j ∈ counted base slot build count rows i k, slot row = base + j) := by
  induction rows generalizing i k with
  | nil =>
    rw [List.nil_append, counted, counted, slotsAfter_cons]
    by_cases hk : k = slot row <;> simp [hk, hcount, eq_comm]
  | cons row' rows ih =>
    have hlength : i + (row' :: rows).length = i + 1 + rows.length := by
      rw [List.length_cons]
      omega
    have hcons : ∀ rows, counted base slot build count (row' :: rows) i k =
        if k = slot row' then
          i :: (counted base slot build count rows (i + 1) (base + i) ++
            counted base slot build count rows (i + 1) k)
        else counted base slot build count rows (i + 1) k := by
      intro rows
      rw [counted, slotsAfter_cons]
      split
      · rw [List.flatMap_cons, hcount]
        rfl
      · rfl
    rw [List.cons_append, hcons, hcons, hlength]
    split
    · simp only [List.mem_cons, List.mem_append, ih]
      grind
    · exact ih (i + 1) k

/-! ### Slots as an array -/

/-- One step of `hang`. -/
def hangRow (row : α × Nat) (slots : Array (List β)) : Array (List β) :=
  slots.modify (slot row.1) (build row.2 row.1 (slots.getD (base + row.2) []) :: ·)

theorem getD_hangRow (row : α) (i k : Nat) (slots : Array (List β)) (hk : k < slots.size) :
    (hangRow base slot build (row, i) slots).getD k [] =
      if k = slot row then build i row (slots.getD (base + i) []) :: slots.getD k []
      else slots.getD k [] := by
  unfold hangRow
  simp only [Array.getD_eq_getD_getElem?, Array.getElem?_modify, eq_comm (a := k)]
  split
  · rw [Array.getElem?_eq_getElem hk]
    rfl
  · rfl

theorem size_foldr_hangRow (rows : List (α × Nat)) (slots : Array (List β)) :
    (rows.foldr (hangRow base slot build) slots).size = slots.size := by
  induction rows with
  | nil => rfl
  | cons row rows ih => rw [List.foldr_cons, hangRow, Array.size_modify, ih]

/-- Rows hung into empty slots one after the other, the last one first. -/
theorem getD_foldr_hangRow (size : Nat) (rows : List α) (i k : Nat)
    (hrows : base + (i + rows.length) ≤ size) (hk : k < size) :
    ((rows.zipIdx i).foldr (hangRow base slot build) (Array.replicate size [])).getD k [] =
      slotsAfter base slot build (fun _ => []) rows i k := by
  induction rows generalizing i k with
  | nil => simp [Array.getD_eq_getD_getElem?, hk]
  | cons row rows ih =>
    rw [List.length_cons] at hrows
    have hslots : k < ((rows.zipIdx (i + 1)).foldr (hangRow base slot build)
        (Array.replicate size [])).size := by
      rw [size_foldr_hangRow, Array.size_replicate]
      exact hk
    rw [List.zipIdx_cons, List.foldr_cons, getD_hangRow _ _ _ _ _ _ _ hslots, slotsAfter_cons,
      ih (i + 1) k (by omega) hk, ih (i + 1) (base + i) (by omega) (by omega)]

/-- The slots of a table, read off as a function. -/
theorem getD_hang (table : Array α) {k : Nat} (hk : k < base + table.size) :
    (hang base slot build table).getD k [] =
      slotsAfter base slot build (fun _ => []) table.toList 0 k := by
  have hlength : 0 + table.toList.length = table.size := by
    rw [Nat.zero_add, Array.length_toList]
  have hrows : base + (0 + table.toList.length) ≤ base + table.size := by omega
  exact getD_foldr_hangRow base slot build (base + table.size) table.toList 0 k hrows hk

end RubyOutline.ParentTable
