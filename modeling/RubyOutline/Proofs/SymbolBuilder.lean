/-
RubyOutline/Proofs/SymbolBuilder.lean

What a builder's forest gains when whole trees are taken in.  `putTrees` writes the rows of the
trees in pre-order to the end of the table, every row after the one it hangs under, and those rows
together do to the slots what hanging the finished trees in their place would do
(`write_putTrees`).  So trees that are taken in at the roots stand behind the roots already there
(`roots_putTrees_root`), and what is dropped leaves no trace (`roots_put_nowhere`).
-/
import RubyOutline.Proofs.ParentTable
import RubyOutline.SymbolBuilder

namespace RubyOutline

namespace SymbolBuilder

open ParentTable

/-! ### What taking in trees leaves as it was -/

@[simp] theorem putTrees_nil (b : SymbolBuilder) (place : Place) : b.putTrees place [] = b := by
  rw [putTrees]

theorem putTrees_cons (b : SymbolBuilder) (place : Place) (s : Symbol) (ss : List Symbol) :
    b.putTrees place (s :: ss) = (b.putTree place s).putTrees place ss := by
  rw [putTrees]

theorem putTree_eq (b : SymbolBuilder) (place : Place) (s : Symbol) :
    b.putTree place s = (b.put s.info place).putTrees (.under b.next) s.children := by
  cases s
  rw [putTree]

@[simp] theorem putTree_leaf (b : SymbolBuilder) (place : Place) (info : SymbolInfo) :
    b.putTree place (.leaf info) = b.put info place := by
  rw [putTree_eq, Symbol.leaf, putTrees_nil]

theorem putTrees_append (b : SymbolBuilder) (place : Place) (ss ts : List Symbol) :
    b.putTrees place (ss ++ ts) = (b.putTrees place ss).putTrees place ts := by
  induction ss generalizing b with
  | nil => rw [List.nil_append, putTrees_nil]
  | cons s ss ih => rw [List.cons_append, putTrees_cons, putTrees_cons, ih]

mutual

/-- Taking in a tree does not look at the open scopes. -/
theorem putTree_withScopes (b : SymbolBuilder) (scopes : List Scope) (place : Place) :
    (s : Symbol) →
      { b with scopes := scopes }.putTree place s = { b.putTree place s with scopes := scopes }
  | ⟨info, children⟩ => by
    rw [putTree_eq, putTree_eq]
    exact putTrees_withScopes (b.put info place) scopes (.under b.next) children

theorem putTrees_withScopes (b : SymbolBuilder) (scopes : List Scope) (place : Place) :
    (ss : List Symbol) →
      { b with scopes := scopes }.putTrees place ss = { b.putTrees place ss with scopes := scopes }
  | [] => by rw [putTrees_nil, putTrees_nil]
  | s :: ss => by
    rw [putTrees_cons, putTrees_cons, putTree_withScopes b scopes place s]
    exact putTrees_withScopes (b.putTree place s) scopes place ss

end

@[simp] theorem scopes_putTrees (b : SymbolBuilder) (place : Place) (ss : List Symbol) :
    (b.putTrees place ss).scopes = b.scopes := by
  have h : b.putTrees place ss = { b.putTrees place ss with scopes := b.scopes } :=
    putTrees_withScopes b b.scopes place ss
  rw [h]

/-! ### The rows of trees -/

/-- The slots that rows fill, numbered from `i` on, before which the slots are `filled`. -/
abbrev slotsAfter (filled : Nat → List Symbol) (rows : List (SymbolInfo × Place)) (i : Nat) :
    Nat → List Symbol :=
  ParentTable.slotsAfter 2 (fun e : SymbolInfo × Place => slot e.2)
    (fun _ e children => ⟨e.1, children⟩) filled rows i

/-- Rows numbered from `i` on that stand for some trees hung in a slot: they add the trees to that
slot and nothing to the other slots of earlier rows. -/
def Write (place : Place) (ss : List Symbol) (i : Nat) (rows : List (SymbolInfo × Place)) : Prop :=
  ∀ filled : Nat → List Symbol,
    (∀ j, i ≤ j → j < i + rows.length → filled (2 + j) = []) →
    ∀ k, k < 2 + i →
      slotsAfter filled rows i k = if k = slot place then ss ++ filled k else filled k

theorem Write.nil (place : Place) (i : Nat) : Write place [] i [] := by
  intro filled _ k _
  rw [slotsAfter, slotsAfter_nil, List.nil_append, ite_self]

theorem Write.append {place : Place} {ss ts : List Symbol} {i : Nat}
    {xs ys : List (SymbolInfo × Place)} (hplace : slot place < 2 + i) (hx : Write place ss i xs)
    (hy : Write place ts (i + xs.length) ys) : Write place (ss ++ ts) i (xs ++ ys) := by
  intro filled hfilled k hk
  rw [List.length_append] at hfilled
  have hfilledY : ∀ j, i + xs.length ≤ j → j < i + xs.length + ys.length →
      filled (2 + j) = [] := fun j hj hlt => hfilled j (by omega) (by omega)
  -- the later rows leave the slots of the earlier ones empty
  have hys : ∀ k, k < 2 + (i + xs.length) →
      slotsAfter filled ys (i + xs.length) k =
        if k = slot place then ts ++ filled k else filled k := hy filled hfilledY
  rw [slotsAfter, slotsAfter_append, ← slotsAfter, ← slotsAfter, hx _ ?_ k hk, hys k (by omega)]
  · split
    · rw [List.append_assoc]
    · rfl
  · intro j hj hlt
    rw [hys (2 + j) (by omega), if_neg (by omega)]
    exact hfilled j hj (by omega)

/-- The row of a symbol in front of the rows of its children. -/
theorem Write.cons {place : Place} {info : SymbolInfo} {children : List Symbol} {i : Nat}
    {rows : List (SymbolInfo × Place)} (h : Write (.under i) children (i + 1) rows) :
    Write place [⟨info, children⟩] i ((info, place) :: rows) := by
  intro filled hfilled k hk
  rw [List.length_cons] at hfilled
  have hrows : ∀ k, k < 2 + (i + 1) → slotsAfter filled rows (i + 1) k =
      if k = slot (.under i) then children ++ filled k else filled k :=
    h filled fun j hj hlt => hfilled j (by omega) (by omega)
  have hslot : slot (.under i) = 2 + i := Nat.add_comm i 2
  have hown : filled (2 + i) = [] := hfilled i (Nat.le_refl i) (by omega)
  -- the row finds just its children in its slot, and the slots of earlier rows untouched
  have hchildren : slotsAfter filled rows (i + 1) (2 + i) = children := by
    rw [hrows (2 + i) (by omega), if_pos hslot.symm, hown, List.append_nil]
  have hothers : slotsAfter filled rows (i + 1) k = filled k := by
    rw [hrows k (by omega), if_neg (by omega)]
  rw [slotsAfter, slotsAfter_cons, ← slotsAfter, hchildren, hothers]
  rfl

mutual

/-- Taking in a tree adds rows that stand for it. -/
theorem write_putTree (b : SymbolBuilder) (place : Place) :
    (s : Symbol) → ∃ rows, (b.putTree place s).entries.toList = b.entries.toList ++ rows ∧
      Write place [s] b.next rows
  | ⟨info, children⟩ => by
    have hnext : (b.put info place).next = b.next + 1 := Array.size_push ..
    obtain ⟨rows, hrows, hwrite⟩ := write_putTrees (b.put info place) (.under b.next)
      (by rw [hnext, slot]; omega) children
    rw [hnext] at hwrite
    refine ⟨(info, place) :: rows, ?_, .cons hwrite⟩
    rw [putTree_eq, hrows, put, Array.toList_push, List.append_assoc, List.singleton_append]

theorem write_putTrees (b : SymbolBuilder) (place : Place) (hplace : slot place < 2 + b.next) :
    (ss : List Symbol) → ∃ rows, (b.putTrees place ss).entries.toList = b.entries.toList ++ rows ∧
      Write place ss b.next rows
  | [] => ⟨[], by rw [putTrees_nil, List.append_nil], .nil place b.next⟩
  | s :: ss => by
    obtain ⟨xs, hxs, hwriteX⟩ := write_putTree b place s
    have hnext : (b.putTree place s).next = b.next + xs.length := by
      rw [next, next, ← Array.length_toList, hxs, List.length_append, Array.length_toList]
    obtain ⟨ys, hys, hwriteY⟩ := write_putTrees (b.putTree place s) place (by omega) ss
    rw [hnext] at hwriteY
    refine ⟨xs ++ ys, ?_, .append hplace hwriteX hwriteY⟩
    rw [putTrees_cons, hys, hxs, List.append_assoc]

end

/-! ### Roots -/

theorem roots_eq_slotsAfter (b : SymbolBuilder) :
    b.roots = slotsAfter (fun _ => []) b.entries.toList 0 0 := by
  rw [roots, forest, getD_hang 2 _ _ b.entries (by omega)]

@[simp] theorem roots_empty : empty.roots = [] := roots_eq_slotsAfter empty

/-- Rows added at the end of a table change the roots by what they leave in the slot of the
roots, if none of them hangs under an earlier row. -/
theorem roots_of_write {b b' : SymbolBuilder} {place : Place} {ss : List Symbol}
    {rows : List (SymbolInfo × Place)} (hplace : slot place < 2)
    (hentries : b'.entries.toList = b.entries.toList ++ rows)
    (hwrite : Write place ss b.next rows) :
    b'.roots = if place = .root then b.roots ++ ss else b.roots := by
  have hrows : ∀ k, k < 2 + b.next → slotsAfter (fun _ => []) rows b.next k =
      if k = slot place then ss ++ [] else [] := hwrite (fun _ => []) fun _ _ _ => rfl
  have hlen : 0 + b.entries.toList.length = b.next := by
    rw [Nat.zero_add, Array.length_toList, next]
  rw [roots_eq_slotsAfter, roots_eq_slotsAfter, hentries, slotsAfter, slotsAfter_append, hlen,
    slotsAfter_eq_append, ← slotsAfter, ← slotsAfter, hrows 0 (by omega)]
  · cases place with
    | root => simp [slot]
    | nowhere => simp [slot]
    | under symbol => simp [slot]
  · intro j _ hlt
    rw [← slotsAfter, hrows (2 + j) (by omega), if_neg (by omega)]

/-- Trees taken in at the roots stand behind the roots already there, in their order. -/
theorem roots_putTrees_root (b : SymbolBuilder) (ss : List Symbol) :
    (b.putTrees .root ss).roots = b.roots ++ ss := by
  obtain ⟨rows, hentries, hwrite⟩ := write_putTrees b .root (by rw [slot]; omega) ss
  rw [roots_of_write (by decide) hentries hwrite, if_pos rfl]

/-- A dropped symbol leaves the roots as they are. -/
theorem roots_put_nowhere (b : SymbolBuilder) (info : SymbolInfo) :
    (b.put info .nowhere).roots = b.roots := by
  obtain ⟨rows, hentries, hwrite⟩ := write_putTree b .nowhere (.leaf info)
  rw [putTree_leaf] at hentries
  rw [roots_of_write (by decide) hentries hwrite, if_neg (by decide)]

end SymbolBuilder

end RubyOutline
