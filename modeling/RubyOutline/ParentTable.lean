/-
RubyOutline/ParentTable.lean

Forests written as tables.  A row names the slot it hangs in.  The first `base` slots are lists
of their own (the roots, say), and slot `base + i` holds the children of row `i`, in the order of
the table.  `ParentTable.hang` builds every node from its row and its finished children: it goes
through the table from the last row to the first, so whenever rows come after the row they hang
under, a node's children are complete when it is built.
-/

namespace RubyOutline.ParentTable

variable {α β : Type}

/-- All slots, filled. -/
def hang (base : Nat) (slot : α → Nat) (build : Nat → α → List β → β) (table : Array α) :
    Array (List β) :=
  table.toList.zipIdx.foldr
    (fun (row, i) slots =>
      slots.modify (slot row) (build i row (slots.getD (base + i) []) :: ·))
    (Array.replicate (base + table.size) [])

end RubyOutline.ParentTable
