/-
RubyOutline/Proofs/SymbolBuilder/Numbers.lean

A builder's forest in which every symbol shows its number.  Two symbols can look alike in all they
say, so it is the numbers that tell whether a symbol is in the forest once or twice.
`NumberedSymbol` is a symbol with its number, and the builder's own forest is the numbered one
without the numbers (`roots_eq_map`, `flatMap_walk_roots`).

Read by numbers, the table of places says all about the forest.  The numbers of the roots, and of
the children of a symbol, are those of the entries placed there (`map_number_numberedRoots`,
`entry_of_mem_walked`), and no number occurs twice in the walk (`nodup_numbers`).  A symbol that
arrives joins the walk if it is placed among the roots or under a symbol of the walk, and not if it
is dropped (`mem_numbers_put`).
-/
import RubyOutline.Proofs.ParentTable
import RubyOutline.SymbolBuilder

namespace RubyOutline

/-! ### Symbols with numbers -/

/-- A symbol together with its number among all symbols that a builder has taken in. -/
structure NumberedSymbol where
  number : Nat
  info : SymbolInfo
  children : List NumberedSymbol

namespace NumberedSymbol

mutual

/-- The symbol without the numbers. -/
def symbol : NumberedSymbol → Symbol
  | ⟨_, info, children⟩ => ⟨info, symbols children⟩

def symbols : List NumberedSymbol → List Symbol
  | [] => []
  | t :: ts => t.symbol :: symbols ts

end

mutual

/-- A symbol and all those below it, in pre-order. -/
def walk : NumberedSymbol → List NumberedSymbol
  | ⟨number, info, children⟩ => ⟨number, info, children⟩ :: walkAll children

def walkAll : List NumberedSymbol → List NumberedSymbol
  | [] => []
  | t :: ts => t.walk ++ walkAll ts

end

theorem symbols_eq_map (ts : List NumberedSymbol) : symbols ts = ts.map symbol := by
  induction ts with
  | nil => rfl
  | cons t ts ih => rw [symbols, List.map_cons, ih]

theorem walkAll_eq_flatMap (ts : List NumberedSymbol) : walkAll ts = ts.flatMap walk := by
  induction ts with
  | nil => rfl
  | cons t ts ih => rw [walkAll, List.flatMap_cons, ih]

theorem symbol_mk (number : Nat) (info : SymbolInfo) (children : List NumberedSymbol) :
    symbol ⟨number, info, children⟩ = ⟨info, children.map symbol⟩ := by
  rw [symbol, symbols_eq_map]

theorem walk_mk (number : Nat) (info : SymbolInfo) (children : List NumberedSymbol) :
    walk ⟨number, info, children⟩ = ⟨number, info, children⟩ :: children.flatMap walk := by
  rw [walk, walkAll_eq_flatMap]

mutual

/-- The walk of a symbol goes through the same symbols, with or without numbers. -/
theorem walk_symbol : (t : NumberedSymbol) → t.symbol.walk = t.walk.map symbol
  | ⟨number, info, children⟩ => by
    rw [symbol, Symbol.walk, walk, List.map_cons, walkAll_symbols children, symbol]

theorem walkAll_symbols : (ts : List NumberedSymbol) →
    Symbol.walkAll (symbols ts) = (walkAll ts).map symbol
  | [] => rfl
  | t :: ts => by
    rw [symbols, Symbol.walkAll, walkAll, List.map_append, walk_symbol t, walkAll_symbols ts]

end

end NumberedSymbol

namespace SymbolBuilder

open ParentTable NumberedSymbol

/-! ### The numbered forest -/

/-- The slot that an entry names. -/
abbrev slotOf (e : SymbolInfo × Place) : Nat := slot e.2

/-- A numbered symbol out of its entry. -/
abbrev numbered (number : Nat) (e : SymbolInfo × Place) (children : List NumberedSymbol) :
    NumberedSymbol := ⟨number, e.1, children⟩

/-- The entries of a builder, hung into the slots of its forest with their numbers. -/
def numberedIn (b : SymbolBuilder) (k : Nat) : List NumberedSymbol :=
  ParentTable.slotsAfter 2 slotOf numbered (fun _ => []) b.entries.toList 0 k

/-- The roots with the numbers of all symbols. -/
def numberedRoots (b : SymbolBuilder) : List NumberedSymbol := b.numberedIn 0

/-- All symbols of the forest, in the order of the walks of the roots. -/
def walked (b : SymbolBuilder) : List NumberedSymbol := b.numberedRoots.flatMap walk

/-- The numbers of the symbols of the forest, in the order of the walks. -/
def numbers (b : SymbolBuilder) : List Nat := b.walked.map (·.number)

/-- The numbers of the entries with a place, in the order of arrival. -/
def placedAt (b : SymbolBuilder) (place : Place) : List Nat :=
  numbersIn slotOf b.entries.toList 0 (slot place)

variable (b : SymbolBuilder)

/-- The roots are the numbered ones without their numbers. -/
theorem roots_eq_map : b.roots = b.numberedRoots.map symbol := by
  have hsymbol : ∀ i (e : SymbolInfo × Place) children,
      symbol (numbered i e children) = (⟨e.1, children.map symbol⟩ : Symbol) :=
    fun i e children => symbol_mk i e.1 children
  rw [roots, forest, getD_hang 2 _ _ b.entries (by omega), numberedRoots, numberedIn,
    map_slotsAfter 2 slotOf numbered symbol hsymbol]

theorem flatMap_walk_roots : b.roots.flatMap Symbol.walk = b.walked.map symbol := by
  rw [roots_eq_map, walked, ← walkAll_eq_flatMap, ← walkAll_symbols, Symbol.walkAll_eq_flatMap,
    symbols_eq_map]

/-! ### Places -/

theorem slot_inj {p q : Place} (h : slot p = slot q) : p = q := by
  cases p <;> cases q <;> simp_all [slot]

theorem mem_placedAt_iff {place : Place} {n : Nat} :
    n ∈ b.placedAt place ↔ ∃ info, b.entries.toList[n]? = some (info, place) := by
  rw [placedAt, mem_numbersIn_iff]
  constructor
  · rintro ⟨⟨info, place'⟩, hentry, hslot⟩
    exact ⟨info, slot_inj hslot ▸ hentry⟩
  · rintro ⟨info, hentry⟩
    exact ⟨(info, place), hentry, rfl⟩

theorem pairwise_lt_placedAt (place : Place) : (b.placedAt place).Pairwise (· < ·) :=
  pairwise_lt_numbersIn slotOf b.entries.toList 0 (slot place)

theorem map_number_numberedRoots : b.numberedRoots.map (·.number) = b.placedAt .root :=
  map_number_slotsAfter 2 slotOf numbered (fun _ _ _ => rfl) b.entries.toList 0 0

/-- No entry hangs under a symbol that arrives after it. -/
def ParentsFirst (entries : List (SymbolInfo × Place)) : Prop :=
  ∀ n info parent, entries[n]? = some (info, Place.under parent) → parent < n

/-- A symbol of the forest says what its entry says, and its children are the symbols placed under
it. -/
theorem entry_of_mem_walked {t : NumberedSymbol} (hfirst : ParentsFirst b.entries.toList)
    (ht : t ∈ b.walked) :
    (∃ place, b.entries.toList[t.number]? = some (t.info, place)) ∧
      t.children.map (·.number) = b.placedAt (.under t.number) := by
  obtain ⟨earlier, row, later, hentries, rfl⟩ :=
    exists_row_of_mem 2 slotOf numbered (fun i e children => walk_mk i e.1 children) ht
  rw [Nat.zero_add]
  have hrow : b.entries.toList[earlier.length]? = some row := by
    rw [hentries]
    simp
  refine ⟨⟨row.2, hrow⟩, ?_⟩
  -- neither the symbol itself nor one that came before it hangs under it
  have hslot : ∀ n e, n ≤ earlier.length → b.entries.toList[n]? = some e →
      slotOf e ≠ slot (.under earlier.length) := by
    rintro n ⟨info, place⟩ hn hentry h
    obtain rfl : place = .under earlier.length := slot_inj h
    have := hfirst n info earlier.length hentry
    omega
  have hearlier : ∀ e ∈ earlier ++ [row], slotOf e ≠ slot (.under earlier.length) := by
    intro e he
    obtain ⟨n, hn, hget⟩ := List.mem_iff_getElem.1 he
    have hle : n ≤ earlier.length := by
      rw [List.length_append, List.length_singleton] at hn
      omega
    refine hslot n e hle ?_
    rw [hentries, ← List.singleton_append, ← List.append_assoc, List.getElem?_append_left hn,
      List.getElem?_eq_getElem hn, hget]
  rw [placedAt, hentries, ← List.singleton_append, ← List.append_assoc,
    numbersIn_append_of_forall_ne slotOf hearlier, List.length_append, List.length_singleton,
    Nat.zero_add, Nat.add_comm 2]
  exact map_number_slotsAfter 2 slotOf numbered (fun _ _ _ => rfl) later _ _

/-! ### Numbers of the walk -/

theorem numbers_eq_counted :
    b.numbers =
      counted 2 slotOf numbered (fun t => t.walk.map (·.number)) b.entries.toList 0 0 := by
  rw [numbers, walked, List.map_flatMap]
  rfl

theorem count_walk (i : Nat) (e : SymbolInfo × Place) (children : List NumberedSymbol) :
    (numbered i e children).walk.map (·.number) =
      i :: children.flatMap fun t => t.walk.map (·.number) := by
  rw [walk_mk, List.map_cons, List.map_flatMap]

/-- No symbol occurs twice. -/
theorem nodup_numbers : b.numbers.Nodup := by
  rw [numbers_eq_counted]
  exact (hungOnce_counted 2 slotOf numbered count_walk b.entries.toList 0).nodup 0 (by omega)

/-- A symbol that arrives joins the walk through its place. -/
theorem mem_numbers_put (info : SymbolInfo) (place : Place) (n : Nat) :
    n ∈ (b.put info place).numbers ↔
      n ∈ b.numbers ∨
      n = b.next ∧ (place = .root ∨ ∃ parent ∈ b.numbers, place = .under parent) := by
  have hlength : 0 + b.entries.toList.length = b.next := by
    rw [Nat.zero_add, Array.length_toList, next]
  have hslot : (∃ j ∈ b.numbers, slot place = 2 + j) ↔
      ∃ parent ∈ b.numbers, place = .under parent := by
    refine exists_congr fun parent => and_congr_right fun _ => ?_
    rw [← (show slot (.under parent) = 2 + parent from Nat.add_comm parent 2)]
    exact ⟨slot_inj, congrArg slot⟩
  have hroot : slot place = 0 ↔ place = .root := ⟨fun h => slot_inj h, congrArg slot⟩
  rw [numbers_eq_counted, put, Array.toList_push, mem_counted_concat 2 slotOf numbered count_walk,
    ← numbers_eq_counted, hlength, hslot, hroot]

theorem numbers_pushScope (symbol : Nat) (superclass : Option String) :
    (b.pushScope symbol superclass).numbers = b.numbers := rfl

theorem numbers_empty : empty.numbers = [] := rfl

end SymbolBuilder

end RubyOutline
