/-
RubyOutline/Proofs/MacroTable/Changes.lean

Changes of a macro table.  Callbacks are put in, replaced and taken out, one change after the other,
and all that recognition ever learns from a table about a method is its entry (`MacroTable.entry`).
A change has names that it mentions; the entry of every other method stays what it was
(`entry_change`), and so it does through any number of changes (`entry_changeAll`).
-/
import RubyOutline.MacroTable

namespace RubyOutline.MacroTable

/-! ### Entries -/

/-- What a table says about a method. -/
structure Entry where
  isTestAlias : Bool
  callback? : Option CallbackMacro
  isAttributeMacro : Bool
deriving DecidableEq

def entry (t : MacroTable) (method : String) : Entry :=
  ⟨t.isTestAlias method, t.callback? method, t.isAttributeMacro method⟩

/-! ### Changes -/

inductive Change
  | withCallbacks (macros : List CallbackMacro)
  | withoutCallbacks (names : List String)

/-- The names that a change mentions. -/
def Change.names : Change → List String
  | .withCallbacks macros => macros.map (·.name)
  | .withoutCallbacks names => names

def change (t : MacroTable) : Change → MacroTable
  | .withCallbacks macros => t.withCallbacks macros
  | .withoutCallbacks names => t.withoutCallbacks names

/-- The table after some changes, the first of them made first. -/
def changeAll (t : MacroTable) (changes : List Change) : MacroTable :=
  changes.foldl change t

/-! ### What is not mentioned -/

variable {method : String}

/-- A macro put in the place of its namesakes is not found under another name, and neither were
they. -/
theorem find?_map_replace (callbacks : List CallbackMacro) {m : CallbackMacro}
    (h : m.name ≠ method) :
    (callbacks.map fun c => if c.name == m.name then m else c).find? (·.name == method) =
      callbacks.find? (·.name == method) := by
  have hm : (m.name == method) = false := beq_eq_false_iff_ne.2 h
  induction callbacks with
  | nil => rfl
  | cons c callbacks ih =>
    rw [List.map_cons, List.find?_cons, List.find?_cons, ih]
    by_cases hname : c.name = m.name
    · rw [if_pos (beq_iff_eq.2 hname), hname, hm]
    · rw [if_neg (mt beq_iff_eq.1 hname)]

theorem find?_insertCallback (callbacks : List CallbackMacro) {m : CallbackMacro}
    (h : m.name ≠ method) :
    (insertCallback callbacks m).find? (·.name == method) =
      callbacks.find? (·.name == method) := by
  rw [insertCallback]
  split
  · exact find?_map_replace callbacks h
  · have hm : (m.name == method) = false := beq_eq_false_iff_ne.2 h
    rw [List.find?_append, List.find?_cons, hm, List.find?_nil, Option.or_none]

theorem find?_foldl_insertCallback {macros : List CallbackMacro} (callbacks : List CallbackMacro)
    (h : method ∉ macros.map (·.name)) :
    (macros.foldl insertCallback callbacks).find? (·.name == method) =
      callbacks.find? (·.name == method) := by
  induction macros generalizing callbacks with
  | nil => rfl
  | cons m macros ih =>
    rw [List.map_cons, List.mem_cons, not_or] at h
    rw [List.foldl_cons, ih _ h.2, find?_insertCallback _ (Ne.symm h.1)]

theorem callback?_withoutCallbacks (t : MacroTable) {names : List String} (h : method ∉ names) :
    (t.withoutCallbacks names).callback? method = t.callback? method := by
  rw [callback?, withoutCallbacks, List.find?_filter, callback?]
  congr 1
  funext c
  by_cases hname : c.name = method
  · simp [hname, h]
  · simp [hname]

theorem callback?_change (t : MacroTable) {change : Change} (h : method ∉ change.names) :
    (t.change change).callback? method = t.callback? method := by
  cases change with
  | withCallbacks macros => exact find?_foldl_insertCallback t.callbacks h
  | withoutCallbacks names => exact t.callback?_withoutCallbacks h

/-- A change leaves the entries of the methods it does not mention as they are. -/
theorem entry_change (t : MacroTable) {change : Change} (h : method ∉ change.names) :
    (t.change change).entry method = t.entry method := by
  rw [entry, callback?_change t h]
  cases change <;> rfl

theorem entry_changeAll (t : MacroTable) {changes : List Change}
    (h : ∀ change ∈ changes, method ∉ change.names) :
    (t.changeAll changes).entry method = t.entry method := by
  induction changes generalizing t with
  | nil => rfl
  | cons change changes ih =>
    rw [List.forall_mem_cons] at h
    rw [changeAll, List.foldl_cons, ← changeAll, ih _ h.2, t.entry_change h.1]

/-- Whether a superclass is a base class of tests is not a matter of callbacks. -/
theorem isTestBase_changeAll (t : MacroTable) (changes : List Change) :
    (t.changeAll changes).isTestBase = t.isTestBase := by
  induction changes generalizing t with
  | nil => rfl
  | cons change changes ih =>
    rw [changeAll, List.foldl_cons, ← changeAll, ih]
    cases change <;> rfl

end RubyOutline.MacroTable
