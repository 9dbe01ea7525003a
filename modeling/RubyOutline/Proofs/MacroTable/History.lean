/-
RubyOutline/Proofs/MacroTable/History.lean

What a macro table owes to its history.  However changes come together, they do to the callbacks one
thing after the other: a macro is put in, or the macros of some names are taken out (`Touch`).  The
last touch that settles a name decides what the table says about it (`find?_foldl_touch`).

Callbacks keep an order, and it too can be read off the history.  A name has come in at the touch
that put it in while it was absent and after which nothing took it out (`CameIn`); what replaces a
macro does not count.  One touch more leaves the names where they are, brings one at the end or
takes some out (`map_name_insertCallback`), so names stand in the order in which they came in
(`pairwise_cameIn`).

A table has its callbacks without keys, by their own names.  `Mapping` is what they stand for, and
changes of the table are changes of the mapping, written key by key (`mapping_changeAll`).  All
this together is what a table follows its history in (`Follows`, `follows_changeAll`).
-/
import Mathlib.Data.List.Induction
import RubyOutline.Proofs.MacroTable.Changes

namespace RubyOutline.MacroTable

/-! ### Touches -/

/-- One thing done to the callbacks of a table: a macro is put in, or the macros of some names are
taken out. -/
inductive Touch
  | put (m : CallbackMacro)
  | drop (names : List String)

/-- What a touch settles for a method: nothing, or the macro that the method has from then on. -/
def Touch.settles? (method : String) : Touch → Option (Option CallbackMacro)
  | .put m => if m.name = method then some (some m) else none
  | .drop names => if method ∈ names then some none else none

def Change.touches : Change → List Touch
  | .withCallbacks macros => macros.map .put
  | .withoutCallbacks names => [.drop names]

/-- What some changes do, one touch after the other. -/
def touches (changes : List Change) : List Touch := changes.flatMap Change.touches

/-- All that was ever done to a table, the callbacks it started with put in one by one. -/
def history (start : MacroTable) (changes : List Change) : List Touch :=
  start.callbacks.map .put ++ touches changes

/-- The macro that a method has from the last touch that settles it, or none. -/
def lastWord (h : List Touch) (method : String) : Option CallbackMacro :=
  (h.reverse.findSome? (·.settles? method)).join

/-- A name has come in with a touch: it was absent, and has not been taken out since. -/
def CameIn (h : List Touch) (name : String) (i : Nat) : Prop :=
  (∃ m, h[i]? = some (.put m) ∧ m.name = name) ∧ lastWord (h.take i) name = none ∧
    ∀ t ∈ h.drop (i + 1), t.settles? name ≠ some none

/-! ### Mappings -/

/-- A mapping from keys to macros, in the order in which its keys came in. -/
abbrev Mapping := List (String × CallbackMacro)

/-- Writes a key, in its place if it has one. -/
def Mapping.write (d : Mapping) (key : String) (m : CallbackMacro) : Mapping :=
  if d.any (·.1 == key) then d.map fun e => if e.1 == key then (e.1, m) else e
  else d ++ [(key, m)]

def Mapping.change (d : Mapping) : Change → Mapping
  | .withCallbacks macros => macros.foldl (fun d m => d.write m.name m) d
  | .withoutCallbacks names => d.filter fun e => !names.contains e.1

/-- A macro with its name for a key. -/
abbrev keyed (m : CallbackMacro) : String × CallbackMacro := (m.name, m)

/-- The mapping that the callbacks of a table stand for. -/
def mapping (t : MacroTable) : Mapping := t.callbacks.map keyed

/-! ### What a table owes to its history -/

/-- A table that some changes have made out of another one, and the mapping that the same changes
have made. -/
structure Follows (start : MacroTable) (changes : List Change) (t : MacroTable) (d : Mapping) :
    Prop where
  /-- The last touch that mentions a method decides, or else the table at the start. -/
  callback? : ∀ method, t.callback? method =
    ((touches changes).reverse.findSome? (·.settles? method)).getD (start.callback? method)
  /-- The callbacks are the macros of the mapping, and a method is looked up as a key. -/
  callbacks : t.callbacks = d.map (·.2)
  lookup : ∀ method, t.callback? method = (d.find? (·.1 == method)).map (·.2)
  keys_nodup : (d.map (·.1)).Nodup
  key_eq : ∀ e ∈ d, e.1 = e.2.name
  key_nonempty : ∀ e ∈ d, e.1 ≠ ""
  /-- The keys are the names that have come in, in the order in which they did. -/
  mem_keys : ∀ name, name ∈ d.map (·.1) ↔ ∃ i, CameIn (history start changes) name i
  keys_inOrder : (d.map (·.1)).Pairwise fun a b => ∀ i j,
    CameIn (history start changes) a i → CameIn (history start changes) b j → i < j

/-! ### One touch -/

/-- The callbacks after one more touch. -/
def touch (callbacks : List CallbackMacro) : Touch → List CallbackMacro
  | .put m => insertCallback callbacks m
  | .drop names => callbacks.filter fun c => !names.contains c.name

variable {callbacks : List CallbackMacro} {method name : String}

theorem callbacks_change (t : MacroTable) (change : Change) :
    (t.change change).callbacks = change.touches.foldl touch t.callbacks := by
  cases change with
  | withCallbacks macros =>
    rw [Change.touches, List.foldl_map]
    rfl
  | withoutCallbacks names => rfl

theorem callbacks_changeAll (t : MacroTable) (changes : List Change) :
    (t.changeAll changes).callbacks = (touches changes).foldl touch t.callbacks := by
  induction changes generalizing t with
  | nil => rfl
  | cons change changes ih =>
    rw [changeAll, List.foldl_cons, ← changeAll, ih, callbacks_change, touches, touches,
      List.flatMap_cons, List.foldl_append]

theorem any_name_iff :
    callbacks.any (·.name == name) = true ↔ name ∈ callbacks.map (·.name) := by
  simp

theorem mem_map_name_iff :
    name ∈ callbacks.map (·.name) ↔ callbacks.find? (·.name == name) ≠ none := by
  simp

/-- A macro put in is found under its name. -/
theorem find?_insertCallback_self (callbacks : List CallbackMacro) (m : CallbackMacro) :
    (insertCallback callbacks m).find? (·.name == m.name) = some m := by
  rw [insertCallback]
  split
  case isTrue h =>
    rw [any_name_iff] at h
    induction callbacks with
    | nil => cases h
    | cons c callbacks ih =>
      by_cases hname : c.name = m.name
      · simp [hname]
      · have htail : m.name ∈ callbacks.map (·.name) := by
          rcases List.mem_cons.1 h with h | h
          · exact absurd h.symm hname
          · exact h
        simpa [hname] using ih htail
  case isFalse h =>
    have hnone : callbacks.find? (·.name == m.name) = none := by simpa using h
    rw [List.find?_append, hnone]
    simp

theorem find?_touch (callbacks : List CallbackMacro) (t : Touch) :
    (touch callbacks t).find? (·.name == method) =
      (t.settles? method).getD (callbacks.find? (·.name == method)) := by
  cases t with
  | put m =>
    by_cases hname : m.name = method
    · rw [Touch.settles?, if_pos hname, Option.getD_some, ← hname]
      exact find?_insertCallback_self callbacks m
    · rw [Touch.settles?, if_neg hname, Option.getD_none]
      exact find?_insertCallback callbacks hname
  | drop names =>
    rw [touch, List.find?_filter]
    by_cases hname : method ∈ names
    · rw [Touch.settles?, if_pos hname, Option.getD_some, List.find?_eq_none]
      intro c _
      by_cases hc : c.name = method <;> simp [hc, hname]
    · rw [Touch.settles?, if_neg hname, Option.getD_none]
      congr 1
      funext c
      by_cases hc : c.name = method <;> simp [hc, hname]

/-- **The last touch that settles a method decides**, and if none does, what was there before. -/
theorem find?_foldl_touch (callbacks : List CallbackMacro) (h : List Touch) :
    (h.foldl touch callbacks).find? (·.name == method) =
      (h.reverse.findSome? (·.settles? method)).getD (callbacks.find? (·.name == method)) := by
  induction h generalizing callbacks with
  | nil => rfl
  | cons t h ih =>
    rw [List.foldl_cons, ih, find?_touch, List.reverse_cons, List.findSome?_append]
    cases h.reverse.findSome? (·.settles? method) with
    | some decided => rfl
    | none => cases ht : t.settles? method <;> simp [ht]

theorem find?_foldl_touch_nil (h : List Touch) :
    (h.foldl touch []).find? (·.name == method) = lastWord h method := by
  rw [find?_foldl_touch, lastWord]
  cases h.reverse.findSome? (·.settles? method) <;> rfl

theorem mem_map_name_foldl_touch {h : List Touch} :
    name ∈ (h.foldl touch []).map (·.name) ↔ lastWord h name ≠ none := by
  rw [mem_map_name_iff, find?_foldl_touch_nil]

/-- A macro put in stands where its namesake stood, or at the end. -/
theorem map_name_insertCallback (callbacks : List CallbackMacro) (m : CallbackMacro) :
    (insertCallback callbacks m).map (·.name) =
      if m.name ∈ callbacks.map (·.name) then callbacks.map (·.name)
      else callbacks.map (·.name) ++ [m.name] := by
  rw [insertCallback]
  split
  case isTrue h =>
    rw [if_pos (any_name_iff.1 h), List.map_map]
    refine List.map_congr_left fun c _ => ?_
    by_cases hname : c.name = m.name <;> simp [hname]
  case isFalse h => rw [if_neg (mt any_name_iff.2 h), List.map_append, List.map_singleton]

/-! ### The order of names -/

theorem lastWord_concat (h : List Touch) (t : Touch) (name : String) :
    lastWord (h ++ [t]) name = (t.settles? name).getD (lastWord h name) := by
  rw [lastWord, List.reverse_append, List.reverse_singleton, List.singleton_append,
    List.findSome?_cons, lastWord]
  cases t.settles? name <;> rfl

/-- With one more touch a name comes in, or it came in before and the touch does not take it out. -/
theorem cameIn_concat {h : List Touch} {t : Touch} {i : Nat} :
    CameIn (h ++ [t]) name i ↔
      (CameIn h name i ∧ t.settles? name ≠ some none) ∨
      (i = h.length ∧ (∃ m, t = .put m ∧ m.name = name) ∧ lastWord h name = none) := by
  rcases Nat.lt_trichotomy i h.length with hi | rfl | hi
  · -- an earlier touch: what comes after it has grown by the new one
    rw [CameIn, List.getElem?_append_left hi, List.take_append_of_le_length (by omega),
      List.drop_append_of_le_length (by omega), CameIn]
    simp only [List.mem_append, List.mem_singleton, or_imp, forall_and, forall_eq]
    constructor
    · rintro ⟨hput, habsent, hkept, ht⟩
      exact .inl ⟨⟨hput, habsent, hkept⟩, ht⟩
    · rintro (⟨⟨hput, habsent, hkept⟩, ht⟩ | ⟨rfl, -⟩)
      · exact ⟨hput, habsent, hkept, ht⟩
      · omega
  · simp [CameIn]
  · have hnot : ∀ h' : List Touch, h'.length ≤ i → ¬ CameIn h' name i := by
      rintro h' hlength ⟨⟨m, hput, -⟩, -⟩
      rw [List.getElem?_eq_none hlength] at hput
      cases hput
    have h₁ := hnot (h ++ [t]) (by rw [List.length_append, List.length_singleton]; omega)
    have h₂ := hnot h (by omega)
    simp only [h₁, h₂, false_and, false_or, false_iff, not_and]
    omega

theorem lt_length_of_cameIn {h : List Touch} {i : Nat} (hin : CameIn h name i) : i < h.length := by
  obtain ⟨⟨m, hput, -⟩, -⟩ := hin
  exact (List.getElem?_eq_some_iff.1 hput).1

/-- The names that are present are those that have come in. -/
theorem exists_cameIn_iff {h : List Touch} : (∃ i, CameIn h name i) ↔ lastWord h name ≠ none := by
  induction h using List.reverseRecOn with
  | nil => simp [CameIn, lastWord]
  | append_singleton h t ih =>
    rw [lastWord_concat]
    simp only [cameIn_concat, exists_or, exists_and_right, ih]
    cases t with
    | put m =>
      by_cases hname : m.name = name
      · -- the name is present from now on, whether it was there before or not
        by_cases hword : lastWord h name = none <;> simp [Touch.settles?, hname, hword]
      · simp [Touch.settles?, hname]
    | drop names => by_cases hname : name ∈ names <;> simp [Touch.settles?, hname]

/-- A name that is present has come in where it had before the touch. -/
theorem cameIn_of_concat {h : List Touch} {t : Touch} {i : Nat} (hin : CameIn (h ++ [t]) name i)
    (hname : lastWord h name ≠ none) : CameIn h name i := by
  rcases cameIn_concat.1 hin with ⟨hin, -⟩ | ⟨-, -, hnone⟩
  · exact hin
  · exact absurd hnone hname

/-- **Names stand in the order in which they came in.** -/
theorem pairwise_cameIn (h : List Touch) :
    ((h.foldl touch []).map (·.name)).Pairwise fun a b => ∀ i j,
      CameIn h a i → CameIn h b j → i < j := by
  induction h using List.reverseRecOn with
  | nil => exact .nil
  | append_singleton h t ih =>
    -- names that were there before keep their order
    have hold : ((h.foldl touch []).map (·.name)).Pairwise fun a b => ∀ i j,
        CameIn (h ++ [t]) a i → CameIn (h ++ [t]) b j → i < j := by
      refine ih.imp_of_mem fun ha hb hab i j hi hj => hab i j ?_ ?_
      · exact cameIn_of_concat hi (mem_map_name_foldl_touch.1 ha)
      · exact cameIn_of_concat hj (mem_map_name_foldl_touch.1 hb)
    rw [List.foldl_append, List.foldl_cons, List.foldl_nil]
    cases t with
    | put m =>
      rw [touch, map_name_insertCallback]
      split
      · exact hold
      case isFalse hnew =>
        refine List.pairwise_append.2 ⟨hold, List.pairwise_singleton .., ?_⟩
        intro a ha b hb i j hi hj
        obtain rfl := List.mem_singleton.1 hb
        have hlt := lt_length_of_cameIn
          (cameIn_of_concat hi (mem_map_name_foldl_touch.1 ha))
        -- the new name was absent, so it has come in with this touch
        rcases cameIn_concat.1 hj with ⟨hj, -⟩ | ⟨rfl, -⟩
        · exact absurd (mem_map_name_foldl_touch.2 (exists_cameIn_iff.1 ⟨j, hj⟩)) hnew
        · exact hlt
    | drop names => exact hold.sublist (List.filter_sublist.map _)

/-! ### Keys -/

theorem nodup_map_name_touch {t : Touch} (h : (callbacks.map (·.name)).Nodup) :
    ((touch callbacks t).map (·.name)).Nodup := by
  cases t with
  | put m =>
    rw [touch, map_name_insertCallback]
    split
    · exact h
    case isFalse hnew =>
      refine List.nodup_append.2 ⟨h, List.pairwise_singleton .., ?_⟩
      rintro a ha b hb rfl
      exact hnew (List.mem_singleton.1 hb ▸ ha)
  | drop names => exact h.sublist (List.filter_sublist.map _)

theorem nodup_map_name_foldl_touch (h : List Touch) (hnodup : (callbacks.map (·.name)).Nodup) :
    ((h.foldl touch callbacks).map (·.name)).Nodup := by
  induction h generalizing callbacks with
  | nil => exact hnodup
  | cons t h ih => exact ih (nodup_map_name_touch hnodup)

/-- Callbacks of different names, put in one by one, are those callbacks. -/
theorem foldl_insertCallback_of_nodup {macros : List CallbackMacro}
    (h : ((callbacks ++ macros).map (·.name)).Nodup) :
    macros.foldl insertCallback callbacks = callbacks ++ macros := by
  induction macros generalizing callbacks with
  | nil => rw [List.foldl_nil, List.append_nil]
  | cons m macros ih =>
    have hnew : m.name ∉ callbacks.map (·.name) := by
      rw [List.map_append, List.map_cons] at h
      exact fun hmem => (List.nodup_append.1 h).2.2 _ hmem _ List.mem_cons_self rfl
    rw [List.append_cons] at h
    rw [List.foldl_cons, insertCallback, if_neg (mt any_name_iff.1 hnew), ih h, ← List.append_cons]

/-- A table is its own history so far. -/
theorem callbacks_eq_foldl_touch (t : MacroTable) (h : (t.callbacks.map (·.name)).Nodup) :
    (t.callbacks.map Touch.put).foldl touch [] = t.callbacks := by
  rw [List.foldl_map]
  exact foldl_insertCallback_of_nodup h

theorem callbacks_changeAll_eq_history (t : MacroTable) (changes : List Change)
    (h : (t.callbacks.map (·.name)).Nodup) :
    (t.changeAll changes).callbacks = (history t changes).foldl touch [] := by
  rw [history, List.foldl_append, callbacks_eq_foldl_touch t h, callbacks_changeAll]

/-- Macros come from what was there or from what was put in. -/
theorem mem_foldl_touch {h : List Touch} {c : CallbackMacro} (hc : c ∈ h.foldl touch callbacks) :
    c ∈ callbacks ∨ .put c ∈ h := by
  induction h generalizing callbacks with
  | nil => exact .inl hc
  | cons t h ih =>
    rcases ih hc with hc | hc
    · cases t with
      | put m =>
        rw [touch, insertCallback] at hc
        split at hc
        · obtain ⟨c', hc', rfl⟩ := List.mem_map.1 hc
          split
          · exact .inr List.mem_cons_self
          · exact .inl hc'
        · rcases List.mem_append.1 hc with hc | hc
          · exact .inl hc
          · exact .inr (List.mem_singleton.1 hc ▸ List.mem_cons_self)
      | drop names => exact .inl (List.mem_filter.1 hc).1
    · exact .inr (List.mem_cons_of_mem _ hc)

theorem map_keyed_insertCallback (callbacks : List CallbackMacro) (m : CallbackMacro) :
    (insertCallback callbacks m).map keyed = Mapping.write (callbacks.map keyed) m.name m := by
  have hany : (callbacks.map keyed).any (·.1 == m.name) = callbacks.any (·.name == m.name) := by
    rw [List.any_map]
    rfl
  rw [insertCallback, Mapping.write, hany]
  split
  case isTrue =>
    rw [List.map_map, List.map_map]
    refine List.map_congr_left fun c _ => ?_
    by_cases hname : c.name = m.name <;> simp [hname]
  case isFalse => rw [List.map_append, List.map_singleton]

theorem mapping_change (t : MacroTable) (change : Change) :
    (t.change change).mapping = t.mapping.change change := by
  cases change with
  | withCallbacks macros =>
    rw [mapping, mapping, MacroTable.change, withCallbacks, Mapping.change]
    generalize t.callbacks = callbacks
    induction macros generalizing callbacks with
    | nil => rfl
    | cons m macros ih => rw [List.foldl_cons, List.foldl_cons, ih, map_keyed_insertCallback]
  | withoutCallbacks names =>
    rw [mapping, mapping, Mapping.change, List.filter_map]
    rfl

/-- Changes of a table are changes of its mapping. -/
theorem mapping_changeAll (t : MacroTable) (changes : List Change) :
    (t.changeAll changes).mapping = changes.foldl Mapping.change t.mapping := by
  induction changes generalizing t with
  | nil => rfl
  | cons change changes ih =>
    rw [changeAll, List.foldl_cons, ← changeAll, ih, mapping_change, List.foldl_cons]

theorem map_fst_mapping (t : MacroTable) :
    t.mapping.map (·.1) = t.callbacks.map (·.name) := by
  rw [mapping, List.map_map]
  rfl

theorem map_snd_mapping (t : MacroTable) : t.mapping.map (·.2) = t.callbacks := by
  rw [mapping, List.map_map]
  exact List.map_id _

theorem find?_mapping (t : MacroTable) (method : String) :
    (t.mapping.find? (·.1 == method)).map (·.2) = t.callback? method := by
  rw [mapping, List.find?_map, Option.map_map]
  exact Option.map_id'

/-! ### Tables and their histories -/

/-- The macros that a change puts in have names. -/
def Change.PutsNamed : Change → Prop
  | .withCallbacks macros => ∀ m ∈ macros, m.name ≠ ""
  | .withoutCallbacks _ => True

theorem name_ne_of_put_mem_touches {changes : List Change} {m : CallbackMacro}
    (hnamed : ∀ change ∈ changes, change.PutsNamed) (hm : .put m ∈ touches changes) :
    m.name ≠ "" := by
  obtain ⟨change, hchange, hm⟩ := List.mem_flatMap.1 hm
  cases change with
  | withCallbacks macros =>
    obtain ⟨m', hm', h⟩ := List.mem_map.1 hm
    cases h
    exact hnamed _ hchange m hm'
  | withoutCallbacks names => simp [Change.touches] at hm

/-- A table that started with callbacks of different names follows its history. -/
theorem follows_changeAll (start : MacroTable) (changes : List Change)
    (hnodup : (start.callbacks.map (·.name)).Nodup) (hstart : ∀ c ∈ start.callbacks, c.name ≠ "")
    (hnamed : ∀ change ∈ changes, change.PutsNamed) :
    Follows start changes (start.changeAll changes)
      (changes.foldl Mapping.change start.mapping) := by
  have hcallbacks := callbacks_changeAll_eq_history start changes hnodup
  rw [← mapping_changeAll]
  exact {
    callback? := fun method => by
      rw [MacroTable.callback?, callbacks_changeAll, find?_foldl_touch, MacroTable.callback?]
    callbacks := (map_snd_mapping _).symm
    lookup := fun method => (find?_mapping _ method).symm
    keys_nodup := by
      rw [map_fst_mapping, callbacks_changeAll]
      exact nodup_map_name_foldl_touch _ hnodup
    key_eq := fun e he => by
      obtain ⟨c, -, rfl⟩ := List.mem_map.1 he
      rfl
    key_nonempty := fun e he => by
      obtain ⟨c, hc, rfl⟩ := List.mem_map.1 he
      rw [callbacks_changeAll] at hc
      rcases mem_foldl_touch hc with hc | hc
      · exact hstart c hc
      · exact name_ne_of_put_mem_touches hnamed hc
    mem_keys := fun name => by
      rw [map_fst_mapping, hcallbacks, mem_map_name_foldl_touch, exists_cameIn_iff]
    keys_inOrder := by
      rw [map_fst_mapping, hcallbacks]
      exact pairwise_cameIn _ }

end RubyOutline.MacroTable
