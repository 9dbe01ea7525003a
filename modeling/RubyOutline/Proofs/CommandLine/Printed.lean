/-
RubyOutline/Proofs/CommandLine/Printed.lean

What printing makes of reports, taken apart again.  Escape sequences are dropped from the text as a
whole, but none of them goes beyond the end of a line (`Text.dropEscapes_append`); as the listing of
a file consists of whole lines, the reports of files can be printed one by one
(`CommandLine.printed_tree_append`).

Outlines in JSON are written into one object.  An entry under a key that is there already takes the
place of the older one, and as long as the two are the same nothing changes: the object has the
entries that were written, each key where it came first (`Value.exists_ofEntries`).
-/
import Mathlib.Data.List.Induction
import RubyOutline.CommandLine.Run

namespace RubyOutline

/-! ### Escape sequences and lines -/

namespace Text

theorem dropWhile_append_cons {α : Type} {p : α → Bool} {x : α} (hx : p x = false)
    (xs ys : List α) :
    (xs ++ x :: ys).dropWhile p = xs.dropWhile p ++ x :: ys := by
  rw [List.dropWhile_append]
  split
  · rename_i hempty
    rw [List.isEmpty_iff.1 hempty, List.nil_append, List.dropWhile_cons_of_neg (by simp [hx])]
  · rfl

/-- A line feed is no part of an escape sequence. -/
theorem afterEscape?_append (cs ds : List Char) :
    afterEscape? (cs ++ '\n' :: ds) = (afterEscape? cs).map (· ++ '\n' :: ds) := by
  rw [afterEscape?, afterEscape?, dropWhile_append_cons (by decide),
    dropWhile_append_cons (by decide)]
  cases (cs.dropWhile isParameter).dropWhile isIntermediate with
  | nil => rfl
  | cons c rest =>
    dsimp only [List.cons_append]
    split <;> rfl

theorem dropEscapes_of_afterEscape? {rest after : List Char} (h : afterEscape? rest = some after) :
    dropEscapes ('\x1b' :: '[' :: rest) = dropEscapes after := by
  rw [dropEscapes]
  split
  · rename_i found hfound
    rw [Option.some.inj (h.symm.trans hfound)]
  · rename_i hnone
    cases h.symm.trans hnone

theorem dropEscapes_of_afterEscape?_eq_none {rest : List Char} (h : afterEscape? rest = none) :
    dropEscapes ('\x1b' :: '[' :: rest) = '\x1b' :: '[' :: dropEscapes rest := by
  rw [dropEscapes]
  split
  · rename_i found hfound
    cases h.symm.trans hfound
  · rfl

/-- Lines keep to themselves: no escape sequence goes beyond a line feed. -/
theorem dropEscapes_append (cs ds : List Char) :
    dropEscapes (cs ++ '\n' :: ds) = dropEscapes cs ++ '\n' :: dropEscapes ds := by
  fun_induction dropEscapes cs with
  | case1 => exact dropEscapes.eq_3 '\n' ds (by simp)
  | case2 rest after hafter ih =>
    have happend : afterEscape? (rest ++ '\n' :: ds) = some (after ++ '\n' :: ds) := by
      rw [afterEscape?_append, hafter]
      rfl
    rw [List.cons_append, List.cons_append, dropEscapes_of_afterEscape? happend, ih]
  | case3 rest hafter ih =>
    have happend : afterEscape? (rest ++ '\n' :: ds) = none := by
      rw [afterEscape?_append, hafter]
      rfl
    rw [List.cons_append, List.cons_append, dropEscapes_of_afterEscape?_eq_none happend, ih]
    rfl
  | case4 c rest hother ih =>
    rw [List.cons_append, dropEscapes.eq_3, ih, List.cons_append]
    intro rest' hc hrest
    cases rest with
    | nil => cases hrest
    | cons d rest =>
      rw [List.cons_append, List.cons_eq_cons] at hrest
      exact hother rest hc (by rw [hrest.1])

/-- Whole lines, or nothing at all. -/
def IsLines (s : String) : Prop := s = "" ∨ ∃ t, s = t ++ "\n"

theorem IsLines.append {s t : String} (hs : IsLines s) (ht : IsLines t) : IsLines (s ++ t) := by
  rcases ht with rfl | ⟨last, rfl⟩
  · rwa [String.append_empty]
  · exact .inr ⟨s ++ last, (String.append_assoc ..).symm⟩

theorem isLines_join {ss : List String} (h : ∀ s ∈ ss, IsLines s) : IsLines (String.join ss) := by
  induction ss with
  | nil => exact .inl rfl
  | cons s ss ih =>
    obtain ⟨hs, hss⟩ := List.forall_mem_cons.1 h
    rw [String.join_cons]
    exact hs.append (ih hss)

theorem withoutEscapes_empty : withoutEscapes "" = "" := by
  rw [withoutEscapes, String.toList_empty, dropEscapes, String.ofList_nil]

theorem withoutEscapes_append {s : String} (hs : IsLines s) (t : String) :
    withoutEscapes (s ++ t) = withoutEscapes s ++ withoutEscapes t := by
  rcases hs with rfl | ⟨first, rfl⟩
  · rw [withoutEscapes_empty, String.empty_append, String.empty_append]
  · have hone : dropEscapes (first.toList ++ ['\n']) = dropEscapes first.toList ++ ['\n'] := by
      rw [dropEscapes_append, dropEscapes]
    have hnewline : "\n".toList = ['\n'] := rfl
    simp only [withoutEscapes, String.toList_append, hnewline, List.append_assoc,
      List.singleton_append, dropEscapes_append, hone, ← String.ofList_append]

end Text

namespace CommandLine

theorem isLines_listing (r : FileReport) : Text.IsLines r.listing := by
  rw [FileReport.listing]
  split
  · refine Text.isLines_join fun line hline => ?_
    obtain ⟨t, -, rfl⟩ := List.mem_map.1 hline
    exact .inr ⟨t, rfl⟩
  · exact .inl rfl

/-- The listings of reports are printed one by one. -/
theorem printed_tree_append (xs ys : List FileReport) (ended : Bool) :
    printed .tree (xs ++ ys) ended = printed .tree xs ended ++ printed .tree ys ended := by
  have hlines : Text.IsLines (String.join (xs.map (·.listing))) := by
    refine Text.isLines_join fun s hs => ?_
    obtain ⟨r, -, rfl⟩ := List.mem_map.1 hs
    exact isLines_listing r
  simp only [printed]
  rw [List.map_append, String.join_append, Text.withoutEscapes_append hlines]

end CommandLine

/-! ### Entries of an object -/

namespace Value

theorem any_sameKey_iff (entries : List (String × Value)) (key : String) :
    ((entries.map fun (k, v) => (string k, v)).any (·.1.sameKey (.string key))) ↔
      key ∈ entries.map (·.1) := by
  have hkeys : ∀ a : String, (string a).sameKey (.string key) = (a == key) := fun _ => rfl
  simp [List.any_map, hkeys, Function.comp_def]

/-- An entry that is there already is written over itself. -/
theorem insertEntry_of_mem {entries : List (String × Value)} {key : String} {value : Value}
    (hmem : key ∈ entries.map (·.1)) (h : ∀ e ∈ entries, e.1 = key → e.2 = value) :
    insertEntry (entries.map fun (k, v) => (string k, v)) (.string key) value =
      entries.map fun (k, v) => (string k, v) := by
  rw [insertEntry, if_pos ((any_sameKey_iff entries key).2 hmem), List.map_map]
  refine List.map_congr_left fun e he => ?_
  show (if e.1 == key then (string e.1, value) else (string e.1, e.2)) = (string e.1, e.2)
  split
  · rename_i hkey
    rw [h e he (beq_iff_eq.1 hkey)]
  · rfl

theorem insertEntry_of_not_mem {entries : List (String × Value)} {key : String} (value : Value)
    (hmem : key ∉ entries.map (·.1)) :
    insertEntry (entries.map fun (k, v) => (string k, v)) (.string key) value =
      (entries ++ [(key, value)]).map fun (k, v) => (string k, v) := by
  rw [insertEntry, if_neg (mt (any_sameKey_iff entries key).1 hmem), List.map_append]
  rfl

/-- A key that comes again at the end adds nothing to the keys, and another one adds itself. -/
theorem eraseDups_concat (keys : List String) (key : String) :
    (keys ++ [key]).eraseDups = if key ∈ keys then keys.eraseDups else keys.eraseDups ++ [key] := by
  rw [List.eraseDups_append]
  by_cases h : key ∈ keys
  · simp [h, List.removeAll]
  · have hone : [key].eraseDups = [key] := rfl
    simp [h, List.removeAll, hone]

/-- Entries that agree where they have the same key are all written, each key where it came
first. -/
theorem exists_ofEntries {entries : List (String × Value)}
    (h : ∀ a ∈ entries, ∀ b ∈ entries, a.1 = b.1 → a = b) :
    ∃ written, ofEntries (entries.map fun (k, v) => (.string k, v)) = .object written ∧
      written.map (·.1) = (entries.map (·.1)).eraseDups ∧ ∀ e, e ∈ written ↔ e ∈ entries := by
  induction entries using List.reverseRecOn with
  | nil => exact ⟨[], rfl, rfl, fun e => Iff.rfl⟩
  | append_singleton entries entry ih =>
    obtain ⟨written, hwritten, hkeys, hmem⟩ := ih fun a ha b hb =>
      h a (List.mem_append_left _ ha) b (List.mem_append_left _ hb)
    have hsame : ∀ e ∈ written, e.1 = entry.1 → e = entry := fun e he =>
      h e (List.mem_append_left _ ((hmem e).1 he)) entry (by simp)
    have hstep : ofEntries ((entries ++ [entry]).map fun (k, v) => (.string k, v)) =
        .map (insertEntry (written.map fun (k, v) => (string k, v)) (.string entry.1) entry.2) := by
      have hbefore : writtenEntries (entries.map fun (k, v) => (string k, v)) =
          written.map fun (k, v) => (string k, v) := Value.map.inj hwritten
      rw [ofEntries, writtenEntries, List.map_append, List.foldl_append, ← writtenEntries, hbefore]
      rfl
    have hold : entry.1 ∈ entries.map (·.1) ↔ entry.1 ∈ written.map (·.1) := by
      rw [hkeys, List.mem_eraseDups]
    rw [hstep, List.map_append, List.map_singleton, eraseDups_concat, ← hkeys]
    by_cases hkey : entry.1 ∈ written.map (·.1)
    · obtain ⟨e, he, hekey⟩ := List.mem_map.1 hkey
      have hentry : entry ∈ written := hsame e he hekey ▸ he
      refine ⟨written, ?_, (if_pos (hold.2 hkey)).symm, fun e => ?_⟩
      · rw [insertEntry_of_mem hkey fun e he hekey => by rw [hsame e he hekey]]
        rfl
      · rw [List.mem_append, List.mem_singleton, ← hmem]
        exact ⟨.inl, fun he => he.elim id fun heq => heq ▸ hentry⟩
    · refine ⟨written ++ [entry], ?_, ?_, fun e => ?_⟩
      · rw [insertEntry_of_not_mem _ hkey]
        rfl
      · rw [if_neg (mt hold.1 hkey), List.map_append, List.map_singleton]
      · rw [List.mem_append, List.mem_append, hmem]

end Value

end RubyOutline
