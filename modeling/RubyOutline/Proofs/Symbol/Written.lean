/-
RubyOutline/Proofs/Symbol/Written.lean

Symbols as they are written for a client and for a reader.

The value that a client is sent can be read back: every entry of it is looked up by its key, the
kind by its number, and the children one by one (`Symbol.ofLsp?`).  Reading gives back the symbol
that was written, whatever its depth and width (`Symbol.ofLsp?_toLsp`), so no two outlines are
written alike.

The list for a reader has a line for each symbol in the order of the walk.  How far a line is
indented is said by the symbols above its own (`Symbol.walkUnder`), from which it hangs by a chain
of parents (`Symbol.HangsUnder`).
-/
import RubyOutline.Proofs.CommandLine.Printed

namespace RubyOutline

/-! ### Reading values -/

namespace Value

def nat? : Value → Option Nat
  | .int (.ofNat n) => some n
  | _ => none

def string? : Value → Option String
  | .string s => some s
  | _ => none

/-- What is found in a map is smaller than the map. -/
theorem sizeOf_lt_of_lookup? {key : String} {found : Value} {entries : List (Value × Value)}
    (h : lookup? key entries = some found) : sizeOf found < sizeOf entries := by
  obtain ⟨⟨k, v⟩, hmem, hfound⟩ := List.exists_of_findSome?_eq_some h
  have hsize : sizeOf (k, v) < sizeOf entries := List.sizeOf_lt_of_mem hmem
  cases k with
  | string name =>
    simp only [Option.ite_none_right_eq_some, Option.some.injEq] at hfound
    obtain ⟨-, rfl⟩ := hfound
    simp only [Prod.mk.sizeOf_spec] at hsize
    omega
  | _ => cases hfound

theorem sizeOf_lt_of_get? {v found : Value} {key : String} (h : v.get? key = some found) :
    sizeOf found < sizeOf v := by
  cases v with
  | map entries =>
    have hfound : sizeOf found < sizeOf entries := sizeOf_lt_of_lookup? h
    simp only [map.sizeOf_spec]
    omega
  | _ => cases h

/-- The items of a list that is found in a map are smaller than the map. -/
theorem sizeOf_lt_of_mem_get? {v item : Value} {items : List Value} {key : String}
    (h : v.get? key = some (.list items)) (hitem : item ∈ items) : sizeOf item < sizeOf v := by
  have hlist : sizeOf (list items) < sizeOf v := sizeOf_lt_of_get? h
  have hsize : sizeOf item < sizeOf items := List.sizeOf_lt_of_mem hitem
  simp only [list.sizeOf_spec] at hlist
  omega

end Value

/-! ### Reading what a client is sent -/

def Position.ofLsp? (v : Value) : Option Position := do
  let line ← (v.get? "line").bind Value.nat?
  let character ← (v.get? "character").bind Value.nat?
  return ⟨line, character⟩

def SourceRange.ofLsp? (v : Value) : Option SourceRange := do
  let start ← (v.get? "start").bind Position.ofLsp?
  let stop ← (v.get? "end").bind Position.ofLsp?
  return ⟨start, stop⟩

def SymbolInfo.ofLsp? (v : Value) : Option SymbolInfo := do
  let name ← (v.get? "name").bind Value.string?
  let code ← (v.get? "kind").bind Value.nat?
  let kind ← SymbolKind.ofCode? code
  let range ← (v.get? "range").bind SourceRange.ofLsp?
  let selectionRange ← (v.get? "selectionRange").bind SourceRange.ofLsp?
  return ⟨name, kind, range, selectionRange⟩

theorem Position.ofLsp?_toLsp (p : Position) : ofLsp? p.toLsp = some p := rfl

theorem SourceRange.ofLsp?_toLsp (r : SourceRange) : ofLsp? r.toLsp = some r := by
  have hstart : (r.toLsp.get? "start").bind Position.ofLsp? = some r.start :=
    Position.ofLsp?_toLsp r.start
  have hstop : (r.toLsp.get? "end").bind Position.ofLsp? = some r.stop :=
    Position.ofLsp?_toLsp r.stop
  rw [ofLsp?, hstart, hstop]
  rfl

/-- The entry of a symbol is read back whatever stands for its children. -/
theorem SymbolInfo.ofLsp?_toLsp (info : SymbolInfo) (children : List Value) :
    ofLsp? (info.toLsp children) = some info := by
  have hname : ((info.toLsp children).get? "name").bind Value.string? = some info.name := rfl
  have hkind : ((info.toLsp children).get? "kind").bind Value.nat? = some info.kind.code := rfl
  have hrange : ((info.toLsp children).get? "range").bind SourceRange.ofLsp? = some info.range :=
    SourceRange.ofLsp?_toLsp info.range
  have hselection : ((info.toLsp children).get? "selectionRange").bind SourceRange.ofLsp? =
      some info.selectionRange := SourceRange.ofLsp?_toLsp info.selectionRange
  rw [ofLsp?, hname, hkind, hrange, hselection]
  simp only [Option.bind_eq_bind, Option.bind_some, SymbolKind.ofCode?_code]
  rfl

namespace Symbol

/-- The symbol that a value writes. -/
def ofLsp? (v : Value) : Option Symbol := do
  let info ← SymbolInfo.ofLsp? v
  match _h : v.get? "children" with
  | some (.list items) => return ⟨info, ← items.attach.mapM fun item => ofLsp? item.1⟩
  | _ => none
termination_by sizeOf v
decreasing_by exact Value.sizeOf_lt_of_mem_get? _h item.2

/-- Reading a symbol is reading its entry and its children. -/
theorem ofLsp?_info_toLsp (info : SymbolInfo) (items : List Value) :
    ofLsp? (info.toLsp items) = (items.mapM ofLsp?).map fun children => ⟨info, children⟩ := by
  have hchildren : (info.toLsp items).get? "children" = some (.list items) := rfl
  rw [ofLsp?, SymbolInfo.ofLsp?_toLsp]
  simp only [Option.bind_eq_bind, Option.bind_some]
  split
  · rename_i found hfound
    cases hchildren.symm.trans hfound
    rw [List.mapM_subtype (g := ofLsp?) fun _ _ => rfl, List.unattach_attach]
    cases items.mapM ofLsp? <;> rfl
  · rename_i hnone
    exact absurd hchildren (hnone items)

mutual

/-- **Reading gives back what was written.** -/
theorem ofLsp?_toLsp : (s : Symbol) → ofLsp? s.toLsp = some s
  | ⟨info, children⟩ => by
    rw [toLsp, ofLsp?_info_toLsp, mapM_ofLsp?_toLspAll children]
    rfl

theorem mapM_ofLsp?_toLspAll : (ss : List Symbol) → (toLspAll ss).mapM ofLsp? = some ss
  | [] => rfl
  | s :: ss => by
    rw [toLspAll, List.mapM_cons, ofLsp?_toLsp s, mapM_ofLsp?_toLspAll ss]
    rfl

end

/-- Different outlines are written differently. -/
theorem toLspAll_injective : Function.Injective toLspAll := by
  intro ss ts h
  have hread : (toLspAll ss).mapM ofLsp? = (toLspAll ts).mapM ofLsp? := by rw [h]
  rw [mapM_ofLsp?_toLspAll, mapM_ofLsp?_toLspAll] at hread
  exact Option.some.inj hread

/-! ### Symbols with the symbols above them -/

mutual

/-- A symbol and all those below it in pre-order, each with the symbols above it, the innermost
first. -/
def walkUnder : List Symbol → Symbol → List (List Symbol × Symbol)
  | above, ⟨info, children⟩ =>
    (above, ⟨info, children⟩) :: walkAllUnder (⟨info, children⟩ :: above) children

def walkAllUnder : List Symbol → List Symbol → List (List Symbol × Symbol)
  | _, [] => []
  | above, s :: ss => walkUnder above s ++ walkAllUnder above ss

end

mutual

/-- The symbols come in the order of the walk. -/
theorem map_snd_walkUnder (above : List Symbol) :
    (s : Symbol) → (walkUnder above s).map (·.2) = s.walk
  | ⟨info, children⟩ => by
    rw [walkUnder, walk, List.map_cons, map_snd_walkAllUnder _ children]

theorem map_snd_walkAllUnder (above : List Symbol) :
    (ss : List Symbol) → (walkAllUnder above ss).map (·.2) = walkAll ss
  | [] => rfl
  | s :: ss => by
    rw [walkAllUnder, walkAll, List.map_append, map_snd_walkUnder above s,
      map_snd_walkAllUnder above ss]

end

/-- A symbol hangs under some others, the innermost first, if each is a child of the next one and
the outermost is one of the roots. -/
inductive HangsUnder (roots : List Symbol) : List Symbol → Symbol → Prop
  | root {s : Symbol} (h : s ∈ roots) : HangsUnder roots [] s
  | child {above : List Symbol} {parent s : Symbol} (hparent : HangsUnder roots above parent)
      (h : s ∈ parent.children) : HangsUnder roots (parent :: above) s

mutual

/-- Where a symbol hangs, those of its walk hang under what is above them. -/
theorem hangsUnder_of_mem_walkUnder {roots above : List Symbol} {p : List Symbol × Symbol} :
    (s : Symbol) → HangsUnder roots above s → p ∈ walkUnder above s → HangsUnder roots p.1 p.2
  | ⟨info, children⟩, hs, hp => by
    rw [walkUnder] at hp
    rcases List.mem_cons.1 hp with rfl | hp
    · exact hs
    · exact hangsUnder_of_mem_walkAllUnder children (fun c hc => hs.child hc) hp

theorem hangsUnder_of_mem_walkAllUnder {roots above : List Symbol} {p : List Symbol × Symbol} :
    (ss : List Symbol) → (∀ s ∈ ss, HangsUnder roots above s) → p ∈ walkAllUnder above ss →
      HangsUnder roots p.1 p.2
  | [], _, hp => by
    rw [walkAllUnder] at hp
    cases hp
  | s :: ss, hss, hp => by
    rw [walkAllUnder] at hp
    obtain ⟨hs, hss⟩ := List.forall_mem_cons.1 hss
    rcases List.mem_append.1 hp with hp | hp
    · exact hangsUnder_of_mem_walkUnder s hs hp
    · exact hangsUnder_of_mem_walkAllUnder ss hss hp

end

/-! ### Listings -/

/-- The line of a symbol that hangs under some others: two spaces for each of them, and as many for
each level that the whole list is moved to the right, before the name and the label of the kind. -/
def lineUnder (depth : Nat) (p : List Symbol × Symbol) : String :=
  String.ofList (List.replicate (2 * (depth + p.1.length)) ' ') ++ p.2.info.name ++ " [" ++
    p.2.info.kind.label ++ "]"

theorem listingLine_eq (depth : Nat) (above : List Symbol) (s : Symbol) :
    listingLine (depth + above.length) s.info = lineUnder depth (above, s) := by
  rw [listingLine, SymbolKind.labelOfCode_code]
  rfl

mutual

/-- The lines of a symbol are those of its walk. -/
theorem listing_eq_map (depth : Nat) (above : List Symbol) : (s : Symbol) →
    listing (depth + above.length) s = (walkUnder above s).map (lineUnder depth)
  | ⟨info, children⟩ => by
    -- the children hang under one symbol more
    have hdeeper : depth + above.length + 1 =
        depth + ((⟨info, children⟩ : Symbol) :: above).length := by
      rw [List.length_cons, Nat.add_assoc]
    rw [listing, walkUnder, List.map_cons, ← listingLine_eq, hdeeper,
      listingAll_eq_map depth (_ :: above) children]

theorem listingAll_eq_map (depth : Nat) (above : List Symbol) : (ss : List Symbol) →
    listingAll (depth + above.length) ss = (walkAllUnder above ss).map (lineUnder depth)
  | [] => by rw [listingAll, walkAllUnder, List.map_nil]
  | s :: ss => by
    rw [listingAll, walkAllUnder, List.map_append, listing_eq_map depth above s,
      listingAll_eq_map depth above ss]

end

end Symbol

end RubyOutline
