/-
RubyOutline/Proofs/Conversion/Containment.lean

Parse trees whose nodes lie within their parents convert to syntax trees with nested ranges.  A
layer of the conversion takes its name and whatever stands in its holes from below the node
(`labelRange_layer`, `mem_descendants_of_mem_holes`), however many wrappers it leaves out on the
way, and what stands below a node lies within it.  Columns grow with byte columns, so what
holds of points holds of the client's positions (`contains_range`).
-/
import RubyOutline.Proofs.Conversion.Memo
import RubyOutline.Proofs.ParseNode.SpansNested
import RubyOutline.Proofs.RangesNested
import RubyOutline.Proofs.Source.Columns

namespace RubyOutline

/-- Whatever stands in the holes of a layer filled anew has been put there. -/
theorem Form.mem_holes_mapHoles {α β : Type} {form : Form α}
    {f fBlock : (a : α) → a ∈ form.holes → β} {x : β}
    (hx : x ∈ (form.mapHoles f fBlock).holes) :
    ∃ a, ∃ h : a ∈ form.holes, x = f a h ∨ x = fBlock a h := by
  have filled : ∀ {as : List α} (has : ∀ a ∈ as, a ∈ form.holes), x ∈ as.pmap f has →
      ∃ a, ∃ h : a ∈ form.holes, x = f a h ∨ x = fBlock a h := by
    intro as has hx
    obtain ⟨a, ha, rfl⟩ := List.mem_pmap.1 hx
    exact ⟨a, has a ha, .inl rfl⟩
  cases form with
  | call c =>
    simp only [mapHoles, holes, Call.holes, Call.mapHoles, List.mem_append, Option.mem_toList] at hx
    rcases hx with ((hx | hx) | hx) | hx
    · obtain ⟨a, ha, _, rfl⟩ := Option.pmap_eq_some_iff.1 hx
      exact ⟨a, ha, .inl rfl⟩
    · exact filled _ hx
    · obtain ⟨k', hk', rfl⟩ := List.mem_map.1 hx
      obtain ⟨k, hk, rfl⟩ := List.mem_pmap.1 hk'
      exact ⟨k.value, _, .inl rfl⟩
    · obtain ⟨a, ha, _, rfl⟩ := Option.pmap_eq_some_iff.1 hx
      exact ⟨a, ha, .inr rfl⟩
  | classDecl | moduleDecl | methodDecl | lambda | block | other => exact filled _ hx
  | stringLiteral | symbolLiteral | constantRef | constantPath => cases hx

namespace Converter

open ParseNode

variable (cv : Converter)

/-! ### Positions -/

theorem position_le {p q : Point} (h : p.inBytes ≤ q.inBytes) : cv.position p ≤ cv.position q := by
  obtain ⟨row, column⟩ := p
  obtain ⟨row', column'⟩ := q
  rcases h with hrow | ⟨hrow, hcolumn⟩
  · exact .inl hrow
  · obtain rfl : row = row' := hrow
    exact .inr ⟨rfl, cv.lines.column_mono row hcolumn⟩

theorem contains_range {n m : ParseNode} (h : n.span.inBytes.Contains m.span.inBytes) :
    (cv.range n).Contains (cv.range m) :=
  ⟨cv.position_le h.1, cv.position_le h.2⟩

/-! ### Layers -/

/-- The name of a layer spans from the start of one node below to the end of another: both are the
name itself, but for the method of an object, whose name begins with the object. -/
theorem labelRange_layer {known : ParseNode → Option SyntaxNode} {n : ParseNode} {r : SourceRange}
    (h : (cv.layer known n).labelRange = some r) :
    ∃ a ∈ n.descendants, ∃ b ∈ n.descendants, r = ⟨(cv.range a).start, (cv.range b).stop⟩ := by
  have hform := cv.isLayer_layer known n
  generalize cv.layer known n = form at h hform
  cases hform with
  | classDecl _ hname | moduleDecl _ hname | methodDecl _ hname | call _ hname =>
    cases h
    exact ⟨_, mem_descendants_of_child? hname, _, mem_descendants_of_child? hname, rfl⟩
  | singletonMethodDecl _ hobject hname =>
    cases h
    exact ⟨_, mem_descendants_of_child? hobject, _, mem_descendants_of_child? hname, rfl⟩
  | _ => cases h

/-! ### Nesting -/

theorem range_convert (n : ParseNode) : (cv.convert n).range = cv.range n := by
  rw [convert_eq]

/-- The block of a call is nested if what stands below it is. -/
theorem rangesNested_convertBlock {b : ParseNode}
    (hcontains : ∀ m ∈ b.descendants, (cv.range b).Contains (cv.range m))
    (hnested : ∀ m ∈ b.descendants, (cv.convert m).RangesNested) :
    (cv.convertBlock b).RangesNested := by
  have hbody : ∀ c ∈ (cv.convertBlock b).childNodes, ∃ m ∈ b.descendants, c = cv.convert m := by
    intro c hc
    obtain ⟨m, hm, rfl⟩ := List.mem_map.1 hc
    exact ⟨m, mem_descendants_of_mem_blockBody hm, rfl⟩
  refine .intro nofun (fun c hc => ?_) (fun c hc => ?_)
  · obtain ⟨m, hm, rfl⟩ := hbody c hc
    rw [range_convert]
    exact hcontains m hm
  · obtain ⟨m, hm, rfl⟩ := hbody c hc
    exact hnested m hm

theorem rangesNested_convert {root : ParseNode} (hroot : root.SpansNested) {n : ParseNode}
    (hn : n ∈ root.nodes) : (cv.convert n).RangesNested := by
  induction n using descendants_induction with
  | step n ih =>
    have hcontains : ∀ m ∈ n.nodes, ∀ k ∈ m.descendants, (cv.range m).Contains (cv.range k) := by
      intro m hm k hk
      exact cv.contains_range
        (hroot.contains (mem_nodes_trans hn hm) (mem_nodes_of_mem_descendants hk))
    have hnested : ∀ c ∈ n.descendants, (cv.convert c).RangesNested := fun c hc =>
      ih c hc (mem_nodes_trans hn (mem_nodes_of_mem_descendants hc))
    have hblock : ∀ b ∈ n.descendants, (cv.convertBlock b).RangesNested := fun b hb =>
      cv.rangesNested_convertBlock (hcontains b (mem_nodes_of_mem_descendants hb)) fun m hm =>
        hnested m (mem_descendants_trans hb (mem_nodes_of_mem_descendants hm))
    rw [convert_eq]
    refine .intro (fun r hr => ?_) (fun x hx => ?_) (fun x hx => ?_)
    · rw [Form.labelRange_mapHoles] at hr
      obtain ⟨a, ha, b, hb, rfl⟩ := cv.labelRange_layer hr
      exact ⟨(hcontains n n.mem_nodes_self a ha).1, (hcontains n n.mem_nodes_self b hb).2⟩
    · -- whether it was put there as a block or not, it has the range of its node
      obtain ⟨c, hc, hx⟩ := Form.mem_holes_mapHoles hx
      have hxc : x.range = cv.range c := by
        rcases hx with rfl | rfl
        · exact cv.range_convert c
        · rfl
      rw [hxc]
      exact hcontains n n.mem_nodes_self c (mem_descendants_of_mem_holes hc)
    · obtain ⟨c, hc, hx⟩ := Form.mem_holes_mapHoles hx
      have hcn : c ∈ n.descendants := mem_descendants_of_mem_holes hc
      rcases hx with rfl | rfl
      · exact hnested c hcn
      · exact hblock c hcn

/-- **Converted trees are nested.**  If throughout a parse tree nodes lie within their parents,
then throughout the syntax tree, and in the client's positions, nodes contain their children and
their names, whatever the bytes of the source and whatever the encoding.  Ids only have to tell
nodes apart, as in every tree of a table (`ParseNode.distinctIds_of_ofTable`). -/
theorem rangesNested_convertTree (source : Source) (encoding : PositionEncoding)
    {root : ParseNode} (hids : root.DistinctIds) (hspans : root.SpansNested) :
    ((ofSource source encoding).convertTree root).RangesNested := by
  rw [convertTree_eq hids]
  exact rangesNested_convert _ hspans root.mem_nodes_self

/-- The method `def é.b`, its object cut off in the middle of the character. -/
def methodOfCutObject : ParseNode :=
  let label (kind : String) (start stop : Nat) (field : Option String) : ParseLabel :=
    ⟨kind, ⟨start, ⟨0, start⟩, stop, ⟨0, stop⟩⟩, true, false, false, field⟩
  ⟨0, label "singleton_method" 0 8 none,
    [⟨1, label "identifier" 4 5 (some "object"), []⟩, ⟨2, label "identifier" 7 8 (some "name"), []⟩,
     ⟨3, label "body_statement" 8 8 none, [⟨4, label "call" 8 8 none, []⟩]⟩]⟩

theorem rangesNested_convertTree_methodOfCutObject :
    methodOfCutObject.DistinctIds ∧ methodOfCutObject.SpansNested ∧
    ((ofSource ⟨#[0x64, 0x65, 0x66, 0x20, 0xC3, 0xA9, 0x2E, 0x62]⟩ .utf16).convertTree
      methodOfCutObject).RangesNested := by
  have hids : methodOfCutObject.DistinctIds := by decide
  have hspans : methodOfCutObject.SpansNested := by decide
  exact ⟨hids, hspans, rangesNested_convertTree _ _ hids hspans⟩

end Converter

end RubyOutline
