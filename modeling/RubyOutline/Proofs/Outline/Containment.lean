/-
RubyOutline/Proofs/Outline/Containment.lean

Outlines of trees with nested ranges have nested ranges.  The children of a symbol come from
anywhere below the node it stands for, through any number of nodes that are only passed through,
so the invariant is about all symbols that a node contributes at once: they lie within the node,
and throughout each of them symbols contain their selection and their children
(`Symbol.NestedWithin`).  A node that is passed through hands the invariant of its children on, by
the transitivity of containment.
-/
import RubyOutline.Proofs.Outline.Walk
import RubyOutline.Proofs.RangesNested

namespace RubyOutline

variable {table : MacroTable}

/-! ### Where the ranges of contributed symbols come from -/

theorem range_of_declaredField {n : SyntaxNode} {info : SymbolInfo}
    (h : n.declaredField = some info) : info.range = n.range ∧ info.selectionRange = n.range := by
  unfold SyntaxNode.declaredField at h
  split at h
  · split at h
    · cases h
    · cases h
      exact ⟨rfl, rfl⟩
  · split at h
    · cases h
    · cases h
      exact ⟨rfl, rfl⟩
  · cases h

/-- A leaf of a call either spans the call and selects its method, or is the field of one of its
arguments. -/
theorem leaf_of_declaredLeaves {superclass : Option String} {range : SourceRange}
    {c : Call SyntaxNode} {leaves : List SymbolInfo}
    (h : c.declaredLeaves table superclass range = some leaves) {info : SymbolInfo}
    (hinfo : info ∈ leaves) :
    (info.range = range ∧ info.selectionRange = c.messageRange) ∨
      ∃ argument ∈ c.arguments, argument.declaredField = some info := by
  cases Call.declares_of_declaredLeaves table h with
  | test | callback =>
    left
    obtain ⟨name, _, rfl⟩ := List.mem_map.1 hinfo
    exact ⟨rfl, rfl⟩
  | attributes =>
    right
    exact List.mem_filterMap.1 hinfo

theorem range_of_container {superclass : Option String} {n : SyntaxNode} {info : SymbolInfo}
    {own : Option String} (h : n.contribution table superclass = .container info own) :
    info.range = n.range ∧ n.form.labelRange = some info.selectionRange := by
  rcases SyntaxNode.cases_of_container h with ⟨name, nameRange, body, hform, rfl⟩ |
    ⟨name, nameRange, body, hform, rfl, rfl⟩ <;>
  · rw [hform]
    exact ⟨rfl, rfl⟩

/-- A leaf of a node either spans the node and selects its name, or spans and selects one of its
children. -/
theorem range_of_leaf {superclass : Option String} {n : SyntaxNode} {infos : List SymbolInfo}
    (h : n.contribution table superclass = .leaves infos) {info : SymbolInfo}
    (hinfo : info ∈ infos) :
    (info.range = n.range ∧ n.form.labelRange = some info.selectionRange) ∨
      ∃ c ∈ n.childNodes, info.range = c.range ∧ info.selectionRange = c.range := by
  rcases SyntaxNode.cases_of_leaves h with ⟨name, nameRange, body, hform, rfl⟩ | ⟨c, hform, hleaves⟩
  · rw [List.mem_singleton.1 hinfo, hform]
    exact .inl ⟨rfl, rfl⟩
  · rcases leaf_of_declaredLeaves hleaves hinfo with ⟨hrange, hselection⟩ | ⟨a, ha, hfield⟩
    · rw [hform]
      exact .inl ⟨hrange, congrArg some hselection.symm⟩
    · refine .inr ⟨a, ?_, range_of_declaredField hfield⟩
      simp [SyntaxNode.childNodes, hform, Form.holes, Call.holes, ha]

/-! ### The invariant -/

/-- A symbol contains its selection and its children. -/
def Symbol.Encloses (s : Symbol) : Prop :=
  s.info.range.Contains s.info.selectionRange ∧
    ∀ c ∈ s.children, s.info.range.Contains c.info.range

/-- A symbol lies within a range, and throughout it symbols enclose what is theirs. -/
def Symbol.NestedWithin (outer : SourceRange) (s : Symbol) : Prop :=
  outer.Contains s.info.range ∧ ∀ t ∈ s.walk, t.Encloses

theorem Symbol.NestedWithin.mono {outer inner : SourceRange} {s : Symbol}
    (h : outer.Contains inner) (hs : s.NestedWithin inner) : s.NestedWithin outer :=
  ⟨h.trans hs.1, hs.2⟩

/-- A symbol is nested if its children are nested within it. -/
theorem Symbol.nestedWithin_mk {outer : SourceRange} {info : SymbolInfo} {children : List Symbol}
    (houter : outer.Contains info.range) (hselection : info.range.Contains info.selectionRange)
    (hchildren : ∀ c ∈ children, c.NestedWithin info.range) :
    Symbol.NestedWithin outer ⟨info, children⟩ := by
  refine ⟨houter, fun t ht => ?_⟩
  rw [walk, walkAll_eq_flatMap] at ht
  rcases List.mem_cons.1 ht with rfl | ht
  · exact ⟨hselection, fun c hc => (hchildren c hc).1⟩
  · obtain ⟨c, hc, htc⟩ := List.mem_flatMap.1 ht
    exact (hchildren c hc).2 t htc

/-- A leaf of a node with nested ranges is nested within the node. -/
theorem nestedWithin_leaf {n : SyntaxNode} (hn : n.RangesNested) {superclass : Option String}
    {infos : List SymbolInfo} (h : n.contribution table superclass = .leaves infos)
    {info : SymbolInfo} (hinfo : info ∈ infos) : (Symbol.leaf info).NestedWithin n.range := by
  rcases range_of_leaf h hinfo with ⟨hrange, hlabel⟩ | ⟨c, hc, hrange, hselection⟩
  · refine Symbol.nestedWithin_mk ?_ ?_ nofun
    · rw [hrange]
      exact .refl _
    · rw [hrange]
      exact hn.contains_label hlabel
  · refine Symbol.nestedWithin_mk ?_ ?_ nofun
    · rw [hrange]
      exact hn.contains_child hc
    · rw [hrange, hselection]
      exact .refl _

/-- Every symbol of a node with nested ranges is nested within the node, wherever it stands. -/
theorem nestedWithin_of_mem_symbols {n : SyntaxNode} (hn : n.RangesNested) (context : Context) :
    ∀ s ∈ n.symbols table context, s.NestedWithin n.range := by
  induction n using SyntaxNode.childNodes_induction generalizing context with
  | step n ih =>
    intro s hs
    have hbelow : ∀ (context : Context) (s : Symbol),
        s ∈ n.childNodes.flatMap (·.symbols table context) → s.NestedWithin n.range := by
      intro context s hs
      obtain ⟨c, hc, hsc⟩ := List.mem_flatMap.1 hs
      exact (ih c hc (hn.of_child hc) context s hsc).mono (hn.contains_child hc)
    rw [SyntaxNode.symbols_eq] at hs
    cases hcontribution : n.contribution table context.join with
    | container info own =>
      simp only [hcontribution, List.mem_singleton] at hs
      obtain ⟨hrange, hlabel⟩ := range_of_container hcontribution
      have hselection : info.range.Contains info.selectionRange := by
        rw [hrange]
        exact hn.contains_label hlabel
      rw [hs, ← hrange]
      rw [← hrange] at hbelow
      exact Symbol.nestedWithin_mk (.refl _) hselection fun c hc => hbelow (some own) c hc
    | leaves infos =>
      simp only [hcontribution] at hs
      split at hs
      · obtain ⟨info, hinfo, rfl⟩ := List.mem_map.1 hs
        exact nestedWithin_leaf hn hcontribution hinfo
      · cases hs
    | passage =>
      simp only [hcontribution] at hs
      exact hbelow context s hs

/-! ### Outlines -/

/-- **Outlines are nested.**  If throughout a tree nodes contain their children and their names,
then throughout its outline symbols contain their selections and their children. -/
theorem encloses_of_mem_outline {root : SyntaxNode} (hroot : root.RangesNested)
    (table : MacroTable) :
    ∀ s ∈ (outline table root).flatMap Symbol.walk,
      s.info.range.Contains s.info.selectionRange ∧
        ∀ c ∈ s.children, s.info.range.Contains c.info.range := by
  intro s hs
  rw [outline_eq] at hs
  obtain ⟨top, htop, hs⟩ := List.mem_flatMap.1 hs
  exact (nestedWithin_of_mem_symbols hroot none top htop).2 s hs

/-- A class whose attribute is declared within a condition. -/
def attributeWithinCondition : SyntaxNode :=
  ⟨⟨⟨0, 0⟩, ⟨4, 3⟩⟩, .classDecl "A" ⟨⟨0, 6⟩, ⟨0, 7⟩⟩ none
    [⟨⟨⟨1, 2⟩, ⟨3, 5⟩⟩, .other "if"
      [⟨⟨⟨2, 4⟩, ⟨2, 18⟩⟩, .call ⟨"attr_reader", ⟨⟨2, 4⟩, ⟨2, 15⟩⟩, none,
        [⟨⟨⟨2, 16⟩, ⟨2, 18⟩⟩, .symbolLiteral "a"⟩], [], none⟩⟩]⟩]⟩

theorem encloses_of_mem_outline_attributeWithinCondition :
    attributeWithinCondition.RangesNested ∧
    ((outline .rails attributeWithinCondition).flatMap Symbol.walk).map (·.info.name) =
      ["A", "a"] ∧
    ∀ s ∈ (outline .rails attributeWithinCondition).flatMap Symbol.walk,
      s.info.range.Contains s.info.selectionRange ∧
        ∀ c ∈ s.children, s.info.range.Contains c.info.range := by
  have hargument : SyntaxNode.RangesNested ⟨⟨⟨2, 16⟩, ⟨2, 18⟩⟩, .symbolLiteral "a"⟩ :=
    .intro nofun nofun nofun
  have hnested : attributeWithinCondition.RangesNested := by
    refine .intro (fun r hr => ?_) (List.forall_mem_singleton.2 (by decide))
      (List.forall_mem_singleton.2 ?_)
    · cases hr
      decide
    refine .intro nofun (List.forall_mem_singleton.2 (by decide))
      (List.forall_mem_singleton.2 ?_)
    refine .intro (fun r hr => ?_) (List.forall_mem_singleton.2 (by decide))
      (List.forall_mem_singleton.2 hargument)
    cases hr
    decide
  refine ⟨hnested, ?_, encloses_of_mem_outline hnested .rails⟩
  rw [outline_eq]
  decide

end RubyOutline
