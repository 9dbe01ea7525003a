/-
RubyOutline/Proofs/Outline/Disjointness.lean

Siblings in an outline do not overlap.  The siblings can come from different depths of the tree,
for nodes that are passed through leave it to their children to contribute.  What remains are the
nodes that contribute something of their own (`SyntaxNode.contributors`).  They stand one after the
other, each within the node that they are taken from (`apartWithin_contributors`), and the symbols
of each lie within it, so that symbols of different nodes do not overlap.  Only a recognised call
contributes more than one symbol.

Each of these nodes is visited by the walk, in this order.  So the symbols can be told apart by the
number of the visit that they stem from, and siblings with one number are leaves of one call
(`siblingsApart_outline`).
-/
import Mathlib.Data.List.Flatten
import RubyOutline.Proofs.Outline.SourceOrder
import RubyOutline.Proofs.Outline.Visits

namespace RubyOutline

variable {table : MacroTable}

/-! ### Trees whose siblings do not overlap -/

instance (a b : SourceRange) : Decidable (a.Precedes b) :=
  inferInstanceAs (Decidable (a.stop ≤ b.start))

/-- What lies within the first of two ranges precedes what lies within the second. -/
theorem SourceRange.Precedes.of_contains {a b c d : SourceRange} (h : a.Precedes b)
    (hc : a.Contains c) (hd : b.Contains d) : c.Precedes d :=
  Position.le_trans hc.2 (Position.le_trans h hd.1)

/-- The children of a node lie within it and stand one after the other.  Ranges may be empty, or
even end before they start. -/
def SyntaxNode.ChildrenApart (n : SyntaxNode) : Prop :=
  (∀ c ∈ n.childNodes, n.range.Contains c.range) ∧
    (n.childNodes.map (·.range)).Pairwise SourceRange.Precedes

instance (n : SyntaxNode) : Decidable n.ChildrenApart :=
  inferInstanceAs (Decidable (_ ∧ _))

/-- Nodes within a range, one after the other. -/
structure ApartWithin (r : SourceRange) (ns : List SyntaxNode) : Prop where
  within : ∀ n ∈ ns, r.Contains n.range
  apart : (ns.map (·.range)).Pairwise SourceRange.Precedes

theorem ApartWithin.singleton (n : SyntaxNode) : ApartWithin n.range [n] where
  within := by
    intro m hm
    rw [List.mem_singleton.1 hm]
    exact .refl _
  apart := List.pairwise_singleton _ _

/-- Nodes taken from within nodes that stand one after the other do so as well. -/
theorem ApartWithin.flatMap {r : SourceRange} {ns : List SyntaxNode} (h : ApartWithin r ns)
    {f : SyntaxNode → List SyntaxNode} (hf : ∀ n ∈ ns, ApartWithin n.range (f n)) :
    ApartWithin r (ns.flatMap f) where
  within := by
    intro m hm
    obtain ⟨n, hn, hm⟩ := List.mem_flatMap.1 hm
    exact (h.within n hn).trans ((hf n hn).within m hm)
  apart := by
    have horder := h.apart
    rw [List.pairwise_map] at horder ⊢
    rw [List.pairwise_flatMap]
    refine ⟨fun n hn => List.pairwise_map.1 (hf n hn).apart, ?_⟩
    exact horder.imp_of_mem fun {a b} ha hb hab x hx y hy =>
      hab.of_contains ((hf a ha).within x hx) ((hf b hb).within y hy)

/-! ### The nodes that contribute -/

namespace SyntaxNode

/-- The nodes that contribute the symbols of a tree: the tree itself, unless its root is passed
through. -/
def contributors (table : MacroTable) (superclass : Option String) (n : SyntaxNode) :
    List SyntaxNode :=
  match n.contribution table superclass with
  | .passage => n.childNodes.attach.flatMap fun c => c.1.contributors table superclass
  | _ => [n]
termination_by sizeOf n
decreasing_by exact sizeOf_lt_of_mem_childNodes c.2

theorem contributors_eq (superclass : Option String) (n : SyntaxNode) :
    n.contributors table superclass =
      match n.contribution table superclass with
      | .passage => n.childNodes.flatMap (·.contributors table superclass)
      | _ => [n] := by
  have hattach : n.childNodes.attach.flatMap (fun c => c.1.contributors table superclass) =
      n.childNodes.flatMap (·.contributors table superclass) := by
    rw [← List.flatMap_map, List.attach_map_subtype_val]
  rw [contributors, hattach]

theorem contribution_of_mem_contributors {superclass : Option String} {n m : SyntaxNode}
    (h : m ∈ n.contributors table superclass) :
    m.contribution table superclass ≠ .passage := by
  induction n using childNodes_induction with
  | step n ih =>
    rw [contributors_eq] at h
    split at h
    · obtain ⟨c, hc, h⟩ := List.mem_flatMap.1 h
      exact ih c hc h
    · rw [List.mem_singleton.1 h]
      assumption

/-- The contributors contribute what the tree does. -/
theorem symbols_eq_flatMap_contributors (context : Context) (n : SyntaxNode) :
    n.symbols table context =
      (n.contributors table context.join).flatMap (·.symbols table context) := by
  induction n using childNodes_induction with
  | step n ih =>
    rw [contributors_eq]
    split
    · rename_i hcontribution
      rw [symbols_eq, hcontribution, List.flatMap_assoc]
      exact List.flatMap_congr ih
    · rw [List.flatMap_singleton]

/-- The contributors are visited, in their order. -/
theorem contributors_sublist_visited (context : Context) (n : SyntaxNode) :
    ((n.contributors table context.join).map (Walk.Visit.mk · context)).Sublist
      (n.visited table context) := by
  induction n using childNodes_induction with
  | step n ih =>
    rw [contributors_eq, visited_eq]
    split
    · rename_i hcontribution
      rw [List.map_flatMap, hcontribution]
      exact (List.Sublist.flatMap_right _ ih).cons _
    · exact (List.nil_sublist _).cons_cons _

theorem apartWithin_contributors {n : SyntaxNode} (h : n.Everywhere ChildrenApart)
    (superclass : Option String) : ApartWithin n.range (n.contributors table superclass) := by
  induction n using childNodes_induction with
  | step n ih =>
    rw [contributors_eq]
    split
    · exact ApartWithin.flatMap ⟨h.here.1, h.here.2⟩ fun c hc => ih c hc (h.of_child hc)
    · exact .singleton n

theorem everywhere_of_mem_contributors {P : SyntaxNode → Prop} {superclass : Option String}
    {n m : SyntaxNode} (h : n.Everywhere P) (hm : m ∈ n.contributors table superclass) : P m := by
  induction n using childNodes_induction with
  | step n ih =>
    rw [contributors_eq] at hm
    split at hm
    · obtain ⟨c, hc, hm⟩ := List.mem_flatMap.1 hm
      exact ih c hc (h.of_child hc) hm
    · rw [List.mem_singleton.1 hm]
      exact h.here

end SyntaxNode

/-! ### What a contributor contributes -/

namespace Walk.Visit

/-- The symbols that are contributed where the visit stands. -/
def symbols (table : MacroTable) (v : Visit) : List Symbol := v.node.symbols table v.context

/-- The node is a call that declares something where the visit stands. -/
def IsRecognizedCall (table : MacroTable) (v : Visit) : Prop :=
  ∃ c, v.node.form = .call c ∧ c.recognize table v.context.join ≠ .unrecognized

variable {v : Visit}

/-- The symbols of a contributor lie within it. -/
theorem contains_of_mem_symbols (hv : v.node.ChildrenApart)
    (h : v.node.contribution table v.context.join ≠ .passage) {s : Symbol}
    (hs : s ∈ v.symbols table) : v.node.range.Contains s.info.range := by
  rw [symbols, SyntaxNode.symbols_eq] at hs
  cases hcontribution : v.node.contribution table v.context.join with
  | container info own =>
    simp only [hcontribution, List.mem_singleton] at hs
    rw [hs, (range_of_container hcontribution).1]
    exact .refl _
  | leaves infos =>
    simp only [hcontribution] at hs
    split at hs
    · obtain ⟨info, hinfo, rfl⟩ := List.mem_map.1 hs
      show v.node.range.Contains info.range
      rcases range_of_leaf hcontribution hinfo with ⟨hrange, _⟩ | ⟨c, hc, hrange, _⟩
      · rw [hrange]
        exact .refl _
      · rw [hrange]
        exact hv.1 c hc
    · cases hs
  | passage => exact absurd hcontribution h

/-- A contributor with two symbols is a recognised call. -/
theorem pairwise_isRecognizedCall (h : v.node.contribution table v.context.join ≠ .passage) :
    (v.symbols table).Pairwise fun _ _ => v.IsRecognizedCall table := by
  obtain ⟨⟨range, form⟩, context⟩ := v
  cases form with
  | call c =>
    have hcall : IsRecognizedCall table ⟨⟨range, .call c⟩, context⟩ := by
      refine ⟨c, rfl, fun hrecognize => h ?_⟩
      rw [contribution_call, hrecognize]
      rfl
    exact List.pairwise_of_forall fun _ _ => hcall
  | classDecl | moduleDecl => exact List.pairwise_singleton _ _
  | methodDecl =>
    rw [symbols, SyntaxNode.symbols]
    split
    · exact List.pairwise_singleton _ _
    · exact .nil
  | _ => exact absurd rfl h

end Walk.Visit

open Walk

/-! ### Siblings -/

/-- Symbols are what some of the visits contribute, one visit after the other, and those of
different visits do not overlap. -/
structure ContributedBy (table : MacroTable) (visits vs : List Visit) (ss : List Symbol) :
    Prop where
  sublist : vs.Sublist visits
  eq_flatMap : ss = vs.flatMap (·.symbols table)
  recognized : ∀ v ∈ vs, (v.symbols table).Pairwise fun _ _ => v.IsRecognizedCall table
  apart : vs.Pairwise fun v w =>
    ∀ s ∈ v.symbols table, ∀ t ∈ w.symbols table, s.info.range.Precedes t.info.range

/-- Symbols are contributed by some of the visits. -/
def Contributed (table : MacroTable) (visits : List Visit) (ss : List Symbol) : Prop :=
  ∃ vs, ContributedBy table visits vs ss

theorem Contributed.mono {visits visits' : List Visit} {ss : List Symbol}
    (h : Contributed table visits ss) (hvisits : visits.Sublist visits') :
    Contributed table visits' ss := by
  obtain ⟨vs, hvs⟩ := h
  exact ⟨vs, { hvs with sublist := hvs.sublist.trans hvisits }⟩

theorem Contributed.nil (visits : List Visit) : Contributed table visits [] :=
  ⟨[], List.nil_sublist _, rfl, nofun, .nil⟩

/-- What nodes contribute that stand one after the other in a context. -/
theorem contributed_flatMap {context : Context} {r : SourceRange} {ns : List SyntaxNode}
    (hns : ApartWithin r ns) (heverywhere : ∀ n ∈ ns, n.Everywhere SyntaxNode.ChildrenApart) :
    Contributed table (ns.flatMap (·.visited table context))
      (ns.flatMap (·.symbols table context)) := by
  let ms := ns.flatMap (·.contributors table context.join)
  have hms : ApartWithin r ms :=
    hns.flatMap fun n hn => SyntaxNode.apartWithin_contributors (heverywhere n hn) _
  have hpassage : ∀ m ∈ ms, m.contribution table context.join ≠ .passage := by
    intro m hm
    obtain ⟨n, hn, hm⟩ := List.mem_flatMap.1 hm
    exact SyntaxNode.contribution_of_mem_contributors hm
  have hchildren : ∀ m ∈ ms, m.ChildrenApart := by
    intro m hm
    obtain ⟨n, hn, hm⟩ := List.mem_flatMap.1 hm
    exact SyntaxNode.everywhere_of_mem_contributors (heverywhere n hn) hm
  have hwithin : ∀ m ∈ ms, ∀ s ∈ Visit.symbols table ⟨m, context⟩,
      m.range.Contains s.info.range := fun m hm s hs =>
    Visit.contains_of_mem_symbols (hchildren m hm) (hpassage m hm) hs
  -- all of them stand in the same context, for none opens a scope around another
  refine ⟨ms.map (Visit.mk · context), ?_, ?_, ?_, ?_⟩
  · rw [List.map_flatMap]
    exact List.Sublist.flatMap_right _ fun n _ => n.contributors_sublist_visited context
  · rw [List.flatMap_map, List.flatMap_assoc]
    exact List.flatMap_congr fun n _ => n.symbols_eq_flatMap_contributors context
  · intro v hv
    obtain ⟨m, hm, rfl⟩ := List.mem_map.1 hv
    exact Visit.pairwise_isRecognizedCall (hpassage m hm)
  · have hapart := hms.apart
    rw [List.pairwise_map] at hapart ⊢
    exact hapart.imp_of_mem fun {a b} ha hb hab s hs t ht =>
      hab.of_contains (hwithin a ha s hs) (hwithin b hb t ht)

/-- The children of every symbol that a node contributes are contributed by visits below it. -/
theorem contributed_children {n : SyntaxNode} (h : n.Everywhere SyntaxNode.ChildrenApart)
    (context : Context) : ∀ s ∈ (n.symbols table context).flatMap Symbol.walk,
      Contributed table (n.visited table context) s.children := by
  induction n using SyntaxNode.childNodes_induction generalizing context with
  | step n ih =>
    have hbelow : ∀ (context : Context) (s : Symbol),
        s ∈ (n.childNodes.flatMap (·.symbols table context)).flatMap Symbol.walk →
          Contributed table (n.childNodes.flatMap (·.visited table context)) s.children := by
      intro context s hs
      rw [List.flatMap_assoc] at hs
      obtain ⟨c, hc, hs⟩ := List.mem_flatMap.1 hs
      have hc' : [c].Sublist n.childNodes := List.singleton_sublist.2 hc
      refine (ih c hc (h.of_child hc) context s hs).mono ?_
      have hsublist := hc'.flatMap (·.visited table context)
      rwa [List.flatMap_singleton] at hsublist
    intro s hs
    rw [SyntaxNode.symbols_eq] at hs
    rw [SyntaxNode.visited_eq]
    cases hcontribution : n.contribution table context.join with
    | container info own =>
      simp only [hcontribution, List.flatMap_singleton, Symbol.walk, Symbol.walkAll_eq_flatMap,
        List.mem_cons] at hs
      have hchildren : Contributed table (n.childNodes.flatMap (·.visited table (some own)))
          s.children := by
        -- either the container's own symbol, or one that stands below it
        rcases hs with rfl | hs
        · exact contributed_flatMap ⟨h.here.1, h.here.2⟩ fun c hc => h.of_child hc
        · exact hbelow (some own) s hs
      exact hchildren.mono (List.sublist_cons_self _ _)
    | leaves infos =>
      -- leaves have no children, so there is nothing to contribute
      have hleaf : s.children = [] := by
        simp only [hcontribution] at hs
        split at hs
        · rw [Symbol.flatMap_walk_leaves] at hs
          obtain ⟨info, _, rfl⟩ := List.mem_map.1 hs
          rfl
        · cases hs
      rw [hleaf]
      exact .nil _
    | passage =>
      simp only [hcontribution] at hs
      exact (hbelow context s hs).mono (List.sublist_cons_self _ _)

/-! ### Outlines -/

/-- The symbols that numbered visits contribute, each with the visit that it stems from. -/
def stemming (table : MacroTable) (vs : List (Visit × Nat)) : List ((Visit × Nat) × Symbol) :=
  vs.flatMap fun v => (v.1.symbols table).map (v, ·)

/-- Siblings stem from visits of the walk, which are numbered in their order.  For every sibling
before another one, either both stem from the same visit, to a recognised call, or the first one
ends no later than the second one starts. -/
def SiblingsApart (table : MacroTable) (root : SyntaxNode) (siblings : List Symbol) : Prop :=
  ∃ vs : List (Visit × Nat), vs.Sublist (visitsOfTree table root).zipIdx ∧
    siblings = (stemming table vs).map (·.2) ∧
    (stemming table vs).Pairwise fun x y =>
      (x.1 = y.1 ∧ x.1.1.IsRecognizedCall table) ∨ x.2.info.range.Precedes y.2.info.range

theorem Contributed.siblingsApart {root : SyntaxNode} {siblings : List Symbol}
    (h : Contributed table (visitsOfTree table root) siblings) :
    SiblingsApart table root siblings := by
  obtain ⟨vs, hsublist, hsiblings, hrecognized, hapart⟩ := h
  rw [← List.zipIdx_map_fst 0 (visitsOfTree table root), List.sublist_map_iff] at hsublist
  obtain ⟨numbered, hnumbered, rfl⟩ := hsublist
  refine ⟨numbered, hnumbered, ?_, ?_⟩
  · rw [hsiblings, stemming, List.flatMap_map, List.map_flatMap]
    refine List.flatMap_congr fun v _ => ?_
    rw [List.map_map]
    exact (List.map_id _).symm
  · rw [stemming, List.pairwise_flatMap]
    refine ⟨fun v hv => ?_, ?_⟩
    · rw [List.pairwise_map]
      exact (hrecognized v.1 (List.mem_map_of_mem hv)).imp fun hcall => .inl ⟨rfl, hcall⟩
    · rw [List.pairwise_map] at hapart
      refine hapart.imp fun {v w} hvw x hx y hy => ?_
      obtain ⟨s, hs, rfl⟩ := List.mem_map.1 hx
      obtain ⟨t, ht, rfl⟩ := List.mem_map.1 hy
      exact .inr (hvw s hs t ht)

/-- **Siblings do not overlap.**  In the list of roots, and among the children of every symbol of an
outline, a symbol ends before those after it start, unless both stem from one recognised call. -/
theorem siblingsApart_outline {root : SyntaxNode} (h : root.Everywhere SyntaxNode.ChildrenApart)
    (table : MacroTable) :
    SiblingsApart table root (outline table root) ∧
      ∀ s ∈ (outline table root).flatMap Symbol.walk, SiblingsApart table root s.children := by
  rw [outline_eq]
  refine ⟨?_, fun s hs => ?_⟩
  · have hroot : Contributed table ([root].flatMap (·.visited table none))
        ([root].flatMap (·.symbols table none)) :=
      contributed_flatMap (.singleton root) fun n hn => by rwa [List.mem_singleton.1 hn]
    rw [List.flatMap_singleton, List.flatMap_singleton, ← visitsOfTree_eq] at hroot
    exact hroot.siblingsApart
  · have hchildren := contributed_children h none s hs
    rw [← visitsOfTree_eq] at hchildren
    exact hchildren.siblingsApart

/-- A class in which a call with two attributes is followed by an `if`. -/
def attributesBeforeIf : SyntaxNode :=
  let line (i j : Nat) : SourceRange := ⟨⟨i, 2⟩, ⟨j, 40⟩⟩
  let word (j : Nat) : SourceRange := ⟨⟨1, j⟩, ⟨1, j + 2⟩⟩
  let attributes : Call SyntaxNode := ⟨"attr_reader", ⟨⟨1, 2⟩, ⟨1, 13⟩⟩, none,
    [⟨word 14, .symbolLiteral "a"⟩, ⟨word 18, .symbolLiteral "b"⟩], [], none⟩
  ⟨⟨⟨0, 0⟩, ⟨8, 3⟩⟩, .classDecl "A" ⟨⟨0, 6⟩, ⟨0, 7⟩⟩ none [⟨line 1 1, .call attributes⟩,
    ⟨line 2 7, .other "if" [⟨line 3 4, .methodDecl "m" (line 3 3) []⟩,
      ⟨line 5 6, .classDecl "B" (line 5 5) none []⟩]⟩]⟩

/-- Of the four siblings the first two stem from one call, and the others from below the `if`. -/
theorem siblingsApart_outline_attributesBeforeIf :
    attributesBeforeIf.Everywhere SyntaxNode.ChildrenApart ∧
    (outline .rails attributesBeforeIf).map (·.children.map (·.info.name)) =
      [["a", "b", "m", "B"]] ∧
    SiblingsApart .rails attributesBeforeIf (outline .rails attributesBeforeIf) ∧
    ∀ s ∈ (outline .rails attributesBeforeIf).flatMap Symbol.walk,
      SiblingsApart .rails attributesBeforeIf s.children := by
  have hleaf : ∀ n : SyntaxNode, n.childNodes = [] → n.Everywhere SyntaxNode.ChildrenApart := by
    intro n hn
    unfold SyntaxNode.ChildrenApart
    refine .intro ⟨?_, ?_⟩ ?_ <;> rw [hn]
    · exact nofun
    · exact .nil
    · exact nofun
  have hbelow : ∀ c ∈ attributesBeforeIf.childNodes, c.Everywhere SyntaxNode.ChildrenApart :=
    List.forall_mem_cons.2 ⟨.intro (by decide) (List.forall_mem_cons.2 ⟨hleaf _ rfl,
      List.forall_mem_singleton.2 (hleaf _ rfl)⟩), List.forall_mem_singleton.2
        (.intro (by decide) (List.forall_mem_cons.2 ⟨hleaf _ rfl,
          List.forall_mem_singleton.2 (hleaf _ rfl)⟩))⟩
  have heverywhere : attributesBeforeIf.Everywhere SyntaxNode.ChildrenApart :=
    .intro (by decide) hbelow
  refine ⟨heverywhere, ?_, siblingsApart_outline heverywhere .rails⟩
  rw [outline_eq]
  decide

end RubyOutline
