/-
RubyOutline/Proofs/Outline/MappedRanges.lean

An outline takes its ranges from the tree and never looks into them.  If one function is applied
to every range of a tree, the same function is applied to every range of the outline, and nothing
else changes (`outline_mapRanges`).  The function may be any: it may move positions, or forget them.

Recognition sees no range at all; the leaves of a call then carry the ranges of the call and of its
arguments, and these are the mapped ones (`SyntaxNode.contribution_mapRanges`).
-/
import RubyOutline.Proofs.Outline.Congruence
import RubyOutline.Proofs.SyntaxNode.Layers

namespace RubyOutline

variable (g : SourceRange → SourceRange)

/-! ### Mapped ranges -/

def SymbolInfo.mapRanges (info : SymbolInfo) : SymbolInfo :=
  { info with range := g info.range, selectionRange := g info.selectionRange }

namespace Symbol

mutual

/-- The symbol with a function applied to its ranges and to those of all symbols below it. -/
def mapRanges : Symbol → Symbol
  | ⟨info, children⟩ => ⟨info.mapRanges g, mapRangesAll children⟩

def mapRangesAll : List Symbol → List Symbol
  | [] => []
  | s :: ss => s.mapRanges :: mapRangesAll ss

end

theorem mapRangesAll_eq_map (ss : List Symbol) : mapRangesAll g ss = ss.map (mapRanges g) := by
  induction ss with
  | nil => rfl
  | cons s ss ih => rw [mapRangesAll, List.map_cons, ih]

theorem mapRanges_mk (info : SymbolInfo) (children : List Symbol) :
    mapRanges g ⟨info, children⟩ = ⟨info.mapRanges g, children.map (mapRanges g)⟩ := by
  rw [mapRanges, mapRangesAll_eq_map]

mutual

/-- Two maps in a row are one. -/
theorem mapRanges_mapRanges (f g : SourceRange → SourceRange) : (s : Symbol) →
    (s.mapRanges g).mapRanges f = s.mapRanges (f ∘ g)
  | ⟨info, children⟩ => by
    rw [mapRanges, mapRanges, mapRanges, mapRangesAll_mapRangesAll f g children]
    rfl

theorem mapRangesAll_mapRangesAll (f g : SourceRange → SourceRange) : (ss : List Symbol) →
    mapRangesAll f (mapRangesAll g ss) = mapRangesAll (f ∘ g) ss
  | [] => rfl
  | s :: ss => by
    rw [mapRangesAll, mapRangesAll, mapRangesAll, mapRanges_mapRanges f g s,
      mapRangesAll_mapRangesAll f g ss]

end

theorem map_mapRanges_leaf (infos : List SymbolInfo) :
    (infos.map leaf).map (mapRanges g) = (infos.map (·.mapRanges g)).map leaf := by
  rw [List.map_map, List.map_map]
  exact List.map_congr_left fun info _ => mapRanges_mk g info []

end Symbol

/-- A layer with a function applied to the ranges within it: that of a declared name and that of the
message of a call. -/
def Form.mapRanges {α : Type} : Form α → Form α
  | .classDecl name nameRange superclass body => .classDecl name (g nameRange) superclass body
  | .moduleDecl name nameRange body => .moduleDecl name (g nameRange) body
  | .methodDecl name nameRange body => .methodDecl name (g nameRange) body
  | .call c => .call { c with messageRange := g c.messageRange }
  | form => form

theorem Form.holes_mapRanges {α : Type} (form : Form α) :
    (form.mapRanges g).holes = form.holes := by
  cases form <;> rfl

/-- Ranges can be mapped before or after the holes are filled. -/
theorem Form.map_mapRanges {α β : Type} (form : Form α) (f fBlock : α → β) :
    (form.mapRanges g).map f fBlock = (form.map f fBlock).mapRanges g := by
  cases form <;> rfl

namespace SyntaxNode

/-- The tree with a function applied to every range in it. -/
def mapRanges : SyntaxNode → SyntaxNode := mapLayers g (Form.mapRanges g)

theorem mapRanges_eq (n : SyntaxNode) :
    n.mapRanges g = ⟨g n.range, (n.form.map (mapRanges g) (mapRanges g)).mapRanges g⟩ :=
  mapLayers_eq g (Form.mapRanges g) n

theorem childNodes_mapRanges (n : SyntaxNode) :
    (n.mapRanges g).childNodes = n.childNodes.map (mapRanges g) :=
  childNodes_mapLayers g (Form.holes_mapRanges g) n

end SyntaxNode

variable {g} {table : MacroTable}

/-! ### What calls see -/

namespace SyntaxNode

theorem isSelf_mapRanges (n : SyntaxNode) : (n.mapRanges g).isSelf = n.isSelf := by
  obtain ⟨range, form⟩ := n
  rw [mapRanges_eq]
  cases form <;> rfl

theorem constantName_mapRanges (n : SyntaxNode) :
    (n.mapRanges g).constantName = n.constantName := by
  obtain ⟨range, form⟩ := n
  rw [mapRanges_eq]
  cases form <;> rfl

theorem displayName_mapRanges (n : SyntaxNode) : (n.mapRanges g).displayName = n.displayName := by
  obtain ⟨range, form⟩ := n
  rw [mapRanges_eq]
  cases form with
  | call c =>
    show (c.receiver.map (mapRanges g)).bind constantName = c.receiver.bind constantName
    cases c.receiver with
    | none => rfl
    | some receiver => exact constantName_mapRanges receiver
  | _ => rfl

theorem attributeLeaf_mapRanges (n : SyntaxNode) :
    attributeLeaf (n.mapRanges g) = (attributeLeaf n).map (SymbolInfo.mapRanges g) := by
  have hname : (n.mapRanges g).displayName = n.displayName := displayName_mapRanges n
  obtain ⟨range, form⟩ := n
  rw [mapRanges_eq] at hname ⊢
  cases form with
  | symbolLiteral | stringLiteral =>
    rw [attributeLeaf, attributeLeaf]
    dsimp only [Form.map, Form.mapRanges] at hname ⊢
    rw [hname, Option.map_map]
    rfl
  | _ => rfl

end SyntaxNode

open SyntaxNode

/-! ### Leaves -/

namespace Call

/-- A call with a function applied to every range in it. -/
def mapRanges (g : SourceRange → SourceRange) (c : Call SyntaxNode) : Call SyntaxNode :=
  { c.map (SyntaxNode.mapRanges g) (SyntaxNode.mapRanges g) with messageRange := g c.messageRange }

theorem onSelf_mapRanges (c : Call SyntaxNode) : (c.mapRanges g).onSelf = c.onSelf := by
  rw [onSelf_eq, onSelf_eq]
  show (((c.receiver.map (SyntaxNode.mapRanges g)).map face).map (·.isSelf)).getD true = _
  cases c.receiver with
  | none => rfl
  | some receiver => exact isSelf_mapRanges receiver

end Call

theorem filterMap_displayName_mapRanges (ns : List SyntaxNode) :
    (ns.map (SyntaxNode.mapRanges g)).filterMap (·.displayName) =
      ns.filterMap (·.displayName) := by
  rw [List.filterMap_map]
  exact List.filterMap_congr fun n _ => displayName_mapRanges n

theorem callbackNames_mapRanges (ns : List SyntaxNode) (block : Option SyntaxNode) :
    callbackNames (ns.map (SyntaxNode.mapRanges g)) (block.map (SyntaxNode.mapRanges g)) =
      callbackNames ns block := by
  unfold callbackNames
  rw [List.isEmpty_map, Option.isSome_map, filterMap_displayName_mapRanges]

/-- What the mapped call is recognised as has the leaves of the call, mapped. -/
theorem Call.RecognizedAlike.leaves_mapRanges {c : Call SyntaxNode} {r r' : Recognition}
    (h : c.RecognizedAlike (c.mapRanges g) r r') (range : SourceRange) :
    r'.leaves (g range) (c.mapRanges g).messageRange =
      (r.leaves range c.messageRange).map (List.map (SymbolInfo.mapRanges g)) := by
  cases h with
  | test =>
    have hname : ((c.arguments.map (SyntaxNode.mapRanges g)).head?.bind (·.displayName)) =
        c.arguments.head?.bind (·.displayName) := by
      cases c.arguments with
      | nil => rfl
      | cons first rest => exact displayName_mapRanges first
    simp only [Recognition.leaves, Call.mapRanges, Call.map, hname, Option.map_some, List.map_map]
    rfl
  | callback callback =>
    have hnames : callbackNames
          (if callback.acceptsArguments then (c.mapRanges g).arguments else [])
          (if callback.acceptsBlock then (c.mapRanges g).block else none) =
        callbackNames (if callback.acceptsArguments then c.arguments else [])
          (if callback.acceptsBlock then c.block else none) := by
      refine Eq.trans ?_ (callbackNames_mapRanges (g := g) _ _)
      congr 1 <;> split <;> rfl
    simp only [Recognition.leaves, hnames, Option.map_some, List.map_map]
    rfl
  | attributes =>
    simp only [Recognition.leaves, Call.mapRanges, Call.map, Option.map_some, List.filterMap_map,
      List.map_filterMap]
    exact congrArg some (List.filterMap_congr fun n _ => attributeLeaf_mapRanges n)
  | unrecognized => rfl

/-! ### Outlines -/

def Contribution.mapRanges (g : SourceRange → SourceRange) : Contribution → Contribution
  | .container info superclass => .container (info.mapRanges g) superclass
  | .leaves infos => .leaves (infos.map (·.mapRanges g))
  | .passage => .passage

namespace SyntaxNode

theorem contribution_mapRanges (superclass : Option String) (n : SyntaxNode) :
    (n.mapRanges g).contribution table superclass =
      (n.contribution table superclass).mapRanges g := by
  obtain ⟨range, form⟩ := n
  rw [mapRanges_eq]
  cases form with
  | call c =>
    have hmethod : c.method = (c.mapRanges g).method := rfl
    have halike : c.RecognizedAlike (c.mapRanges g) (c.recognize table superclass)
        ((c.mapRanges g).recognize table superclass) :=
      Call.recognizedAlike hmethod c.onSelf_mapRanges.symm superclass
    show contribution table superclass ⟨g range, .call (c.mapRanges g)⟩ = _
    rw [contribution_call, contribution_call, halike.leaves_mapRanges]
    cases (c.recognize table superclass).leaves range c.messageRange <;> rfl
  | _ => rfl

theorem symbols_mapRanges (context : Context) (n : SyntaxNode) :
    (n.mapRanges g).symbols table context =
      (n.symbols table context).map (Symbol.mapRanges g) := by
  induction n using childNodes_induction generalizing context with
  | step n ih =>
    have hbelow : ∀ context : Context,
        (n.mapRanges g).childNodes.flatMap (·.symbols table context) =
          (n.childNodes.flatMap (·.symbols table context)).map (Symbol.mapRanges g) := by
      intro context
      rw [childNodes_mapRanges, List.flatMap_map, List.map_flatMap]
      exact List.flatMap_congr fun c hc => ih c hc context
    rw [symbols_eq, symbols_eq, contribution_mapRanges]
    cases n.contribution table context.join with
    | container info superclass =>
      simp only [Contribution.mapRanges, hbelow, List.map_singleton, Symbol.mapRanges_mk]
    | leaves infos =>
      simp only [Contribution.mapRanges]
      split
      · exact (Symbol.map_mapRanges_leaf g infos).symm
      · rfl
    | passage => exact hbelow context

end SyntaxNode

/-- **Ranges are only carried along**: mapping the ranges of a tree maps those of its outline. -/
theorem outline_mapRanges (table : MacroTable) (root : SyntaxNode) :
    outline table (root.mapRanges g) = (outline table root).map (Symbol.mapRanges g) := by
  rw [outline_eq, outline_eq, symbols_mapRanges]

end RubyOutline
