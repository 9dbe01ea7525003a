/-
RubyOutline/Proofs/RangesNested.lean

Syntax trees whose ranges are nested: every node contains all its children, a declaration
contains its name, and a call contains the name of its method.  Editors ask as much of the outline
they show.  Containment alone is required; a range may be empty or even end before it starts.
-/
import RubyOutline.SyntaxNode

namespace RubyOutline

variable {α β : Type}

/-- The range of the name that a layer carries: that of a declaration, or that of the method of a
call. -/
def Form.labelRange : Form α → Option SourceRange
  | .classDecl _ nameRange _ _ => some nameRange
  | .moduleDecl _ nameRange _ => some nameRange
  | .methodDecl _ nameRange _ => some nameRange
  | .call c => some c.messageRange
  | _ => none

theorem Form.labelRange_mapHoles (form : Form α) (f fBlock : (a : α) → a ∈ form.holes → β) :
    (form.mapHoles f fBlock).labelRange = form.labelRange := by
  cases form <;> rfl

namespace SyntaxNode

/-- Throughout a tree, nodes contain their children and their names. -/
inductive RangesNested : SyntaxNode → Prop
  | intro {n : SyntaxNode}
      (label : ∀ r, n.form.labelRange = some r → n.range.Contains r)
      (child : ∀ c ∈ n.childNodes, n.range.Contains c.range)
      (below : ∀ c ∈ n.childNodes, c.RangesNested) : n.RangesNested

namespace RangesNested

variable {n c : SyntaxNode}

theorem contains_label (h : n.RangesNested) {r : SourceRange} (hr : n.form.labelRange = some r) :
    n.range.Contains r := by
  cases h with
  | intro label _ _ => exact label r hr

theorem contains_child (h : n.RangesNested) (hc : c ∈ n.childNodes) : n.range.Contains c.range := by
  cases h with
  | intro _ child _ => exact child c hc

theorem of_child (h : n.RangesNested) (hc : c ∈ n.childNodes) : c.RangesNested := by
  cases h with
  | intro _ _ below => exact below c hc

end RangesNested

end SyntaxNode

end RubyOutline
