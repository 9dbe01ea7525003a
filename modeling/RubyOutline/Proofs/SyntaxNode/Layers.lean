/-
RubyOutline/Proofs/SyntaxNode/Layers.lean

Trees rewritten layer by layer.  One function is applied to the range of every node and another to
its form, once what stands in the holes of the form has been rewritten.  If the second function
leaves the holes alone, the rewritten tree has the shape of the old one, child by child
(`SyntaxNode.childNodes_mapLayers`).
-/
import RubyOutline.Proofs.SyntaxNode.Map

namespace RubyOutline.SyntaxNode

variable (onRange : SourceRange → SourceRange) (onForm : Form SyntaxNode → Form SyntaxNode)

def mapLayers (n : SyntaxNode) : SyntaxNode :=
  ⟨onRange n.range,
    onForm (n.form.mapHoles (fun c _ => mapLayers c) fun c _ => mapLayers c)⟩
termination_by sizeOf n
decreasing_by all_goals exact sizeOf_lt_of_mem_childNodes ‹_›

theorem mapLayers_eq (n : SyntaxNode) :
    n.mapLayers onRange onForm =
      ⟨onRange n.range,
        onForm (n.form.map (mapLayers onRange onForm) (mapLayers onRange onForm))⟩ := by
  rw [mapLayers, Form.mapHoles_eq_map]

theorem childNodes_mapLayers {onForm : Form SyntaxNode → Form SyntaxNode}
    (h : ∀ form, (onForm form).holes = form.holes) (n : SyntaxNode) :
    (n.mapLayers onRange onForm).childNodes = n.childNodes.map (mapLayers onRange onForm) := by
  rw [mapLayers_eq, childNodes, h, childNodes, Form.holes_map]

end RubyOutline.SyntaxNode
