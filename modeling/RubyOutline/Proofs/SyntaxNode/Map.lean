/-
RubyOutline/Proofs/SyntaxNode/Map.lean

Layers as functors in their holes.  A layer is filled by functions that need only be defined on
its holes, so that a recursion through it can be seen to end.  Once the functions are defined
everywhere this is a plain map (`Form.mapHoles_eq_map`), with the laws of one: two maps in a row
are one, and the holes of a mapped layer are the mapped holes.
-/
import RubyOutline.Proofs.Conversion.Memo

namespace RubyOutline

variable {α β γ : Type}

/-- A call with `f` applied to its holes, and `fBlock` to that of its block. -/
def Call.map (f fBlock : α → β) (c : Call α) : Call β where
  method := c.method
  messageRange := c.messageRange
  receiver := c.receiver.map f
  arguments := c.arguments.map f
  keywords := c.keywords.map fun k => ⟨k.key, f k.value⟩
  block := c.block.map fBlock

/-- A layer with `f` applied to its holes, and `fBlock` to that of the block of a call. -/
def Form.map (f fBlock : α → β) : Form α → Form β
  | .classDecl name nameRange superclass body => .classDecl name nameRange superclass (body.map f)
  | .moduleDecl name nameRange body => .moduleDecl name nameRange (body.map f)
  | .methodDecl name nameRange body => .methodDecl name nameRange (body.map f)
  | .call c => .call (c.map f fBlock)
  | .stringLiteral fragments interpolated => .stringLiteral fragments interpolated
  | .symbolLiteral value => .symbolLiteral value
  | .constantRef name => .constantRef name
  | .constantPath segments rooted => .constantPath segments rooted
  | .lambda body => .lambda (body.map f)
  | .block body => .block (body.map f)
  | .other kind children => .other kind (children.map f)

theorem Call.mapHoles_eq_map (c : Call α) (f fBlock : α → β) :
    (c.mapHoles (fun a _ => f a) fun a _ => fBlock a) = c.map f fBlock := by
  simp only [mapHoles, map, List.pmap_eq_map, Option.pmap_eq_map]

theorem Form.mapHoles_eq_map (form : Form α) (f fBlock : α → β) :
    (form.mapHoles (fun a _ => f a) fun a _ => fBlock a) = form.map f fBlock := by
  cases form with
  | call c => exact congrArg Form.call (c.mapHoles_eq_map f fBlock)
  | classDecl | moduleDecl | methodDecl | lambda | block | other =>
    simp only [mapHoles, map]
    congr 1
    exact List.pmap_eq_map _
  | stringLiteral | symbolLiteral | constantRef | constantPath => rfl

theorem Form.map_map (form : Form α) (f fBlock : α → β) (g gBlock : β → γ) :
    (form.map f fBlock).map g gBlock = form.map (g ∘ f) (gBlock ∘ fBlock) := by
  cases form with
  | call c =>
    obtain ⟨method, messageRange, receiver, arguments, keywords, block⟩ := c
    simp [map, Call.map]
  | classDecl | moduleDecl | methodDecl | lambda | block | other => simp [map]
  | stringLiteral | symbolLiteral | constantRef | constantPath => rfl

theorem Form.map_id (form : Form α) : form.map id id = form := by
  cases form with
  | call c =>
    obtain ⟨method, messageRange, receiver, arguments, keywords, block⟩ := c
    simp [map, Call.map]
  | classDecl | moduleDecl | methodDecl | lambda | block | other => simp [map]
  | stringLiteral | symbolLiteral | constantRef | constantPath => rfl

/-- What does not tell a filled hole from what stood in it sees the same holes before and after. -/
theorem Form.map_holes_map (form : Form α) {f fBlock : α → β} {h : β → γ} {g : α → γ}
    (hf : ∀ a, h (f a) = g a) (hBlock : ∀ a, h (fBlock a) = g a) :
    (form.map f fBlock).holes.map h = form.holes.map g := by
  cases form with
  | call c =>
    obtain ⟨method, messageRange, receiver, arguments, keywords, block⟩ := c
    cases receiver <;> cases block <;>
      simp [map, holes, Call.map, Call.holes, hf, hBlock, Function.comp_def]
  | classDecl | moduleDecl | methodDecl | lambda | block | other => simp [map, holes, hf]
  | stringLiteral | symbolLiteral | constantRef | constantPath => rfl

theorem Form.holes_map (form : Form α) (f : α → β) : (form.map f f).holes = form.holes.map f := by
  have h := form.map_holes_map (h := id) (g := f) (fun _ => rfl) fun _ => rfl
  rwa [List.map_id] at h

/-- Maps that agree on the holes of a layer give the same. -/
theorem Form.map_congr {form : Form α} {f g fBlock gBlock : α → β}
    (hf : ∀ a ∈ form.holes, f a = g a) (hBlock : ∀ a ∈ form.holes, fBlock a = gBlock a) :
    form.map f fBlock = form.map g gBlock := by
  rw [← mapHoles_eq_map, ← mapHoles_eq_map]
  exact mapHoles_congr hf hBlock

/-! ### Parts and blocks -/

/-- What stands in the holes of a layer, the block of a call apart. -/
def Form.parts : Form α → List α
  | .call c => c.receiver.toList ++ c.arguments ++ c.keywords.map (·.value)
  | form => form.holes

/-- What stands in the hole for the block of a call. -/
def Form.block? : Form α → Option α
  | .call c => c.block
  | _ => none

/-- Of the two functions that fill a layer the first matters to the parts and the second to the
block. -/
theorem Form.map_congr_parts {form : Form α} {f g fBlock gBlock : α → β}
    (hf : ∀ a ∈ form.parts, f a = g a) (hBlock : ∀ b ∈ form.block?, fBlock b = gBlock b) :
    form.map f fBlock = form.map g gBlock := by
  cases form with
  | call c =>
    obtain ⟨method, messageRange, receiver, arguments, keywords, block⟩ := c
    simp only [parts, List.mem_append, Option.mem_toList, List.mem_map] at hf
    simp only [map, Call.map, Form.call.injEq, Call.mk.injEq, true_and]
    refine ⟨?_, ?_, ?_, Option.map_congr hBlock⟩
    · exact Option.map_congr fun a ha => hf a (.inl (.inl ha))
    · exact List.map_congr_left fun a ha => hf a (.inl (.inr ha))
    · refine List.map_congr_left fun k hk => ?_
      rw [hf k.value (.inr ⟨k, hk, rfl⟩)]
  | classDecl | moduleDecl | methodDecl | lambda | block | other =>
    simp only [map]
    congr 1
    exact List.map_congr_left hf
  | stringLiteral | symbolLiteral | constantRef | constantPath => rfl

/-- The conversion of a node is its layer with the holes converted. -/
theorem Converter.convert_eq_map (cv : Converter) (n : ParseNode) :
    cv.convert n = ⟨cv.range n, (cv.layer (fun _ => none) n).map cv.convert cv.convertBlock⟩ := by
  rw [convert_eq, Form.mapHoles_eq_map]

end RubyOutline
