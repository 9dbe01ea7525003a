/-
RubyOutline/Proofs/Outline/Congruence.lean

When one tree can stand for another in an outline.  It must contribute the same symbols where it
stands; and since a call looks at its receiver and at its arguments, it must also look the same to a
call above it (`SyntaxNode.face`).

Two trees of one shape are written as one layer that has pairs in its holes, the left tree and the
right one (`Form (SyntaxNode × SyntaxNode)`).  If the two of each pair look the same and contribute
the same, so do the two trees over them (`SyntaxNode.alike_layer`).  A proof about two trees that
differ somewhere below is then an induction down to the place.
-/
import RubyOutline.Proofs.Outline.Walk
import RubyOutline.Proofs.SyntaxNode.Map

namespace RubyOutline

variable {table : MacroTable}

/-! ### What calls see -/

namespace SyntaxNode

/-- A node is the keyword `self`. -/
def isSelf (n : SyntaxNode) : Bool :=
  match n.form with
  | .other kind _ => kind == "self"
  | _ => false

/-- What a call sees of its receiver and of each argument. -/
structure Face where
  isSelf : Bool
  constantName : Option String
  displayName : Option String
  declaredField : Option SymbolInfo

/-- What a call above a node sees of it. -/
def face (n : SyntaxNode) : Face :=
  ⟨n.isSelf, n.constantName, n.displayName, n.declaredField⟩

/-- All lambdas look the same. -/
theorem face_lambda (range range' : SourceRange) (body body' : List SyntaxNode) :
    face ⟨range, .lambda body⟩ = face ⟨range', .lambda body'⟩ := rfl

end SyntaxNode

open SyntaxNode

theorem Call.onSelf_eq (c : Call SyntaxNode) :
    c.onSelf = ((c.receiver.map face).map (·.isSelf)).getD true := by
  unfold onSelf
  cases c.receiver with
  | none => rfl
  | some receiver =>
    obtain ⟨range, form⟩ := receiver
    cases form <;> rfl

theorem Call.onSelf_congr {c c' : Call SyntaxNode}
    (h : c.receiver.map face = c'.receiver.map face) : c.onSelf = c'.onSelf := by
  rw [onSelf_eq, onSelf_eq, h]

/-- What two calls of one method can be recognised as if both are on `self` or neither is: the same
in kind, each with its own arguments and its own block. -/
inductive Call.RecognizedAlike (c c' : Call SyntaxNode) : Recognition → Recognition → Prop
  | test : RecognizedAlike c c' (.testDeclaration c.arguments.head?)
      (.testDeclaration c'.arguments.head?)
  | callback (callback : CallbackMacro) : RecognizedAlike c c'
      (.lifecycleCallback callback.name (if callback.acceptsArguments then c.arguments else [])
        (if callback.acceptsBlock then c.block else none))
      (.lifecycleCallback callback.name (if callback.acceptsArguments then c'.arguments else [])
        (if callback.acceptsBlock then c'.block else none))
  | attributes : RecognizedAlike c c' (.attributeDeclaration c.arguments)
      (.attributeDeclaration c'.arguments)
  | unrecognized : RecognizedAlike c c' .unrecognized .unrecognized

theorem Call.recognizedAlike {c c' : Call SyntaxNode} (hmethod : c.method = c'.method)
    (hself : c.onSelf = c'.onSelf) (superclass : Option String) :
    c.RecognizedAlike c' (c.recognize table superclass) (c'.recognize table superclass) := by
  unfold recognize
  rw [← hmethod, ← hself]
  split
  · split
    · exact .test
    · cases table.callback? c.method with
      | some callback => exact .callback callback
      | none =>
        dsimp only
        split
        · exact .attributes
        · exact .unrecognized
  · exact .unrecognized

/-! ### Leaves -/

theorem filterMap_displayName_eq (ns : List SyntaxNode) :
    ns.filterMap (·.displayName) = (ns.map face).filterMap (·.displayName) := by
  rw [List.filterMap_map]
  rfl

theorem filterMap_attributeLeaf_eq (ns : List SyntaxNode) :
    ns.filterMap attributeLeaf = (ns.map face).filterMap (·.declaredField) := by
  rw [funext attributeLeaf_eq_declaredField, List.filterMap_map]
  rfl

theorem callbackNames_congr {ns ms : List SyntaxNode} (h : ns.map face = ms.map face)
    {b b' : Option SyntaxNode} (hb : b.isSome = b'.isSome) :
    callbackNames ns b = callbackNames ms b' := by
  have hempty : ns.isEmpty = ms.isEmpty := by
    rw [← List.isEmpty_map (f := face), h, List.isEmpty_map]
  unfold callbackNames
  rw [hempty, hb, filterMap_displayName_eq, h, ← filterMap_displayName_eq]

/-- The leaf of a test depends on the first argument only. -/
theorem leaves_testDeclaration_congr {first first' : Option SyntaxNode}
    (h : first.map face = first'.map face) (range messageRange : SourceRange) :
    (Recognition.testDeclaration first).leaves range messageRange =
      (Recognition.testDeclaration first').leaves range messageRange := by
  have hname : ∀ first : Option SyntaxNode,
      first.bind (·.displayName) = (first.map face).bind (·.displayName) := fun first => by
    cases first <;> rfl
  rw [Recognition.leaves, Recognition.leaves, hname, h, ← hname]

/-- Calls that are recognised alike contribute the same leaves if their arguments look the same and
both have a block or both have none. -/
theorem Call.RecognizedAlike.leaves_eq {c c' : Call SyntaxNode} {r r' : Recognition}
    (h : c.RecognizedAlike c' r r') (harguments : c.arguments.map face = c'.arguments.map face)
    (hblock : c.block.isSome = c'.block.isSome) (range messageRange : SourceRange) :
    r.leaves range messageRange = r'.leaves range messageRange := by
  cases h with
  | test =>
    refine leaves_testDeclaration_congr ?_ range messageRange
    rw [← List.head?_map, harguments, List.head?_map]
  | callback callback =>
    have hnames : callbackNames (if callback.acceptsArguments then c.arguments else [])
          (if callback.acceptsBlock then c.block else none) =
        callbackNames (if callback.acceptsArguments then c'.arguments else [])
          (if callback.acceptsBlock then c'.block else none) := by
      refine callbackNames_congr ?_ ?_
      · split
        · exact harguments
        · rfl
      · split
        · exact hblock
        · rfl
    rw [Recognition.leaves, Recognition.leaves, hnames]
  | attributes =>
    rw [Recognition.leaves, Recognition.leaves, filterMap_attributeLeaf_eq, harguments,
      ← filterMap_attributeLeaf_eq]
  | unrecognized => rfl

theorem leaves_isSome {r : Recognition} (h : r ≠ .unrecognized) (range messageRange : SourceRange) :
    ∃ infos, r.leaves range messageRange = some infos := by
  cases r with
  | unrecognized => exact absurd rfl h
  | testDeclaration | lifecycleCallback | attributeDeclaration => exact ⟨_, rfl⟩

/-- Recognised calls with the same leaves contribute the same symbols, whatever is below them. -/
theorem symbols_call_congr {context : Context} {range : SourceRange} {c c' : Call SyntaxNode}
    (h : c.recognize table context.join ≠ .unrecognized)
    (hleaves : (c.recognize table context.join).leaves range c.messageRange =
      (c'.recognize table context.join).leaves range c'.messageRange) :
    symbols table context ⟨range, .call c⟩ = symbols table context ⟨range, .call c'⟩ := by
  obtain ⟨infos, hinfos⟩ := leaves_isSome h range c.messageRange
  rw [symbols_eq, symbols_eq, contribution_call, contribution_call, ← hleaves, hinfos]

/-! ### Layers of pairs -/

/-- The context of what stands in the holes of a layer. -/
def Form.within {α : Type} (context : Context) : Form α → Context
  | .classDecl _ _ superclass _ => some superclass
  | .moduleDecl _ _ _ => some none
  | _ => context

theorem Form.within_map {α β : Type} (form : Form α) (f fBlock : α → β) (context : Context) :
    (form.map f fBlock).within context = form.within context := by
  cases form <;> rfl

theorem within_of_container {superclass : Option String} {n : SyntaxNode} {info : SymbolInfo}
    {own : Option String} (h : n.contribution table superclass = .container info own)
    (context : Context) : n.form.within context = some own := by
  rcases cases_of_container h with ⟨name, nameRange, body, hform, -⟩ |
    ⟨name, nameRange, body, hform, rfl, -⟩ <;>
  · rw [hform]
    rfl

theorem within_of_passage {superclass : Option String} {n : SyntaxNode}
    (h : n.contribution table superclass = .passage) (context : Context) :
    n.form.within context = context := by
  obtain ⟨range, form⟩ := n
  cases form with
  | classDecl | moduleDecl => cases h
  | _ => rfl

/-- The left trees and the right trees of pairs, each under the layer that holds the pairs. -/
def leftOf (range : SourceRange) (pairs : Form (SyntaxNode × SyntaxNode)) : SyntaxNode :=
  ⟨range, pairs.map Prod.fst Prod.fst⟩

def rightOf (range : SourceRange) (pairs : Form (SyntaxNode × SyntaxNode)) : SyntaxNode :=
  ⟨range, pairs.map Prod.snd Prod.snd⟩

variable {range : SourceRange} {pairs : Form (SyntaxNode × SyntaxNode)}

theorem childNodes_leftOf : (leftOf range pairs).childNodes = pairs.holes.map Prod.fst :=
  pairs.holes_map Prod.fst

theorem childNodes_rightOf : (rightOf range pairs).childNodes = pairs.holes.map Prod.snd :=
  pairs.holes_map Prod.snd

theorem map_face_congr {ps : List (SyntaxNode × SyntaxNode)} (h : ∀ p ∈ ps, p.1.face = p.2.face) :
    (ps.map Prod.fst).map face = (ps.map Prod.snd).map face := by
  rw [List.map_map, List.map_map]
  exact List.map_congr_left h

theorem map_face_congr_option {p : Option (SyntaxNode × SyntaxNode)}
    (h : ∀ q ∈ p, q.1.face = q.2.face) :
    (p.map Prod.fst).map face = (p.map Prod.snd).map face := by
  cases p with
  | none => rfl
  | some p => exact congrArg some (h p rfl)

/-- The face of a call is that of its receiver. -/
theorem face_call_congr {range' : SourceRange} {c c' : Call SyntaxNode}
    (h : c.receiver.map face = c'.receiver.map face) :
    face ⟨range, .call c⟩ = face ⟨range', .call c'⟩ := by
  have hname : ∀ receiver : Option SyntaxNode,
      receiver.bind (·.constantName) = (receiver.map face).bind (·.constantName) :=
    fun receiver => by cases receiver <;> rfl
  have hdisplay : c.receiver.bind (·.constantName) = c'.receiver.bind (·.constantName) := by
    rw [hname, h, ← hname]
  exact congrArg (Face.mk false none · none) hdisplay

/-- Over pairs that look the same, so do the two trees. -/
theorem face_congr (h : ∀ p ∈ pairs.holes, p.1.face = p.2.face) :
    (leftOf range pairs).face = (rightOf range pairs).face := by
  cases pairs with
  | call c =>
    refine face_call_congr (map_face_congr_option fun p hp => h p ?_)
    simp [Form.holes, Call.holes, Option.mem_def.1 hp]
  | _ => rfl

theorem contribution_congr (h : ∀ p ∈ pairs.holes, p.1.face = p.2.face)
    (superclass : Option String) :
    (leftOf range pairs).contribution table superclass =
      (rightOf range pairs).contribution table superclass := by
  cases pairs with
  | call c =>
    have hreceiver : (c.receiver.map Prod.fst).map face = (c.receiver.map Prod.snd).map face :=
      map_face_congr_option fun p hp => h p (by simp [Form.holes, Call.holes, Option.mem_def.1 hp])
    have harguments : (c.arguments.map Prod.fst).map face = (c.arguments.map Prod.snd).map face :=
      map_face_congr fun p hp => h p (by simp [Form.holes, Call.holes, hp])
    let left := c.map Prod.fst Prod.fst
    let right := c.map Prod.snd Prod.snd
    have hmethod : left.method = right.method := rfl
    have halike : left.RecognizedAlike right (left.recognize table superclass)
        (right.recognize table superclass) :=
      Call.recognizedAlike hmethod (Call.onSelf_congr hreceiver) superclass
    have hleaves : (left.recognize table superclass).leaves range left.messageRange =
        (right.recognize table superclass).leaves range right.messageRange :=
      halike.leaves_eq harguments (by simp [left, right, Call.map]) range c.messageRange
    show contribution table superclass ⟨range, .call left⟩ =
      contribution table superclass ⟨range, .call right⟩
    rw [contribution_call, contribution_call, hleaves]
  | _ => rfl

/-- Over pairs that look the same, and contribute the same symbols where they stand, the two trees
contribute the same. -/
theorem symbols_congr {context : Context} (hface : ∀ p ∈ pairs.holes, p.1.face = p.2.face)
    (hsymbols : ∀ p ∈ pairs.holes, p.1.symbols table (pairs.within context) =
      p.2.symbols table (pairs.within context)) :
    (leftOf range pairs).symbols table context = (rightOf range pairs).symbols table context := by
  have hchildren : (leftOf range pairs).childNodes.flatMap
        (·.symbols table (pairs.within context)) =
      (rightOf range pairs).childNodes.flatMap (·.symbols table (pairs.within context)) := by
    rw [childNodes_leftOf, childNodes_rightOf, List.flatMap_map, List.flatMap_map]
    exact List.flatMap_congr hsymbols
  have hwithin : ∀ context, (leftOf range pairs).form.within context = pairs.within context :=
    fun context => pairs.within_map _ _ context
  rw [symbols_eq, symbols_eq, ← contribution_congr hface]
  cases hcontribution : (leftOf range pairs).contribution table context.join with
  | container info own =>
    have hown : pairs.within context = some own :=
      (hwithin context).symm.trans (within_of_container hcontribution context)
    rw [hown] at hchildren
    simp only [hchildren]
  | leaves infos => rfl
  | passage =>
    have hsame : pairs.within context = context :=
      (hwithin context).symm.trans (within_of_passage hcontribution context)
    rw [hsame] at hchildren
    exact hchildren

/-! ### Relations that layers keep -/

/-- A relation between trees that holds of two trees of one shape if it holds of each pair below. -/
def KeptByLayers (R : Context → SyntaxNode → SyntaxNode → Prop) : Prop :=
  ∀ (context : Context) (range : SourceRange) (pairs : Form (SyntaxNode × SyntaxNode)),
    (∀ p ∈ pairs.holes, R (pairs.within context) p.1 p.2) →
    R context (leftOf range pairs) (rightOf range pairs)

theorem KeptByLayers.map {R : Context → SyntaxNode → SyntaxNode → Prop} (hR : KeptByLayers R)
    {context : Context} {n : SyntaxNode} {r : SyntaxNode → SyntaxNode}
    (h : ∀ c ∈ n.childNodes, R (n.form.within context) c (r c)) :
    R context n ⟨n.range, n.form.map r r⟩ := by
  obtain ⟨range, form⟩ := n
  let pairs := form.map (fun c => (c, r c)) fun c => (c, r c)
  have hleft : leftOf range pairs = ⟨range, form⟩ :=
    congrArg (SyntaxNode.mk range) ((form.map_map _ _ _ _).trans form.map_id)
  have hright : rightOf range pairs = ⟨range, form.map r r⟩ :=
    congrArg (SyntaxNode.mk range) (form.map_map _ _ _ _)
  have hpairs : R context (leftOf range pairs) (rightOf range pairs) := by
    refine hR context range pairs fun p hp => ?_
    rw [Form.holes_map] at hp
    obtain ⟨c, hc, rfl⟩ := List.mem_map.1 hp
    rw [Form.within_map]
    exact h c hc
  rwa [hleft, hright] at hpairs

theorem KeptByLayers.refl {R : Context → SyntaxNode → SyntaxNode → Prop} (hR : KeptByLayers R)
    (context : Context) (n : SyntaxNode) : R context n n := by
  induction n using childNodes_induction generalizing context with
  | step n ih =>
    have hmap : R context n ⟨n.range, n.form.map id id⟩ := hR.map fun c hc => ih c hc _
    obtain ⟨range, form⟩ := n
    rwa [Form.map_id] at hmap

/-! ### Trees that cannot be told apart -/

/-- Two nodes contribute the same symbols where they stand, and look the same to a call. -/
def SyntaxNode.Alike (table : MacroTable) (context : Context) (n m : SyntaxNode) : Prop :=
  n.face = m.face ∧ n.symbols table context = m.symbols table context

/-- **Congruence.**  Over pairs that are alike, so are the two trees. -/
theorem SyntaxNode.alike_layer {context : Context}
    (h : ∀ p ∈ pairs.holes, Alike table (pairs.within context) p.1 p.2) :
    Alike table context (leftOf range pairs) (rightOf range pairs) := by
  have hface : ∀ p ∈ pairs.holes, p.1.face = p.2.face := fun p hp => (h p hp).1
  exact ⟨face_congr hface, symbols_congr hface fun p hp => (h p hp).2⟩

theorem SyntaxNode.keptByLayers_alike : KeptByLayers (Alike table) := fun _ _ _ => alike_layer

theorem SyntaxNode.Alike.trans {context : Context} {n m k : SyntaxNode}
    (hnm : Alike table context n m) (hmk : Alike table context m k) : Alike table context n k :=
  ⟨hnm.1.trans hmk.1, hnm.2.trans hmk.2⟩

theorem outline_eq_of_alike {root root' : SyntaxNode} (h : Alike table none root root') :
    outline table root = outline table root' := by
  rw [outline_eq, outline_eq]
  exact h.2

end RubyOutline
