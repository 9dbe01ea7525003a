/-
RubyOutline/Proofs/Outline/OpaqueRegions.lean

Regions of a tree that do not show in its outline: the bodies of methods, and of a call that
declares something its keywords, what stands in its block, the bodies of lambdas among the arguments
of a callback, and all arguments of a test but the first.  Whether a call declares something depends
on the class around it, so the relation between two trees that differ in such regions only
(`SyntaxNode.AgreesOutside`) goes down the trees with the context in hand.

Anything can stand in these regions, classes and tests as well.  That the outlines are equal
(`outline_eq_of_agreesOutside`) follows from a stronger fact about the two trees wherever they
stand: they contribute the same symbols, and a call above them sees no difference either
(`SyntaxNode.Alike`).
-/
import RubyOutline.Proofs.Outline.Congruence

namespace RubyOutline

variable {table : MacroTable}

namespace SyntaxNode

/-- Two lambdas over one stretch of source. -/
def LambdasOver (n m : SyntaxNode) : Prop :=
  n.range = m.range ∧ ∃ body body', n.form = .lambda body ∧ m.form = .lambda body'

/-- Two nodes that stand in a context and differ in opaque regions at most. -/
inductive AgreesOutside (table : MacroTable) : Context → SyntaxNode → SyntaxNode → Prop
  /-- Of two nodes of one shape, what stands below agrees. -/
  | layer {context : Context} {range : SourceRange} (pairs : Form (SyntaxNode × SyntaxNode))
      (below : ∀ p ∈ pairs.holes, AgreesOutside table (pairs.within context) p.1 p.2) :
      AgreesOutside table context (leftOf range pairs) (rightOf range pairs)
  /-- The body of a method is opaque. -/
  | method {context : Context} {range nameRange : SourceRange} {name : String}
      (body body' : List SyntaxNode) :
      AgreesOutside table context ⟨range, .methodDecl name nameRange body⟩
        ⟨range, .methodDecl name nameRange body'⟩
  /-- The keywords of a recognised call are opaque, and so is what stands in its block. -/
  | recognized {context : Context} {range messageRange : SourceRange} {method : String}
      (receiver : Option (SyntaxNode × SyntaxNode)) (arguments : List (SyntaxNode × SyntaxNode))
      {keywords keywords' : List (KeywordArgument SyntaxNode)} {block block' : Option SyntaxNode}
      (recognized : Call.recognize table context.join
        ⟨method, messageRange, receiver.map Prod.fst, arguments.map Prod.fst, keywords, block⟩ ≠
          .unrecognized)
      (hreceiver : ∀ p ∈ receiver, AgreesOutside table context p.1 p.2)
      (harguments : ∀ p ∈ arguments, AgreesOutside table context p.1 p.2)
      (hblock : block.isSome = block'.isSome) :
      AgreesOutside table context
        ⟨range, .call ⟨method, messageRange, receiver.map Prod.fst, arguments.map Prod.fst,
          keywords, block⟩⟩
        ⟨range, .call ⟨method, messageRange, receiver.map Prod.snd, arguments.map Prod.snd,
          keywords', block'⟩⟩
  /-- Of a callback the bodies of lambdas among the arguments are opaque as well. -/
  | callback {context : Context} {range messageRange : SourceRange} {method name : String}
      (receiver : Option (SyntaxNode × SyntaxNode)) (arguments : List (SyntaxNode × SyntaxNode))
      {accepted : List SyntaxNode} {trailing : Option SyntaxNode}
      {keywords keywords' : List (KeywordArgument SyntaxNode)} {block block' : Option SyntaxNode}
      (recognized : Call.recognize table context.join
        ⟨method, messageRange, receiver.map Prod.fst, arguments.map Prod.fst, keywords, block⟩ =
          .lifecycleCallback name accepted trailing)
      (hreceiver : ∀ p ∈ receiver, AgreesOutside table context p.1 p.2)
      (harguments : ∀ p ∈ arguments, ¬ p.1.LambdasOver p.2 → AgreesOutside table context p.1 p.2)
      (hblock : block.isSome = block'.isSome) :
      AgreesOutside table context
        ⟨range, .call ⟨method, messageRange, receiver.map Prod.fst, arguments.map Prod.fst,
          keywords, block⟩⟩
        ⟨range, .call ⟨method, messageRange, receiver.map Prod.snd, arguments.map Prod.snd,
          keywords', block'⟩⟩
  /-- Of a test all arguments after the first are opaque as well. -/
  | test {context : Context} {range messageRange : SourceRange} {method : String}
      (receiver : Option (SyntaxNode × SyntaxNode)) {first first' : SyntaxNode}
      {rest rest' : List SyntaxNode} {named : Option SyntaxNode}
      {keywords keywords' : List (KeywordArgument SyntaxNode)} {block block' : Option SyntaxNode}
      (recognized : Call.recognize table context.join
        ⟨method, messageRange, receiver.map Prod.fst, first :: rest, keywords, block⟩ =
          .testDeclaration named)
      (hreceiver : ∀ p ∈ receiver, AgreesOutside table context p.1 p.2)
      (hfirst : AgreesOutside table context first first')
      (hblock : block.isSome = block'.isSome) :
      AgreesOutside table context
        ⟨range, .call ⟨method, messageRange, receiver.map Prod.fst, first :: rest,
          keywords, block⟩⟩
        ⟨range, .call ⟨method, messageRange, receiver.map Prod.snd, first' :: rest',
          keywords', block'⟩⟩

theorem keptByLayers_agreesOutside : KeptByLayers (AgreesOutside table) :=
  fun _ _ pairs below => .layer pairs below

/-! ### What agrees cannot be told apart -/

theorem LambdasOver.face_eq {n m : SyntaxNode} (h : n.LambdasOver m) : n.face = m.face := by
  obtain ⟨range, form⟩ := n
  obtain ⟨range', form'⟩ := m
  obtain ⟨-, body, body', hn, hm⟩ := h
  cases hn
  cases hm
  exact face_lambda range range' body body'

/-- Recognised calls whose receivers and arguments look the same are alike. -/
theorem alike_of_recognized {context : Context} {range : SourceRange} {c c' : Call SyntaxNode}
    (recognized : c.recognize table context.join ≠ .unrecognized)
    (hmethod : c.method = c'.method) (hmessage : c.messageRange = c'.messageRange)
    (hreceiver : c.receiver.map face = c'.receiver.map face)
    (harguments : c.arguments.map face = c'.arguments.map face)
    (hblock : c.block.isSome = c'.block.isSome) :
    Alike table context ⟨range, .call c⟩ ⟨range, .call c'⟩ := by
  have halike : c.RecognizedAlike c' (c.recognize table context.join)
      (c'.recognize table context.join) :=
    Call.recognizedAlike hmethod (Call.onSelf_congr hreceiver) context.join
  refine ⟨face_call_congr hreceiver, symbols_call_congr recognized ?_⟩
  rw [← hmessage]
  exact halike.leaves_eq harguments hblock range c.messageRange

/-- Tests whose receivers and first arguments look the same are alike. -/
theorem alike_of_test {context : Context} {range : SourceRange} {c c' : Call SyntaxNode}
    {named : Option SyntaxNode}
    (recognized : c.recognize table context.join = .testDeclaration named)
    (hmethod : c.method = c'.method) (hmessage : c.messageRange = c'.messageRange)
    (hreceiver : c.receiver.map face = c'.receiver.map face)
    (hfirst : c.arguments.head?.map face = c'.arguments.head?.map face) :
    Alike table context ⟨range, .call c⟩ ⟨range, .call c'⟩ := by
  have hrecognized : c.recognize table context.join ≠ .unrecognized := by
    rw [recognized]
    exact nofun
  have halike : c.RecognizedAlike c' (c.recognize table context.join)
      (c'.recognize table context.join) :=
    Call.recognizedAlike hmethod (Call.onSelf_congr hreceiver) context.join
  refine ⟨face_call_congr hreceiver, symbols_call_congr hrecognized ?_⟩
  rw [recognized] at halike ⊢
  generalize c'.recognize table context.join = r' at halike ⊢
  cases halike
  rw [← hmessage]
  exact leaves_testDeclaration_congr hfirst range c.messageRange

/-- **What agrees outside of opaque regions is alike**, wherever it stands. -/
theorem AgreesOutside.alike {context : Context} {n m : SyntaxNode}
    (h : AgreesOutside table context n m) : Alike table context n m := by
  induction h with
  | layer pairs below ih => exact alike_layer ih
  | method body body' => exact ⟨rfl, rfl⟩
  | recognized receiver arguments recognized _ _ hblock hreceiver harguments =>
    exact alike_of_recognized recognized rfl rfl
      (map_face_congr_option fun p hp => (hreceiver p hp).1)
      (map_face_congr fun p hp => (harguments p hp).1) hblock
  | callback receiver arguments recognized _ _ hblock hreceiver harguments =>
    refine alike_of_recognized (by rw [recognized]; exact nofun) rfl rfl
      (map_face_congr_option fun p hp => (hreceiver p hp).1) (map_face_congr fun p hp => ?_) hblock
    -- lambdas look the same whatever they do
    by_cases hlambda : p.1.LambdasOver p.2
    · exact hlambda.face_eq
    · exact (harguments p hp hlambda).1
  | test receiver recognized _ _ _ hreceiver hfirst =>
    exact alike_of_test recognized rfl rfl (map_face_congr_option fun p hp => (hreceiver p hp).1)
      (congrArg some hfirst.1)

end SyntaxNode

/-! ### Outlines -/

open SyntaxNode

/-- **Opaque regions do not show.**  Trees that differ in opaque regions only, at any number of
places, have equal outlines. -/
theorem outline_eq_of_agreesOutside (table : MacroTable) {root root' : SyntaxNode}
    (h : AgreesOutside table none root root') : outline table root = outline table root' := by
  rw [outline_eq, outline_eq]
  exact h.alike.2

/-- A test case with a method, a test and a callback, and what stands in their opaque regions. -/
def testCaseAround (hidden : List SyntaxNode) : SyntaxNode :=
  let line (i : Nat) : SourceRange := ⟨⟨i, 2⟩, ⟨i, 60⟩⟩
  let method : SyntaxNode := ⟨line 1, .methodDecl "m" (line 1) hidden⟩
  let title : SyntaxNode := ⟨line 2, .stringLiteral ["x"] false⟩
  let test : SyntaxNode := ⟨line 2, .call ⟨"test", line 2, none, title :: hidden,
    hidden.map fun n => ⟨"k", n⟩, some ⟨line 2, .block hidden⟩⟩⟩
  let lambda : SyntaxNode := ⟨line 3, .lambda hidden⟩
  let callback : SyntaxNode := ⟨line 3, .call ⟨"before_save", line 3, none, [lambda],
    hidden.map fun n => ⟨"if", n⟩, none⟩⟩
  ⟨⟨⟨0, 0⟩, ⟨4, 3⟩⟩, .classDecl "ATest" ⟨⟨0, 6⟩, ⟨0, 11⟩⟩ (some "TestCase")
    [method, test, callback]⟩

/-- A whole test case in each of the opaque regions of another one. -/
theorem outline_eq_of_agreesOutside_testCaseAround :
    let root := testCaseAround []
    let root' := testCaseAround [testCaseAround []]
    AgreesOutside .rails none root root' ∧
    ((outline .rails root).flatMap Symbol.walk).map (·.info.name) =
      ["ATest", "m", "x", "before_save(<anonymous>)"] ∧
    outline .rails root = outline .rails root' := by
  intro root root'
  have hpair : ∀ p ∈ root.childNodes.zip root'.childNodes,
      AgreesOutside .rails (some (some "TestCase")) p.1 p.2 := by
    refine List.forall_mem_cons.2 ⟨.method _ _, List.forall_mem_cons.2 ⟨?_,
      List.forall_mem_singleton.2 ?_⟩⟩
    · exact .test none rfl nofun (keptByLayers_agreesOutside.refl _ _) rfl
    · exact .callback none [(_, _)] rfl nofun
        (List.forall_mem_singleton.2 fun h => absurd ⟨rfl, _, _, rfl, rfl⟩ h) rfl
  have hagrees : AgreesOutside .rails none root root' :=
    .layer (.classDecl "ATest" ⟨⟨0, 6⟩, ⟨0, 11⟩⟩ (some "TestCase")
      (root.childNodes.zip root'.childNodes)) hpair
  refine ⟨hagrees, ?_, outline_eq_of_agreesOutside .rails hagrees⟩
  rw [outline_eq]
  decide

end RubyOutline
