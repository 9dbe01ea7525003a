/-
RubyOutline/Proofs/Conversion/Errors.lean

What becomes of the errors that the grammar recovers from.  An error is a node of the kind `ERROR`,
and may hang anywhere in a parse tree.  In the syntax tree it is to stay as a placeholder with the
range of the error, so that what is declared in it is found.  It does stay if a way leads to it that
passes through nothing shut (`Converter.error_mem_convertTree`).

Calls, pairs and lambdas are read by the fields they have.  An error among their other children is
in no field, and is lost with all that is declared in it (`Converter.error_lost_beforeArguments`).
So is one that is a field itself: an error that stands for the arguments, for a block or for the
body of a lambda is opened, and only what is in it stays.

The invariant (`Converter.Kept`) says where a way can stand while what is ahead of it is converted.
It asks nothing of the tree but ids that tell its nodes apart, since a tree with errors need not be
as the grammar has it.
-/
import RubyOutline.Proofs.Conversion.Reached

namespace RubyOutline

/-! ### Ways to errors -/

namespace ParseNode

/-- The parameters of a block. -/
def blockParameters (n : ParseNode) : Option ParseNode :=
  n.child? "parameters" <|> n.childOfKind? "block_parameters"

/-- A node is read as a block, whatever it is: it is attached as its block to a call, or is the body
of a lambda, the first of the nodes above it. -/
def ReadAsBlock : List ParseNode → ParseNode → Prop
  | [], _ => False
  | p :: _, n =>
    p.CallsMethod ∧ p.child? "block" = some n ∨ p.shape = .lambda ∧ p.child? "body" = some n

/-- A child is no code, or is read for its text: a comment, a part of a literal, or the head of a
declaration or of a block. -/
inductive NoCode (above : List ParseNode) (p c : ParseNode) : Prop
  | comment (shape : c.shape = .skipped)
  | literal (h : p.IsLiteral)
  | head (h : some c ∈ p.heads)
  | parameters (hblock : ReadAsBlock above p) (h : p.blockParameters = some c)

/-- What is shut to a way that is to find the errors: what is no code, and what calls, pairs and
lambdas do not read. -/
def Unread (above : List ParseNode) (p c : ParseNode) : Prop :=
  NoCode above p c ∨ Shut above p c

theorem not_noCode {above : List ParseNode} {p c : ParseNode} (hcomment : c.shape ≠ .skipped)
    (hliteral : ¬ p.IsLiteral) (hhead : some c ∉ p.heads)
    (hblock : ReadAsBlock above p → p.blockParameters = none) : ¬ NoCode above p c := by
  intro h
  cases h with
  | comment shape => exact hcomment shape
  | literal h => exact hliteral h
  | head h => exact hhead h
  | parameters h hsome => simp [hblock h] at hsome

theorem isPair_of_isPairArgument {above : List ParseNode} {p : ParseNode}
    (h : IsPairArgument above p) : Converter.isPair p := by
  cases above with
  | nil => exact h.elim
  | cons => exact h.2

theorem not_unread_of_spliced {above : List ParseNode} {p c : ParseNode} (hp : p.Spliced)
    (hhead : some c ∉ p.heads) (hpair : ¬ Converter.isPair p) (hcomment : c.shape ≠ .skipped)
    (hblock : ReadAsBlock above p → p.blockParameters = none) : ¬ Unread above p c := by
  refine not_or.2 ⟨not_noCode hcomment hp.not_literal hhead hblock, ?_⟩
  refine not_shut_of_spliced hp (fun h => ?_) hcomment hhead
  exact absurd (isPair_of_isPairArgument h) hpair

end ParseNode

/-- The kind of a node that is only traversed. -/
def SyntaxNode.otherKind? (n : SyntaxNode) : Option String :=
  match n.form with
  | .other kind _ => some kind
  | _ => none

namespace Converter

open ParseNode

variable {cv : Converter} {root : ParseNode}

/-! ### What a converted node converts -/

theorem childNodes_convert_of_callsMethod (cv : Converter) {n : ParseNode} (h : n.CallsMethod) :
    (cv.convert n).childNodes =
      ((n.child? "receiver").toList ++ (argumentNodes n).filter (!isPair ·) ++
        ((argumentNodes n).filter isPair).flatMap cv.keywordValue).map cv.convert ++
        (n.child? "block").toList.map cv.convertBlock := by
  obtain ⟨method, hlayer⟩ := cv.layer_of_callsMethod h
  rw [convert_eq_map, hlayer, ← map_value_filterMap_keyword]
  simp only [SyntaxNode.childNodes, callForm, Form.map, Form.holes, Call.map, Call.holes,
    List.map_append, List.map_map, Option.toList_map]
  rfl

/-- All nodes but calls convert what is in their holes. -/
theorem childNodes_convert_of_not_callsMethod (cv : Converter) {n : ParseNode}
    (h : ¬ n.CallsMethod) :
    (cv.convert n).childNodes = (cv.layer (fun _ => none) n).holes.map cv.convert := by
  rw [convert_eq_map]
  have hform := cv.isLayer_layer (fun _ => none) n
  generalize cv.layer (fun _ => none) n = form at hform
  cases hform with
  | call shape hmethod => exact absurd ⟨shape, by simp [hmethod]⟩ h
  | _ => rfl

/-- A node has its conversion in the syntax tree. -/
def Converted (cv : Converter) (root n : ParseNode) : Prop :=
  cv.convert n ∈ (cv.convert root).nodes

theorem converted_of_mem_holes {n c : ParseNode} (hn : cv.Converted root n) (h : ¬ n.CallsMethod)
    (hc : c ∈ (cv.layer (fun _ => none) n).holes) : cv.Converted root c := by
  refine SyntaxNode.mem_nodes_of_mem_childNodes hn ?_
  rw [cv.childNodes_convert_of_not_callsMethod h]
  exact List.mem_map_of_mem hc

/-- A call converts its receiver, its arguments but the pairs and the values of these. -/
theorem converted_of_callsMethod {n c : ParseNode} (hn : cv.Converted root n) (h : n.CallsMethod)
    (hc : n.child? "receiver" = some c ∨ (c ∈ argumentNodes n ∧ ¬ isPair c) ∨
      ∃ p ∈ argumentNodes n, isPair p ∧ p.child? "key" ≠ none ∧ p.child? "value" = some c) :
    cv.Converted root c := by
  refine SyntaxNode.mem_nodes_of_mem_childNodes hn ?_
  rw [cv.childNodes_convert_of_callsMethod h]
  refine List.mem_append_left _ (List.mem_map_of_mem ?_)
  simpa only [List.mem_append, Option.mem_toList, List.mem_filter, List.mem_flatMap,
    mem_keywordValue, Bool.not_eq_true', Bool.not_eq_true, and_assoc, or_assoc] using hc

/-- What stands in the block of a call is converted, even if the block itself is none. -/
theorem converted_of_mem_blockBody {n b c : ParseNode} (hn : cv.Converted root n)
    (h : n.CallsMethod) (hb : n.child? "block" = some b) (hc : c ∈ blockBody b) :
    cv.Converted root c := by
  -- whatever is attached to the call, a block stands for it in the tree
  have hblock : cv.convertBlock b ∈ (cv.convert root).nodes := by
    refine SyntaxNode.mem_nodes_of_mem_childNodes hn ?_
    rw [cv.childNodes_convert_of_callsMethod h]
    refine List.mem_append_right _ (List.mem_map_of_mem ?_)
    exact Option.mem_toList.2 hb
  refine SyntaxNode.mem_nodes_of_mem_childNodes hblock ?_
  rw [childNodes_convertBlock]
  exact List.mem_map_of_mem hc

/-! ### Where ways to errors stand -/

/-- Where a way can stand: at a node that is converted, at one that is read as a block or is a
wrapper and has its statements converted, or at the arguments of a call that is converted and at the
pairs among them. -/
inductive Kept (cv : Converter) (root : ParseNode) : List ParseNode → ParseNode → Prop
  | converted {above : List ParseNode} {n : ParseNode} (hn : cv.Converted root n) :
      Kept cv root above n
  | block {above : List ParseNode} {n : ParseNode} (hblock : ReadAsBlock above n)
      (hbody : ∀ m ∈ blockBody n, cv.Converted root m) : Kept cv root above n
  | wrapper {above : List ParseNode} {n : ParseNode} (shape : n.shape = .body)
      (hbody : ∀ m ∈ statementsOf n.children, cv.Converted root m) : Kept cv root above n
  | arguments {above : List ParseNode} {call list : ParseNode} (hcall : cv.Converted root call)
      (hcalls : call.CallsMethod) (hlist : call.child? "arguments" = some list) :
      Kept cv root (call :: above) list
  | pair {above : List ParseNode} {call list p : ParseNode} (hcall : cv.Converted root call)
      (hcalls : call.CallsMethod) (hlist : call.child? "arguments" = some list)
      (hp : p ∈ argumentNodes call) (hpair : isPair p) : Kept cv root (list :: call :: above) p

namespace Kept

variable {above : List ParseNode} {p c : ParseNode}

/-- A way goes on from a node whose statements are converted, but for those it leaves out. -/
theorem of_statementsExcept (hids : root.DistinctIds) (hp : p ∈ root.nodes)
    (except : List (Option ParseNode)) (hexcept : ∀ a, some a ∈ except → a ∈ p.children)
    (hbody : ∀ m ∈ p.statementsExcept except, cv.Converted root m) (hc : c ∈ p.namedChildren)
    (hcomment : c.shape ≠ .skipped) (hopen : some c ∉ except) : cv.Kept root (p :: above) c := by
  have hstatements : ∀ m ∈ c.statements, cv.Converted root m := fun m hm =>
    hbody m (mem_statementsExcept_of_open hids hp hexcept hc hopen hm)
  rw [statements_eq] at hstatements
  split at hstatements
  · rename_i shape
    exact absurd shape hcomment
  · rename_i shape
    exact .wrapper shape hstatements
  · -- anything else is its only statement
    exact .converted (hstatements c List.mem_cons_self)

/-- One step of a way that has come to a call. -/
theorem down_of_callsMethod (hn : cv.Converted root p) (hcalls : p.CallsMethod)
    (hopen : ¬ Shut above p c) : cv.Kept root (p :: above) c := by
  by_cases harguments : p.child? "arguments" = some c
  · exact .arguments hn hcalls harguments
  by_cases hblock : p.child? "block" = some c
  · exact .block (.inl ⟨hcalls, hblock⟩) fun m hm =>
      converted_of_mem_blockBody hn hcalls hblock hm
  have hreceiver : p.child? "receiver" = some c :=
    by_contra fun h => hopen (.call hcalls h harguments hblock)
  exact .converted (converted_of_callsMethod hn hcalls (.inl hreceiver))

/-- One step of a way. -/
theorem down (hids : root.DistinctIds) (h : cv.Kept root above p) (hp : p ∈ root.nodes)
    (hc : c ∈ p.namedChildren) (hopen : ¬ Unread above p c) : cv.Kept root (p :: above) c := by
  obtain ⟨hcode, hopen⟩ := not_or.1 hopen
  have hcomment : c.shape ≠ .skipped := fun shape => hopen (.comment shape)
  cases h with
  | converted hn =>
    by_cases hcalls : p.CallsMethod
    · exact down_of_callsMethod hn hcalls hopen
    have hholes := cv.holesAre_layer p
    have hclosed : ∀ m ∈ (cv.layer (fun _ => none) p).holes, cv.Converted root m := fun m hm =>
      converted_of_mem_holes hn hcalls hm
    generalize (cv.layer (fun _ => none) p).holes = holes at hholes hclosed
    cases hholes with
    | literal h => exact absurd (.literal h) hopen
    | call shape hmethod => exact absurd ⟨shape, by simp [hmethod]⟩ hcalls
    | lambda shape =>
      have hbody : p.child? "body" = some c := by_contra fun h => hopen (.lambda shape h)
      rw [hbody] at hclosed
      -- the body is opened, and has no conversion of its own
      exact .block (.inr ⟨shape, hbody⟩) hclosed
    | spliced =>
      exact of_statementsExcept hids hp p.heads (fun a => mem_children_of_mem_heads) hclosed hc
        hcomment fun h => hopen (.head h)
  | block hblock hbody =>
    refine of_statementsExcept hids hp [p.blockParameters] (fun a ha => ?_) hbody hc hcomment
      fun h => hcode (.parameters hblock (List.mem_singleton.1 h).symm)
    exact mem_children_of_orElse (List.mem_singleton.1 ha).symm
  | wrapper _ hbody =>
    rw [← statementsExcept_nil] at hbody
    exact of_statementsExcept hids hp [] (by simp) hbody hc hcomment (by simp)
  | arguments hcall hcalls hlist =>
    -- whatever the arguments are, the call converts what stands in them, but for the pairs
    have ha := mem_argumentNodes.2 ⟨p, hlist, hc, hcomment⟩
    by_cases hpair : isPair c
    · exact .pair hcall hcalls hlist ha hpair
    · exact .converted (converted_of_callsMethod hcall hcalls (.inr (.inl ⟨ha, hpair⟩)))
  | pair hcall hcalls hlist hp hpair =>
    have hvalue : p.child? "key" ≠ none ∧ p.child? "value" = some c := by
      by_contra h
      exact hopen (.pair ⟨⟨hcalls, hlist⟩, hpair⟩ (by tauto))
    exact .converted (converted_of_callsMethod hcall hcalls (.inr (.inr ⟨p, hp, hpair, hvalue⟩)))

end Kept

theorem kept_of_way (hids : root.DistinctIds) {n : ParseNode} {above : List ParseNode}
    (h : Way Unread root above n) : cv.Kept root above n := by
  induction h with
  | root => exact .converted (SyntaxNode.mem_nodes_self _)
  | down hp hc hopen ih => exact ih.down hids hp.mem_nodes hc hopen

/-! ### Errors -/

/-- **The converted tree keeps every error that is reached**, with its range, unless the error
stands for the arguments or the block of a call or for the body of a lambda.  What is declared in
the error stands below. -/
theorem error_mem_convertTree (source : Source) (encoding : PositionEncoding)
    {root error : ParseNode} {above : List ParseNode} (hids : root.DistinctIds)
    (hkind : error.kind = "ERROR") (hway : Way Unread root above error)
    (harguments : ¬ HoldsArguments above error) (hblock : ¬ ReadAsBlock above error) :
    ⟨(ofSource source encoding).range error, .other "ERROR"
        ((statementsOf error.children).map (ofSource source encoding).convert)⟩ ∈
      ((ofSource source encoding).convertTree root).nodes := by
  -- an error is no syntax of its own, hence neither a wrapper nor read by its fields
  have hplain : error.shape = .plain := by
    rw [shape, hkind]
    rfl
  have hconvert : ∀ cv : Converter, cv.convert error =
      ⟨cv.range error, .other "ERROR" ((statementsOf error.children).map cv.convert)⟩ := by
    intro cv
    rw [convert_eq_map, layer, hplain, ← hkind]
    rfl
  rw [convertTree_eq hids, ← hconvert]
  cases kept_of_way hids hway with
  | converted hn => exact hn
  | block h => exact absurd h hblock
  | wrapper shape => exact absurd (hplain.symm.trans shape) (by decide)
  | arguments _ hcalls hlist => exact absurd ⟨hcalls, hlist⟩ harguments
  | pair _ _ _ _ hpair =>
    have hpair : error.kind = "pair" := beq_iff_eq.1 hpair
    exact absurd (hkind.symm.trans hpair) (by decide)

/-- An error in a source of one line. -/
def errorInLine (id start stop : Nat) (children : List ParseNode) : ParseNode :=
  ⟨id, ⟨"ERROR", ⟨start, ⟨0, start⟩, stop, ⟨0, stop⟩⟩, true, true, false, none⟩, children⟩

/-- The error at `) class A; end` in `f do ) class A; end end`. -/
def errorInBlock : ParseNode :=
  errorInLine 5 5 19 [inLine 6 "class" 7 19 none [inLine 7 "constant" 13 14 (some "name") []]]

/-- The error stays although it stands in a wrapper of the statements of a block. -/
theorem error_mem_convertTree_errorInBlock :
    let body := inLine 4 "body_statement" 5 19 (some "body") [errorInBlock]
    let block := inLine 3 "do_block" 2 23 (some "block") [body]
    let call := inLine 1 "call" 0 23 none [inLine 2 "identifier" 0 1 (some "method") [], block]
    let root := inLine 0 "program" 0 23 none [call]
    let above := [body, block, call, root]
    let cv := ofSource (.ofString "f do ) class A; end end") .utf16
    root.DistinctIds ∧ errorInBlock.kind = "ERROR" ∧ Way Unread root above errorInBlock ∧
    ¬ HoldsArguments above errorInBlock ∧ ¬ ReadAsBlock above errorInBlock ∧
    ⟨cv.range errorInBlock, .other "ERROR" ((statementsOf errorInBlock.children).map cv.convert)⟩ ∈
      (cv.convertTree root).nodes := by
  intro body block call root above cv
  have hids : root.DistinctIds := by decide
  have hcall : Way Unread root [root] call :=
    .down .root (List.mem_singleton_self _) (not_unread_of_spliced
      (spliced_of_shape (by decide)) List.not_mem_nil (by decide) (by decide) fun h => h.elim)
  have hblock : Way Unread root [call, root] block := by
    refine .down hcall (List.mem_cons_of_mem _ (List.mem_singleton_self _)) (not_or.2 ⟨?_, ?_⟩)
    · exact not_noCode (by decide) (fun h => h) List.not_mem_nil fun _ => rfl
    · exact not_shut_of_call rfl (fun h => h.1) (by decide) (.inr (.inr rfl))
  have hbody : Way Unread root [block, call, root] body :=
    -- the head of a block without parameters names nothing
    .down hblock (List.mem_singleton_self _) (not_unread_of_spliced (spliced_of_shape (by decide))
      (fun h => nomatch List.mem_singleton.1 h) (by decide) (by decide) fun _ => rfl)
  have hway : Way Unread root above errorInBlock :=
    .down hbody (List.mem_singleton_self _) (not_unread_of_spliced
      (spliced_of_shape (by decide)) List.not_mem_nil (by decide) (by decide) fun _ => rfl)
  have hfree : ¬ HoldsArguments above errorInBlock := fun h => absurd h.1.1 (by decide)
  have hopened : ¬ ReadAsBlock above errorInBlock := by
    rintro (⟨hcalls, -⟩ | ⟨shape, -⟩)
    · exact absurd hcalls.1 (by decide)
    · exact absurd shape (by decide)
  exact ⟨hids, rfl, hway, hfree, hopened, error_mem_convertTree _ _ hids rfl hway hfree hopened⟩

/-! ### A lost error -/

/-- The error at `class A; end` in `puts class A; end :b`. -/
def errorBeforeArguments : ParseNode :=
  errorInLine 3 5 17 [inLine 4 "class" 5 17 none [inLine 5 "constant" 11 12 (some "name") []]]

/-- Between the method of a call and its arguments an error is lost, and with it the class. -/
theorem error_lost_beforeArguments :
    let call := inLine 1 "call" 0 20 none
      [inLine 2 "identifier" 0 4 (some "method") [], errorBeforeArguments,
        inLine 6 "argument_list" 18 20 (some "arguments") [inLine 7 "simple_symbol" 18 20 none []]]
    let root := inLine 0 "program" 0 20 none [call]
    let cv := ofSource (.ofString "puts class A; end :b") .utf16
    root.DistinctIds ∧ root.Grammatical ∧
    errorBeforeArguments.kind = "ERROR" ∧ Way NoCode root [call, root] errorBeforeArguments ∧
    (∀ children, ⟨cv.range errorBeforeArguments, .other "ERROR" children⟩ ∉
      (cv.convertTree root).nodes) ∧
    (cv.convertTree root).declarations = [] := by
  intro call root cv
  have hids : root.DistinctIds := by decide
  have hcall : Way NoCode root [root] call :=
    .down .root (List.mem_singleton_self _)
      (not_noCode (by decide) (fun h => h) List.not_mem_nil fun h => h.elim)
  have hway : Way NoCode root [call, root] errorBeforeArguments := by
    refine .down hcall (List.mem_cons_of_mem _ List.mem_cons_self) ?_
    exact not_noCode (by decide) (fun h => h) List.not_mem_nil fun _ => rfl
  have hconvert : cv.convertTree root = cv.convertWithin 8 root := by
    rw [convertTree_eq hids, cv.convert_eq_convertWithin 8 (by decide)]
  refine ⟨hids, by decide, rfl, hway, fun children hmem => ?_, by rw [hconvert]; decide⟩
  have hkinds : (cv.convertTree root).nodes.filterMap SyntaxNode.otherKind? = ["program"] := by
    rw [hconvert]
    decide
  have herror : "ERROR" ∈ (cv.convertTree root).nodes.filterMap SyntaxNode.otherKind? :=
    List.mem_filterMap.2 ⟨_, hmem, rfl⟩
  rw [hkinds] at herror
  exact absurd herror (by decide)

end Converter

end RubyOutline
