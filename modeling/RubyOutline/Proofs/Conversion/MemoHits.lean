/-
RubyOutline/Proofs/Conversion/MemoHits.lean

What the memo of a conversion knows when it is asked.  The conversion of a node looks up what stands
in the holes of its layer and, for the block of a call, what stands in the block
(`Converter.lookUps`).  Where the children that play a part in a call, a pair or a lambda are named
(`ParseNode.PartsNamed`), all of this is reached below the node through named children
(`reachesBelow_of_mem_lookUps`), and so it was converted before the node was.

What a conversion would do with a hole that the memo lacks is made a parameter of it
(`Converter.convertOr`).  A conversion that finds all that it looks up is the same whatever it would
have done otherwise (`convertOr_congr`), and so is the conversion of the whole tree
(`memoAfterOr_eq`).
-/
import RubyOutline.Proofs.Conversion.Encodings
import RubyOutline.Proofs.Conversion.Reached
import RubyOutline.Proofs.ParseNode.ChildrenFirst

namespace RubyOutline

namespace ParseNode

/-- Throughout a tree, the children that play a part in a call, a pair or a lambda are named. -/
def PartsNamed (root : ParseNode) : Prop :=
  ∀ p ∈ root.nodes, ∀ field ∈ ["receiver", "arguments", "block", "body", "value"],
    ∀ c ∈ p.child? field, c.label.named = true

instance (root : ParseNode) : Decidable root.PartsNamed :=
  inferInstanceAs (Decidable (∀ p ∈ root.nodes, ∀ field ∈ _, ∀ c ∈ p.child? field, _))

theorem PartsNamed.hasNamedChild {root p c : ParseNode} (h : root.PartsNamed) (hp : p ∈ root.nodes)
    {field : String} (hc : p.child? field = some c)
    (hfield : field ∈ ["receiver", "arguments", "block", "body", "value"]) : p.HasNamedChild c :=
  List.mem_filter.2 ⟨mem_of_child? hc, h p hp field hfield c hc⟩

end ParseNode

namespace Converter

open ParseNode

variable {cv : Converter} {root : ParseNode}

/-! ### What is looked up -/

/-- The nodes whose results the conversion of a node looks up: the parts of its layer, and for the
block of a call the statements in it. -/
def lookUps (cv : Converter) (known : ParseNode → Option SyntaxNode) (n : ParseNode) :
    List ParseNode :=
  (cv.layer known n).parts ++ (cv.layer known n).block?.toList.flatMap blockBody

/-- The arguments of a call, and the values of its pairs, are reached below it. -/
theorem reachesBelow_of_mem_argumentNodes (hnamed : root.PartsNamed) {n a : ParseNode}
    (hn : n ∈ root.nodes) (ha : a ∈ argumentNodes n) : n.ReachesBelow a := by
  obtain ⟨list, hlist, hchild, -⟩ := mem_argumentNodes.1 ha
  have hstep : n.HasNamedChild list := hnamed.hasNamedChild hn hlist (by simp)
  exact .head hstep (.single hchild)

theorem reachesBelow_of_mem_keywordValue (hnamed : root.PartsNamed) {p v : ParseNode}
    (hp : p ∈ root.nodes) (hv : v ∈ cv.keywordValue p) : p.ReachesBelow v := by
  obtain ⟨-, hvalue⟩ := mem_keywordValue.1 hv
  exact .single (hnamed.hasNamedChild hp hvalue (by simp))

theorem reachesBelow_of_mem_parts_callForm (hnamed : root.PartsNamed) {n method c : ParseNode}
    (hn : n ∈ root.nodes) (hc : c ∈ (cv.callForm n method).parts) : n.ReachesBelow c := by
  simp only [callForm, Form.parts, map_value_filterMap_keyword, List.mem_append,
    Option.mem_toList, List.mem_filter, List.mem_flatMap] at hc
  rcases hc with (hreceiver | ⟨ha, -⟩) | ⟨p, ⟨hp, -⟩, hv⟩
  · exact .single (hnamed.hasNamedChild hn hreceiver (by simp))
  · exact reachesBelow_of_mem_argumentNodes hnamed hn ha
  · -- the value stands one step below its pair, which is an argument
    have hpair : n.ReachesBelow p := reachesBelow_of_mem_argumentNodes hnamed hn hp
    have hroot : p ∈ root.nodes :=
      mem_nodes_trans hn (mem_nodes_of_mem_descendants (mem_descendants_of_mem_argumentNodes hp))
    exact hpair.trans (reachesBelow_of_mem_keywordValue hnamed hroot hv)

/-- **Whatever the conversion of a node looks up** is reached below the node. -/
theorem reachesBelow_of_mem_lookUps (hnamed : root.PartsNamed)
    {known : ParseNode → Option SyntaxNode} {n c : ParseNode} (hn : n ∈ root.nodes)
    (hc : c ∈ cv.lookUps known n) : n.ReachesBelow c := by
  rw [lookUps, List.mem_append, List.mem_flatMap] at hc
  have hform := cv.isLayer_layer known n
  generalize cv.layer known n = form at hc hform
  rcases hc with hc | ⟨b, hb, hc⟩
  · cases hform with
    | classDecl | moduleDecl | methodDecl | singletonMethodDecl | block =>
      exact reachesBelow_of_mem_statementsExcept hc
    | call => exact reachesBelow_of_mem_parts_callForm hnamed hn hc
    | string | chainedString | simpleSymbol | delimitedSymbol | constant | constantPath => cases hc
    | lambda =>
      replace hc : c ∈ ((n.child? "body").map blockBody).getD [] := hc
      cases hbody : n.child? "body" with
      | none => simp [hbody] at hc
      | some body =>
        rw [hbody, Option.map_some, Option.getD_some] at hc
        have hstep : n.HasNamedChild body := hnamed.hasNamedChild hn hbody (by simp)
        exact .head hstep (reachesBelow_of_mem_statementsExcept hc)
    | noName | noMethod | interpolated | noPath | traversed =>
      exact reachesBelow_of_mem_statementsOf hc
  · -- only calls have blocks
    cases hform with
    | call =>
      have hblock : n.child? "block" = some b := Option.mem_toList.1 hb
      have hstep : n.HasNamedChild b := hnamed.hasNamedChild hn hblock (by simp)
      exact .head hstep (reachesBelow_of_mem_statementsExcept hc)
    | _ => cases hb

/-! ### What is found -/

/-- A memo knows the ids of the nodes that were converted, and no others. -/
theorem isSome_memoAfter_iff {nodes : List ParseNode} {id : Nat} :
    (cv.memoAfter nodes)[id]?.isSome ↔ id ∈ nodes.map (·.id) := by
  induction nodes using List.reverseRecOn with
  | nil => simp [memoAfter_nil]
  | append_singleton nodes n ih =>
    rw [memoAfter_concat, Std.HashMap.getElem?_insert, List.map_append, List.mem_append, ← ih]
    by_cases hid : n.id = id
    · simp [hid]
    · have hother : ¬ id = n.id := fun h => hid h.symm
      simp [hid, hother]

/-- When the turn of a node comes, whatever its conversion looks up is known, and is what converting
it would give. -/
theorem getElem?_memoAfter_of_mem_lookUps (hids : root.DistinctIds) (hnamed : root.PartsNamed)
    {before after : List ParseNode} {n c : ParseNode}
    (hsplit : root.postOrder = before ++ n :: after)
    (hc : c ∈ cv.lookUps (fun c => (cv.memoAfter before)[c.id]?) n) :
    (cv.memoAfter before)[c.id]? = some (cv.convert c) := by
  have hroot : ∀ m ∈ root.postOrder, m ∈ root.nodes := fun m hm =>
    mem_nodes_of_mem_namedPostOrder (postOrder_eq root ▸ hm)
  have hn : n ∈ root.nodes := hroot n (by simp [hsplit])
  have hdone : c ∈ before := (childrenFirst_postOrder root).mem_of_transGen hsplit
    (reachesBelow_of_mem_lookUps hnamed hn hc)
  have hcroot : c ∈ root.nodes := hroot c (by simp [hsplit, hdone])
  have hknown : (cv.memoAfter before)[c.id]?.isSome :=
    isSome_memoAfter_iff.2 (List.mem_map_of_mem hdone)
  obtain ⟨found, hfound⟩ := Option.isSome_iff_exists.1 hknown
  rw [hfound, sound_of_postOrder cv hids hsplit c hcroot found hfound]

/-! ### What would be done otherwise -/

/-- The conversion of a node whose holes are looked up, with a fallback for those that the memo
lacks. -/
def convertOr (cv : Converter) (fallback : ParseNode → SyntaxNode) (memo : Memo) (n : ParseNode) :
    SyntaxNode :=
  let filled (c : ParseNode) : SyntaxNode := memo[c.id]?.getD (fallback c)
  ⟨cv.range n, (cv.layer (fun c => memo[c.id]?) n).map filled
    fun b => ⟨cv.range b, .block ((blockBody b).map filled)⟩⟩

theorem convertWith_eq_convertOr (memo : Memo) (n : ParseNode) :
    cv.convertWith memo n = cv.convertOr (cv.convertWith memo) memo n :=
  cv.convertWith_eq_map memo n

/-- A conversion that finds all that it looks up has no use for a fallback. -/
theorem convertOr_congr {memo : Memo} {n : ParseNode}
    (h : ∀ c ∈ cv.lookUps (fun c => memo[c.id]?) n, memo[c.id]?.isSome)
    (fallback fallback' : ParseNode → SyntaxNode) :
    cv.convertOr fallback memo n = cv.convertOr fallback' memo n := by
  have hfilled : ∀ c ∈ cv.lookUps (fun c => memo[c.id]?) n,
      memo[c.id]?.getD (fallback c) = memo[c.id]?.getD (fallback' c) := by
    intro c hc
    obtain ⟨found, hfound⟩ := Option.isSome_iff_exists.1 (h c hc)
    rw [hfound, Option.getD_some, Option.getD_some]
  unfold convertOr
  refine congrArg (SyntaxNode.mk (cv.range n)) (Form.map_congr_parts ?_ ?_)
  · intro c hc
    exact hfilled c (List.mem_append_left _ hc)
  · intro b hb
    congr 2
    refine List.map_congr_left fun c hc => hfilled c (List.mem_append_right _ ?_)
    exact List.mem_flatMap.2 ⟨b, Option.mem_toList.2 hb, hc⟩

/-- The results of some nodes, each converted with the results of those before it and with a
fallback for what these lack. -/
def memoAfterOr (cv : Converter) (fallback : ParseNode → SyntaxNode) (nodes : List ParseNode) :
    Memo :=
  nodes.foldl (fun memo n => memo.insert n.id (cv.convertOr fallback memo n)) ∅

/-- At every moment of the conversion of a tree the memo is what it would be with any other
fallback. -/
theorem memoAfterOr_eq (hids : root.DistinctIds) (hnamed : root.PartsNamed)
    (fallback : ParseNode → SyntaxNode) {done rest : List ParseNode}
    (hsplit : root.postOrder = done ++ rest) : cv.memoAfterOr fallback done = cv.memoAfter done := by
  induction done using List.reverseRecOn generalizing rest with
  | nil => rfl
  | append_singleton done n ih =>
    have hsplit' : root.postOrder = done ++ n :: rest := by
      rw [hsplit, List.append_assoc, List.singleton_append]
    have hfound : ∀ c ∈ cv.lookUps (fun c => (cv.memoAfter done)[c.id]?) n,
        (cv.memoAfter done)[c.id]?.isSome := by
      intro c hc
      rw [getElem?_memoAfter_of_mem_lookUps hids hnamed hsplit' hc]
      rfl
    have hstep : cv.memoAfterOr fallback (done ++ [n]) = (cv.memoAfterOr fallback done).insert n.id
        (cv.convertOr fallback (cv.memoAfterOr fallback done) n) := by
      rw [memoAfterOr, memoAfterOr, List.foldl_append]
      rfl
    rw [hstep, ih hsplit', memoAfter_concat, convertWith_eq_convertOr,
      convertOr_congr hfound fallback]

/-- **The bottom-up order supplies every look-up.**  It holds the nodes reached from the root
through named children and no others, none of them twice, and every node after all that are reached
below it.  So if the children that play a part in calls, pairs and lambdas are named, then whenever
the conversion of a node looks up a result, the result is known and is the conversion of the node
asked for; and the conversion of the tree is what it would be with anything else in the place of the
fallback for results that are not known. -/
theorem postOrder_suppliesLookUps (cv : Converter) {root : ParseNode} (hids : root.DistinctIds) :
    (∀ m, m ∈ root.postOrder ↔ root.ReachesNamed m) ∧
    (root.postOrder.map (·.id)).Nodup ∧
    (∀ before n after, root.postOrder = before ++ n :: after →
      ∀ m, n.ReachesBelow m → m ∈ before) ∧
    (root.PartsNamed →
      (∀ before n after, root.postOrder = before ++ n :: after →
        ∀ c ∈ cv.lookUps (fun c => (cv.memoAfter before)[c.id]?) n,
          (cv.memoAfter before)[c.id]? = some (cv.convert c)) ∧
      ∀ fallback, cv.memoAfterOr fallback root.postOrder = cv.memoOf root) := by
  refine ⟨fun m => mem_postOrder_iff, nodup_postOrder hids, ?_, ?_⟩
  · intro before n after hsplit m hm
    exact (childrenFirst_postOrder root).mem_of_transGen hsplit hm
  · intro hnamed
    constructor
    · intro before n after hsplit c hc
      exact getElem?_memoAfter_of_mem_lookUps hids hnamed hsplit hc
    · intro fallback
      exact memoAfterOr_eq hids hnamed fallback (List.append_nil _).symm

/-- The call `a.b(k: -> do c end) do d end`, with a part of every kind. -/
def callOfManyParts : ParseNode :=
  let node (id : Nat) (kind : String) (start stop : Nat) (field : Option String)
      (children : List ParseNode) : ParseNode :=
    ⟨id, ⟨kind, ⟨start, ⟨0, start⟩, stop, ⟨0, stop⟩⟩, true, false, false, field⟩, children⟩
  node 0 "call" 0 28 none
    [node 1 "identifier" 0 1 (some "receiver") [], node 2 "identifier" 2 3 (some "method") [],
     node 3 "argument_list" 3 19 (some "arguments")
      [node 4 "pair" 4 18 none
        [node 5 "hash_key_symbol" 4 5 (some "key") [],
         node 6 "lambda" 7 18 (some "value")
          [node 7 "do_block" 10 18 (some "body")
            [node 8 "body_statement" 13 14 (some "body") [node 9 "identifier" 13 14 none []]]]]],
     node 10 "do_block" 20 28 (some "block")
      [node 11 "body_statement" 23 24 (some "body") [node 12 "identifier" 23 24 none []]]]

theorem postOrder_suppliesLookUps_callOfManyParts :
    let cv := ofSource (.ofString "a.b(k: -> do c end) do d end") .utf16
    callOfManyParts.DistinctIds ∧ callOfManyParts.PartsNamed ∧
    (∀ m, m ∈ callOfManyParts.postOrder ↔ callOfManyParts.ReachesNamed m) ∧
    (callOfManyParts.postOrder.map (·.id)).Nodup ∧
    (∀ before n after, callOfManyParts.postOrder = before ++ n :: after →
      ∀ m, n.ReachesBelow m → m ∈ before) ∧
    (∀ before n after, callOfManyParts.postOrder = before ++ n :: after →
      ∀ c ∈ cv.lookUps (fun c => (cv.memoAfter before)[c.id]?) n,
        (cv.memoAfter before)[c.id]? = some (cv.convert c)) ∧
    ∀ fallback, cv.memoAfterOr fallback callOfManyParts.postOrder = cv.memoOf callOfManyParts := by
  intro cv
  have hids : callOfManyParts.DistinctIds := by decide
  have hnamed : callOfManyParts.PartsNamed := by decide
  obtain ⟨hreached, hnodup, hbelow, hfound⟩ := postOrder_suppliesLookUps cv hids
  exact ⟨hids, hnamed, hreached, hnodup, hbelow, hfound hnamed⟩

/-- What the call looks up: the receiver, the value of the pair and the statement in the block. -/
example : ((ofSource (.ofString "a.b(k: -> do c end) do d end") .utf16).lookUps (fun _ => none)
    callOfManyParts).map (·.id) = [1, 6, 12] := by decide

end Converter

end RubyOutline
