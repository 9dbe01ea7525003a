/-
RubyOutline/Proofs/Conversion/BlockCallbacks.lean

Callbacks that are given by a block alone.  A call to a callback with a block and with nothing but
keyword arguments and comments for arguments (`Converter.BlockOnly`) is listed as anonymous, as if
it had no arguments at all, whatever pairs it has and however many.  The exception is a hash that is
spread out, `**options`: it is read as a positional argument, and since it has no name to show, the
call is not listed (`Converter.symbols_convert_blockOnly`).

A call that stands directly in a class or module below the root takes its place among what the other
statements contribute (`Converter.outline_convertTree_blockOnly`).
-/
import RubyOutline.Proofs.Conversion.Reached

namespace RubyOutline

namespace Converter

open ParseNode

variable {cv : Converter} {table : MacroTable}

/-! ### Keyword arguments -/

/-- A hash that is spread out into keyword arguments, as in `**options`. -/
def isSpreadHash (n : ParseNode) : Bool := n.kind == "hash_splat_argument"

/-- A node writes keyword arguments: one of them as a pair, with a value or without, or those of a
hash. -/
def WritesKeywords (n : ParseNode) : Prop := isPair n ∨ isSpreadHash n

instance : DecidablePred WritesKeywords := fun n =>
  inferInstanceAs (Decidable (isPair n ∨ isSpreadHash n))

theorem shape_of_isSpreadHash {n : ParseNode} (h : isSpreadHash n) : n.shape = .plain := by
  rw [shape, beq_iff_eq.1 h]
  rfl

theorem isPair_of_isSpreadHash {n : ParseNode} (h : isSpreadHash n) : isPair n = false := by
  rw [isPair, beq_iff_eq.1 h]
  rfl

/-- A hash that is spread out has no name to show. -/
theorem displayName_convert_of_isSpreadHash {n : ParseNode} (h : isSpreadHash n) :
    (cv.convert n).displayName = none := by
  have hlayer : cv.layer (fun _ => none) n = otherLayer n := by
    rw [layer, shape_of_isSpreadHash h]
  rw [convert_eq_map, hlayer]
  rfl

/-! ### Calls with a block alone -/

/-- A call to a callback on the implicit receiver, with a block and with an argument list that holds
keyword arguments and comments only. -/
structure BlockOnly (cv : Converter) (callback : CallbackMacro) (call method : ParseNode) : Prop where
  shape : call.shape = .call
  message : call.child? "method" = some method
  name : cv.text method = callback.name
  receiver : call.child? "receiver" = none
  block : (call.child? "block").isSome
  arguments : ∃ list, call.child? "arguments" = some list ∧
    ∀ a ∈ list.namedChildren, WritesKeywords a ∨ a.shape = .skipped

/-- A callback of the table that takes arguments and a block, and whose name declares no tests. -/
structure ListsBlocks (table : MacroTable) (callback : CallbackMacro) : Prop where
  found : table.callback? callback.name = some callback
  acceptsArguments : callback.acceptsArguments = true
  acceptsBlock : callback.acceptsBlock = true
  no_test : table.isTestAlias callback.name = false

namespace BlockOnly

variable {callback : CallbackMacro} {call method : ParseNode}

theorem layer_eq (h : cv.BlockOnly callback call method) :
    cv.layer (fun _ => none) call = cv.callForm call method := by
  rw [layer, h.shape]
  simp only [callLayer, h.message, Option.map_some, Option.getD_some]

/-- The positional arguments are the hashes that are spread out. -/
theorem isSpreadHash_of_mem (h : cv.BlockOnly callback call method) {a : ParseNode}
    (ha : a ∈ (argumentNodes call).filter (!isPair ·)) : isSpreadHash a := by
  obtain ⟨hargument, hpair⟩ := List.mem_filter.1 ha
  obtain ⟨list, hlist, hnamed, hcomment⟩ := mem_argumentNodes.1 hargument
  obtain ⟨list', hlist', hkeywords⟩ := h.arguments
  obtain rfl := Option.some.inj (hlist.symm.trans hlist')
  rcases hkeywords a hnamed with hkeyword | hskipped
  · rcases hkeyword with hisPair | hspread
    · simp [hisPair] at hpair
    · exact hspread
  · exact absurd hskipped hcomment

/-- Either a hash is spread out, or there are no positional arguments. -/
theorem arguments_eq_nil_iff (h : cv.BlockOnly callback call method) :
    (argumentNodes call).filter (!isPair ·) = [] ↔ (argumentNodes call).any isSpreadHash = false := by
  constructor
  · intro hnil
    rw [List.any_eq_false]
    intro a ha hspread
    have hmem : a ∈ (argumentNodes call).filter (!isPair ·) := by
      rw [List.mem_filter, isPair_of_isSpreadHash hspread]
      exact ⟨ha, rfl⟩
    rw [hnil] at hmem
    cases hmem
  · intro hnone
    rw [List.eq_nil_iff_forall_not_mem]
    intro a ha
    exact List.any_eq_false.1 hnone a (List.mem_filter.1 ha).1 (h.isSpreadHash_of_mem ha)

/-- The names that the call is listed under. -/
theorem callbackNames_eq (h : cv.BlockOnly callback call method) (block : SyntaxNode) :
    callbackNames (((argumentNodes call).filter (!isPair ·)).map cv.convert) (some block) =
      if (argumentNodes call).any isSpreadHash then [] else [anonymous] := by
  cases harguments : (argumentNodes call).filter (!isPair ·) with
  | nil =>
    rw [h.arguments_eq_nil_iff.1 harguments]
    rfl
  | cons first rest =>
    have hspread : (argumentNodes call).any isSpreadHash = true := by
      rw [← Bool.not_eq_false, ← h.arguments_eq_nil_iff, harguments]
      simp
    rw [hspread, List.map_cons, callbackNames_cons, if_pos rfl, List.filterMap_eq_nil_iff]
    intro x hx
    rw [← List.map_cons] at hx
    obtain ⟨a, ha, rfl⟩ := List.mem_map.1 hx
    exact displayName_convert_of_isSpreadHash (h.isSpreadHash_of_mem (harguments ▸ ha))

end BlockOnly

/-- What a call with a block alone is listed as: once and anonymous, unless a hash is spread out
among its arguments. -/
def blockOnlySymbols (cv : Converter) (callback : CallbackMacro) (call method : ParseNode) :
    List Symbol :=
  if (argumentNodes call).any isSpreadHash then []
  else [.leaf ⟨callback.name ++ "(<anonymous>)", .method, cv.range call, cv.range method⟩]

theorem callbackLabel_anonymous (callback : String) :
    callbackLabel callback anonymous = callback ++ "(<anonymous>)" := by
  rw [callbackLabel, String.append_assoc, String.append_assoc]
  rfl

/-- **What a call with a block alone contributes** where a class or module is open. -/
theorem symbols_convert_blockOnly {callback : CallbackMacro} {call method : ParseNode}
    (hlists : ListsBlocks table callback) (hcall : cv.BlockOnly callback call method)
    (superclass : Option String) :
    (cv.convert call).symbols table (some superclass) =
      cv.blockOnlySymbols callback call method := by
  obtain ⟨block, hblock⟩ := Option.isSome_iff_exists.1 hcall.block
  have hform : (cv.callForm call method).map cv.convert cv.convertBlock = .call
      { method := callback.name
        messageRange := cv.range method
        receiver := none
        arguments := ((argumentNodes call).filter (!isPair ·)).map cv.convert
        keywords := (((argumentNodes call).filter isPair).filterMap cv.keyword).map
          fun k => ⟨k.key, cv.convert k.value⟩
        block := some (cv.convertBlock block) } := by
    rw [callForm, Form.map, Call.map, hcall.name, hcall.receiver, hblock]
    rfl
  rw [convert_eq_map, hcall.layer_eq, hform, SyntaxNode.symbols_eq, contribution_call,
    Call.recognize]
  simp only [Call.onSelf, hlists.no_test, hlists.found, hlists.acceptsArguments,
    hlists.acceptsBlock, Bool.false_and, Bool.false_eq_true, if_false, if_true, Recognition.leaves,
    hcall.callbackNames_eq, blockOnlySymbols]
  cases (argumentNodes call).any isSpreadHash with
  | true => rfl
  | false =>
    simp only [Bool.false_eq_true, if_false, List.map_cons, List.map_nil, callbackLabel_anonymous]
    rfl

/-! ### Classes and modules -/

/-- A class or module with a name is listed with what its statements contribute. -/
theorem symbols_convert_container (cv : Converter) (table : MacroTable)
    {container name : ParseNode} (shape : container.shape = .classDecl ∨ container.shape = .moduleDecl)
    (hname : container.child? "name" = some name) (context : Context) :
    ∃ kind superclass, (cv.convert container).symbols table context =
      [⟨⟨cv.text name, kind, cv.range container, cv.range name⟩,
        (container.statementsExcept container.heads).flatMap fun m =>
          (cv.convert m).symbols table (some superclass)⟩] := by
  rcases shape with shape | shape
  · have hlayer : cv.layer (fun _ => none) container = .classDecl (cv.text name) (cv.range name)
        (cv.superclassText container) (container.statementsExcept container.heads) := by
      rw [layer, shape, heads, shape, hname]
      simp only [classLayer, hname, Option.map_some, Option.getD_some]
    refine ⟨.class, cv.superclassText container, ?_⟩
    rw [convert_eq_map, hlayer, Form.map, SyntaxNode.symbols, symbolsOfList_eq_flatMap,
      List.flatMap_map]
  · have hlayer : cv.layer (fun _ => none) container = .moduleDecl (cv.text name) (cv.range name)
        (container.statementsExcept container.heads) := by
      rw [layer, shape, heads, shape, hname]
      simp only [moduleLayer, hname, Option.map_some, Option.getD_some]
    refine ⟨.namespace, none, ?_⟩
    rw [convert_eq_map, hlayer, Form.map, SyntaxNode.symbols, symbolsOfList_eq_flatMap,
      List.flatMap_map]

/-- A root that is only passed through is listed as what its statements contribute. -/
theorem symbols_convert_plain {root : ParseNode} (shape : root.shape = .plain) (context : Context) :
    (cv.convert root).symbols table context =
      (statementsOf root.children).flatMap fun m => (cv.convert m).symbols table context := by
  have hlayer : cv.layer (fun _ => none) root = otherLayer root := by
    rw [layer, shape]
  rw [convert_eq_map, hlayer, otherLayer, Form.map, SyntaxNode.symbols, symbolsOfList_eq_flatMap,
    List.flatMap_map]

/-- A class or module below a node is one of its statements. -/
theorem mem_statementsOf_of_container {root container : ParseNode}
    (hcontainer : container ∈ root.namedChildren)
    (shape : container.shape = .classDecl ∨ container.shape = .moduleDecl) :
    container ∈ statementsOf root.children := by
  rw [statementsOf_eq_flatMap]
  refine List.mem_flatMap.2 ⟨container, hcontainer, ?_⟩
  rw [statements_eq]
  rcases shape with shape | shape <;> simp [shape]

/-! ### Outlines -/

/-- **A callback given by a block alone is listed once and as anonymous**, whatever pairs it has for
arguments and wherever comments stand among them, if no hash is spread out there; and otherwise it
is not listed.  The call stands directly in the body of a class or module with a name below the
root, and what is listed for it stands between what is listed for the statements before and after
it. -/
theorem outline_convertTree_blockOnly (cv : Converter) (table : MacroTable)
    {root container name call method : ParseNode} {callback : CallbackMacro}
    (hids : root.DistinctIds) (hroot : root.shape = .plain)
    (hcontainer : container ∈ root.namedChildren)
    (shape : container.shape = .classDecl ∨ container.shape = .moduleDecl)
    (hname : container.child? "name" = some name)
    (hbody : call ∈ container.statementsExcept container.heads)
    (hlists : ListsBlocks table callback) (hcall : cv.BlockOnly callback call method) :
    ∃ before after above below kind superclass,
      statementsOf root.children = above ++ container :: below ∧
      container.statementsExcept container.heads = before ++ call :: after ∧
      outline table (cv.convertTree root) =
        (above.flatMap fun m => (cv.convert m).symbols table none) ++
          ⟨⟨cv.text name, kind, cv.range container, cv.range name⟩,
            (before.flatMap fun m => (cv.convert m).symbols table (some superclass)) ++
              cv.blockOnlySymbols callback call method ++
              after.flatMap fun m => (cv.convert m).symbols table (some superclass)⟩ ::
          below.flatMap fun m => (cv.convert m).symbols table none := by
  obtain ⟨above, below, hsplit⟩ :=
    List.append_of_mem (mem_statementsOf_of_container hcontainer shape)
  obtain ⟨before, after, hstatements⟩ := List.append_of_mem hbody
  obtain ⟨kind, superclass, hsymbols⟩ :=
    symbols_convert_container cv table shape hname none
  refine ⟨before, after, above, below, kind, superclass, hsplit, hstatements, ?_⟩
  rw [convertTree_eq hids, outline_eq, symbols_convert_plain hroot, hsplit, List.flatMap_append,
    List.flatMap_cons, hsymbols, hstatements, List.flatMap_append, List.flatMap_cons,
    symbols_convert_blockOnly hlists hcall]
  simp only [List.append_assoc, List.singleton_append]

/-- The name of the callback in the calls below. -/
def beforeSaveName : ParseNode :=
  spanning 5 "identifier" (10, 1, 2) (21, 1, 13) (some "method") []

/-- A call of `before_save` with the given arguments and block, which ends with the block. -/
def beforeSave (arguments block : ParseNode) (stop : Nat × Nat × Nat) : ParseNode :=
  spanning 4 "call" (10, 1, 2) stop none [beforeSaveName, arguments, block]

/-- The tree of `class A`, a call that starts in the third column of the next line, and `end`. -/
def classWithCall (call : ParseNode) (stopCall stop : Nat × Nat × Nat) : ParseNode :=
  spanning 1 "class" (0, 0, 0) stop none
    [spanning 2 "constant" (6, 0, 6) (7, 0, 7) (some "name") [],
      spanning 3 "body_statement" (10, 1, 2) stopCall (some "body") [call]]

/-- The call `before_save(on: x, # c` with `    as:) { y }` in the line below. -/
def beforeSaveWithPairs : ParseNode :=
  beforeSave
    (spanning 6 "argument_list" (21, 1, 13) (41, 2, 8) (some "arguments")
      [spanning 7 "pair" (22, 1, 14) (27, 1, 19) none
        [spanning 8 "hash_key_symbol" (22, 1, 14) (24, 1, 16) (some "key") [],
          spanning 9 "identifier" (26, 1, 18) (27, 1, 19) (some "value") []],
        spanning 10 "comment" (29, 1, 21) (32, 1, 24) none [],
        spanning 11 "pair" (37, 2, 4) (40, 2, 7) none
          [spanning 12 "hash_key_symbol" (37, 2, 4) (39, 2, 6) (some "key") []]])
    (spanning 13 "block" (42, 2, 9) (47, 2, 14) (some "block")
      [spanning 14 "identifier" (44, 2, 11) (45, 2, 12) (some "body") []])
    (47, 2, 14)

theorem outline_convertTree_blockOnly_beforeSaveWithPairs :
    let cv := ofSource (.ofString "class A\n  before_save(on: x, # c\n    as:) { y }\nend\n") .utf16
    let container := classWithCall beforeSaveWithPairs (47, 2, 14) (51, 3, 3)
    let root := spanning 0 "program" (0, 0, 0) (52, 4, 0) none [container]
    let callback : CallbackMacro := ⟨"before_save", .model, true, true⟩
    root.DistinctIds ∧ ListsBlocks .rails callback ∧
    cv.BlockOnly callback beforeSaveWithPairs beforeSaveName ∧
    (outline .rails (cv.convertTree root)).map (fun s => (s.info.name, s.children.map (·.info.name))) =
      [("A", ["before_save(<anonymous>)"])] ∧
    ∃ name before after above below kind superclass,
      statementsOf root.children = above ++ container :: below ∧
      container.statementsExcept container.heads = before ++ beforeSaveWithPairs :: after ∧
      outline .rails (cv.convertTree root) =
        (above.flatMap fun m => (cv.convert m).symbols .rails none) ++
          ⟨⟨cv.text name, kind, cv.range container, cv.range name⟩,
            (before.flatMap fun m => (cv.convert m).symbols .rails (some superclass)) ++
              cv.blockOnlySymbols callback beforeSaveWithPairs beforeSaveName ++
              after.flatMap fun m => (cv.convert m).symbols .rails (some superclass)⟩ ::
          below.flatMap fun m => (cv.convert m).symbols .rails none := by
  intro cv container root callback
  have hids : root.DistinctIds := by decide
  have hlists : ListsBlocks .rails callback := ⟨by decide, rfl, rfl, by decide⟩
  have hcall : cv.BlockOnly callback beforeSaveWithPairs beforeSaveName := by
    refine ⟨rfl, rfl, by decide, rfl, rfl, _, rfl, ?_⟩
    decide
  refine ⟨hids, hlists, hcall, ?_, ?_⟩
  · rw [outline_convertTree_eq cv .rails 15 hids (by decide)]
    decide
  · exact ⟨_, outline_convertTree_blockOnly cv .rails hids rfl (.head _) (.inl rfl) rfl (.head _)
      hlists hcall⟩

/-- The call `before_save(**opts) { x }`. -/
def beforeSaveWithOptions : ParseNode :=
  beforeSave
    (spanning 6 "argument_list" (21, 1, 13) (29, 1, 21) (some "arguments")
      [spanning 7 "hash_splat_argument" (22, 1, 14) (28, 1, 20) none
        [spanning 8 "identifier" (24, 1, 16) (28, 1, 20) none []]])
    (spanning 9 "block" (30, 1, 22) (35, 1, 27) (some "block")
      [spanning 10 "identifier" (32, 1, 24) (33, 1, 25) (some "body") []])
    (35, 1, 27)

/-- A callback with `**options` for its only argument, and a block, is not listed. -/
theorem outline_spreadOptions :
    let cv := ofSource (.ofString "class A\n  before_save(**opts) { x }\nend\n") .utf16
    let container := classWithCall beforeSaveWithOptions (35, 1, 27) (39, 2, 3)
    let root := spanning 0 "program" (0, 0, 0) (40, 3, 0) none [container]
    let callback : CallbackMacro := ⟨"before_save", .model, true, true⟩
    root.DistinctIds ∧ root.shape = .plain ∧ container ∈ root.namedChildren ∧
    container.shape = .classDecl ∧ (container.child? "name").isSome ∧
    beforeSaveWithOptions ∈ container.statementsExcept container.heads ∧
    ListsBlocks .rails callback ∧ cv.BlockOnly callback beforeSaveWithOptions beforeSaveName ∧
    (outline .rails (cv.convertTree root)).map (fun s => (s.info.name, s.children.length)) =
      [("A", 0)] := by
  intro cv container root callback
  have hids : root.DistinctIds := by decide
  refine ⟨hids, rfl, .head _, rfl, rfl, .head _, ⟨by decide, rfl, rfl, by decide⟩, ?_, ?_⟩
  · refine ⟨rfl, rfl, by decide, rfl, rfl, _, rfl, ?_⟩
    decide
  · rw [outline_convertTree_eq cv .rails 11 hids (by decide)]
    decide

end Converter

end RubyOutline
