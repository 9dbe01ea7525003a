/-
RubyOutline/Proofs/Conversion/ConstantPaths.lean

Which paths are constant paths, and what they are called.  A path is read from right to left, part
by part along the scopes, and any part can put an end to it.  Here it is looked at as a whole: the
parts of a path are a list (`ParseNode.scopeChain`), and they are a chain of constants if each of
them is named by a constant and the scope of the leftmost one, if there is any, is a constant too
(`ParseNode.IsChainOfConstants`).  The walk succeeds for these chains and no others, with the texts
of the constants in the order of the source (`Converter.constantPath_eq`); and results that are
known already do not change that, wherever on the way they end the walk (`convertWith_eq_convert`).
-/
import RubyOutline.Proofs.Conversion.Evaluation
import RubyOutline.Proofs.ParseNode.SourceOrder

namespace RubyOutline

/-! ### Scope chains -/

namespace ParseNode

/-- The parts of a path from right to left: a node, and the parts of its scope if that is a path. -/
def scopeChain (n : ParseNode) : List ParseNode :=
  n :: match _h : n.child? "scope" with
    | none => []
    | some scope => if scope.shape = .scopeResolution then scope.scopeChain else []
termination_by sizeOf n
decreasing_by exact sizeOf_lt_of_mem (mem_of_child? _h)

/-- The scope of the leftmost part, where a path does not begin with `::`. -/
def chainEnd (n : ParseNode) : Option ParseNode :=
  n.scopeChain.getLast?.bind (·.child? "scope")

/-- Every part is named by a constant, and the path begins with `::` or with a constant. -/
def IsChainOfConstants (n : ParseNode) : Prop :=
  (∀ part ∈ n.scopeChain, ∃ name ∈ part.child? "name", name.shape = .constant) ∧
    ∀ scope ∈ n.chainEnd, scope.shape = .constant

instance (n : ParseNode) : Decidable n.IsChainOfConstants :=
  inferInstanceAs (Decidable (_ ∧ _))

/-- The constants of a path from left to right. -/
def chainConstants (n : ParseNode) : List ParseNode :=
  n.chainEnd.toList ++ n.scopeChain.reverse.filterMap (·.child? "name")

variable {n scope name : ParseNode}

/-! A scope that is a path is one more step of the chain. -/

section Step

variable (hscope : n.child? "scope" = some scope) (hpath : scope.shape = .scopeResolution)

include hscope hpath

theorem scopeChain_step : n.scopeChain = n :: scope.scopeChain := by
  rw [scopeChain]
  split
  · rename_i h
    rw [hscope] at h
    cases h
  · rename_i found h
    obtain rfl : scope = found := Option.some.inj (hscope.symm.trans h)
    rw [if_pos hpath]

theorem chainEnd_step : n.chainEnd = scope.chainEnd := by
  rw [chainEnd, chainEnd, scopeChain_step hscope hpath, scopeChain, List.getLast?_cons_cons]

theorem isChainOfConstants_step :
    n.IsChainOfConstants ↔
      (∃ name ∈ n.child? "name", name.shape = .constant) ∧ scope.IsChainOfConstants := by
  rw [IsChainOfConstants, IsChainOfConstants, scopeChain_step hscope hpath,
    chainEnd_step hscope hpath, List.forall_mem_cons, and_assoc]

theorem chainConstants_step (hname : n.child? "name" = some name) :
    n.chainConstants = scope.chainConstants ++ [name] := by
  rw [chainConstants, chainConstants, scopeChain_step hscope hpath, chainEnd_step hscope hpath,
    List.reverse_cons, List.filterMap_append, List.append_assoc]
  simp [hname]

end Step

/-! No scope, and a scope that is no path, end the chain. -/

section End

variable (hend : ∀ scope ∈ n.child? "scope", scope.shape ≠ .scopeResolution)

include hend

theorem scopeChain_end : n.scopeChain = [n] := by
  rw [scopeChain]
  split
  · rfl
  · rename_i scope h
    rw [if_neg (hend scope h)]

theorem chainEnd_end : n.chainEnd = n.child? "scope" := by
  rw [chainEnd, scopeChain_end hend]
  rfl

theorem isChainOfConstants_end :
    n.IsChainOfConstants ↔ (∃ name ∈ n.child? "name", name.shape = .constant) ∧
      ∀ scope ∈ n.child? "scope", scope.shape = .constant := by
  rw [IsChainOfConstants, scopeChain_end hend, chainEnd_end hend, List.forall_mem_singleton]

theorem chainConstants_end (hname : n.child? "name" = some name) :
    n.chainConstants = (n.child? "scope").toList ++ [name] := by
  rw [chainConstants, scopeChain_end hend, chainEnd_end hend]
  simp [hname]

end End

/-- The rightmost part of a constant path is named by a constant. -/
theorem IsChainOfConstants.named (h : n.IsChainOfConstants) :
    ∃ name ∈ n.child? "name", name.shape = .constant := by
  refine h.1 n ?_
  rw [scopeChain]
  exact List.mem_cons_self

end ParseNode

namespace Converter

open ParseNode

variable {cv : Converter}

/-! ### The walk along a chain -/

section Walk

variable {n scope name : ParseNode} {suffix : List String}

/-- A part without a name, or with one that is no constant, ends the walk in vain. -/
theorem constantPath_unnamed (h : ¬ ∃ name ∈ n.child? "name", name.shape = .constant) :
    cv.constantPath (fun _ => none) n suffix = none := by
  rw [constantPath]
  cases hname : n.child? "name" with
  | none => rfl
  | some name =>
    have hconstant : name.shape ≠ .constant := fun hconstant => h ⟨name, hname, hconstant⟩
    simp only [if_neg hconstant]

variable (hname : n.child? "name" = some name) (hconstant : name.shape = .constant)

include hname hconstant

/-- A scope that is a path is where the walk goes on. -/
theorem constantPath_step (hscope : n.child? "scope" = some scope)
    (hpath : scope.shape = .scopeResolution) :
    cv.constantPath (fun _ => none) n suffix =
      cv.constantPath (fun _ => none) scope (cv.text name :: suffix) := by
  rw [constantPath, hname]
  simp only [hconstant, if_true]
  split
  · rename_i h
    rw [hscope] at h
    cases h
  · rename_i found h
    obtain rfl : scope = found := Option.some.inj (hscope.symm.trans h)
    simp only [hpath]

/-- No scope ends the walk, and so does any other scope, in vain unless it is a constant. -/
theorem constantPath_end (hend : ∀ scope ∈ n.child? "scope", scope.shape ≠ .scopeResolution) :
    cv.constantPath (fun _ => none) n suffix =
      if ∀ scope ∈ n.child? "scope", scope.shape = .constant then
        some (((n.child? "scope").toList ++ [name]).map cv.text ++ suffix,
          (n.child? "scope").isNone)
      else none := by
  rw [constantPath, hname]
  simp only [hconstant, if_true]
  split
  · rename_i hscope
    simp [hscope]
  · rename_i scope hscope
    have hpath : scope.shape ≠ .scopeResolution := hend scope hscope
    cases hshape : scope.shape with
    | constant => simp [hscope, hshape]
    | scopeResolution => exact absurd hshape hpath
    | _ => simp [hscope, hshape]

end Walk

/-- **The walk along the scopes succeeds for chains of constants** and for no others. -/
theorem constantPath_eq (cv : Converter) (n : ParseNode) (suffix : List String) :
    cv.constantPath (fun _ => none) n suffix =
      if n.IsChainOfConstants then
        some (n.chainConstants.map cv.text ++ suffix, n.chainEnd.isNone)
      else none := by
  induction n using descendants_induction generalizing suffix with
  | step n ih =>
    by_cases hnamed : ∃ name ∈ n.child? "name", name.shape = .constant
    · obtain ⟨name, hname, hconstant⟩ := hnamed
      have hnamed : ∃ name ∈ n.child? "name", name.shape = .constant := ⟨name, hname, hconstant⟩
      by_cases hpath : ∃ scope ∈ n.child? "scope", scope.shape = .scopeResolution
      · obtain ⟨scope, hscope, hpath⟩ := hpath
        rw [constantPath_step hname hconstant hscope hpath,
          ih scope (mem_descendants_of_child? hscope)]
        simp only [isChainOfConstants_step hscope hpath, hnamed, true_and,
          chainConstants_step hscope hpath hname, chainEnd_step hscope hpath, List.map_append,
          List.append_assoc]
        rfl
      · have hend : ∀ scope ∈ n.child? "scope", scope.shape ≠ .scopeResolution :=
          fun scope hscope h => hpath ⟨scope, hscope, h⟩
        rw [constantPath_end hname hconstant hend]
        simp only [isChainOfConstants_end hend, hnamed, true_and, chainConstants_end hend hname,
          chainEnd_end hend]
    · rw [constantPath_unnamed hnamed, if_neg fun hchain => hnamed hchain.named]

theorem form_convert_of_chain {n : ParseNode} (hshape : n.shape = .scopeResolution)
    (hchain : n.IsChainOfConstants) :
    (cv.convert n).form = .constantPath (n.chainConstants.map cv.text) n.chainEnd.isNone := by
  have hlayer : cv.layer (fun _ => none) n =
      .constantPath (n.chainConstants.map cv.text) n.chainEnd.isNone := by
    rw [layer, hshape]
    simp only [constantPath_eq, if_pos hchain, List.append_nil]
  rw [convert_eq_map, hlayer]
  rfl

theorem form_convert_of_not_chain {n : ParseNode} (hshape : n.shape = .scopeResolution)
    (hchain : ¬ n.IsChainOfConstants) :
    (cv.convert n).form =
      .other n.kind ((n.namedChildren.flatMap statements).map cv.convert) := by
  have hlayer : cv.layer (fun _ => none) n = otherLayer n := by
    rw [layer, hshape]
    simp only [constantPath_eq, if_neg hchain]
  rw [convert_eq_map, hlayer, otherLayer, statementsOf_eq_flatMap]
  rfl

/-! ### Names -/

theorem constantName_of_constantPath {n : SyntaxNode} {segments : List String} {rooted : Bool}
    (h : n.form = .constantPath segments rooted) :
    n.constantName = some (constantPathName segments rooted) := by
  rw [SyntaxNode.constantName, h]

/-- A call is shown under the name of its receiver. -/
theorem displayName_convert_of_receiver {c n method : ParseNode} (hcall : c.shape = .call)
    (hmethod : c.child? "method" = some method) (hreceiver : c.child? "receiver" = some n) :
    (cv.convert c).displayName = (cv.convert n).constantName := by
  have hlayer : cv.layer (fun _ => none) c = cv.callForm c method := by
    rw [layer, hcall]
    simp only [callLayer, hmethod, Option.map_some, Option.getD_some]
  rw [convert_eq_map, hlayer]
  show ((c.child? "receiver").map cv.convert).bind SyntaxNode.constantName = _
  rw [hreceiver]
  rfl

/-! ### Conversion -/

/-- **A path is a constant path exactly if it is a chain of constants**, of whatever length and at
every moment of the conversion of a tree, so whichever scopes are converted already.  Its segments
are the texts of the constants from left to right, it is rooted exactly if its leftmost part has no
scope, and it is shown, as is a call on it, under its segments joined by `::`, after a leading `::`
if rooted.  Any other path is only traversed: it keeps the statements of its named children, which
are the children themselves except that comments and the texts of here-documents are dropped, and
that the statements of a body stand for the body. -/
theorem convert_scopeResolution (cv : Converter) {root n : ParseNode} (hids : root.DistinctIds)
    (hn : n ∈ root.nodes) (hshape : n.shape = .scopeResolution) :
    (∀ done rest, root.postOrder = done ++ rest →
      cv.convertWith (cv.memoAfter done) n = cv.convert n ∧
      ∀ found, (cv.memoAfter done)[n.id]? = some found → found = cv.convert n) ∧
    ((∃ segments rooted, (cv.convert n).form = .constantPath segments rooted) ↔
      n.IsChainOfConstants) ∧
    (n.IsChainOfConstants →
      let segments := n.chainConstants.map cv.text
      let joined := "::".intercalate segments
      let shown := if n.chainEnd = none then "::" ++ joined else joined
      (∃ rooted, (cv.convert n).form = .constantPath segments rooted ∧
        (rooted = true ↔ n.chainEnd = none)) ∧
      (cv.convert n).displayName = some shown ∧
      ∀ c method, c.shape = .call → c.child? "method" = some method →
        c.child? "receiver" = some n → (cv.convert c).displayName = some shown) ∧
    (¬ n.IsChainOfConstants → (cv.convert n).form =
      .other n.kind ((n.namedChildren.flatMap statements).map cv.convert)) := by
  refine ⟨fun done rest hdone => ?_, ⟨fun ⟨segments, rooted, hform⟩ => ?_, fun hchain => ?_⟩,
    fun hchain => ?_, form_convert_of_not_chain hshape⟩
  · have hsound : Memo.Sound cv root (cv.memoAfter done) := sound_of_postOrder cv hids hdone
    exact ⟨convertWith_eq_convert hsound hn, hsound n hn⟩
  · by_contra hchain
    rw [form_convert_of_not_chain hshape hchain] at hform
    cases hform
  · exact ⟨_, _, form_convert_of_chain hshape hchain⟩
  · intro segments joined shown
    have hform : (cv.convert n).form = .constantPath segments n.chainEnd.isNone :=
      form_convert_of_chain hshape hchain
    have hname : (cv.convert n).constantName = some shown := by
      rw [constantName_of_constantPath hform, constantPathName]
      simp only [Option.isNone_iff_eq_none]
      rfl
    refine ⟨⟨_, hform, Option.isNone_iff_eq_none⟩, ?_, fun c method hcall hmethod hreceiver => ?_⟩
    · rw [SyntaxNode.displayName, hform]
      exact hname
    · rw [displayName_convert_of_receiver hcall hmethod hreceiver, hname]

/-- The path in `::A::B.new`, of two parts. -/
def rootedPath : ParseNode :=
  inLine 1 "scope_resolution" 0 6 (some "receiver")
    [inLine 2 "scope_resolution" 0 3 (some "scope") [inLine 3 "constant" 2 3 (some "name") []],
     inLine 4 "constant" 5 6 (some "name") []]

def callOnRootedPath : ParseNode :=
  inLine 0 "call" 0 10 none [rootedPath, inLine 5 "identifier" 7 10 (some "method") []]

theorem convert_scopeResolution_rootedPath :
    let cv := ofSource (.ofString "::A::B.new") .utf16
    callOnRootedPath.DistinctIds ∧ rootedPath ∈ callOnRootedPath.nodes ∧
    rootedPath.shape = .scopeResolution ∧ rootedPath.IsChainOfConstants ∧
    (cv.convert rootedPath).form = .constantPath ["A", "B"] true ∧
    (cv.convert rootedPath).displayName = some "::A::B" ∧
    (cv.convert callOnRootedPath).displayName = some "::A::B" := by
  intro cv
  have hids : callOnRootedPath.DistinctIds := by decide
  have hmem : rootedPath ∈ callOnRootedPath.nodes := List.mem_cons_of_mem _ List.mem_cons_self
  have hend : ∀ scope ∈ (inLine 2 "scope_resolution" 0 3 (some "scope")
      [inLine 3 "constant" 2 3 (some "name") []]).child? "scope",
      scope.shape ≠ .scopeResolution := nofun
  have hchain : rootedPath.IsChainOfConstants :=
    (isChainOfConstants_step rfl rfl).2
      ⟨⟨_, rfl, rfl⟩, (isChainOfConstants_end hend).2 ⟨⟨_, rfl, rfl⟩, nofun⟩⟩
  have hnoScope : rootedPath.chainEnd = none :=
    (chainEnd_step rfl rfl).trans (chainEnd_end hend)
  have hsegments : rootedPath.chainConstants.map cv.text = ["A", "B"] := by
    rw [chainConstants_step rfl rfl rfl, chainConstants_end hend rfl]
    decide
  obtain ⟨-, -, hpath, -⟩ := convert_scopeResolution cv hids hmem rfl
  obtain ⟨⟨rooted, hform, hrooted⟩, hdisplay, hcall⟩ := hpath hchain
  rw [hrooted.2 hnoScope, hsegments] at hform
  rw [if_pos hnoScope, hsegments] at hdisplay
  have hcall := hcall callOnRootedPath _ rfl rfl rfl
  rw [if_pos hnoScope, hsegments] at hcall
  exact ⟨hids, hmem, rfl, hchain, hform, hdisplay, hcall⟩

/-- `foo::Bar` with a comment after the `::`. -/
def pathWithComment : ParseNode :=
  spanning 0 "scope_resolution" (0, 0, 0) (13, 1, 3) none
    [spanning 1 "identifier" (0, 0, 0) (3, 0, 3) (some "scope") [],
     spanning 2 "comment" (6, 0, 6) (9, 0, 9) none [],
     spanning 3 "constant" (10, 1, 0) (13, 1, 3) (some "name") []]

/-- The comment is a named child of the path, and is dropped. -/
theorem form_convertTree_pathWithComment :
    let cv := ofSource (.ofString "foo:: # x\nBar") .utf16
    pathWithComment.DistinctIds ∧ pathWithComment.shape = .scopeResolution ∧
    ¬ pathWithComment.IsChainOfConstants ∧ pathWithComment.namedChildren.length = 3 ∧
    (cv.convertTree pathWithComment).childNodes.length = 2 ∧
    (cv.convertTree pathWithComment).form ≠
      .other pathWithComment.kind (pathWithComment.namedChildren.map cv.convert) := by
  intro cv
  have hids : pathWithComment.DistinctIds := by decide
  have hend : ∀ scope ∈ pathWithComment.child? "scope", scope.shape ≠ .scopeResolution := by
    decide
  have hchain : ¬ pathWithComment.IsChainOfConstants := by
    rw [isChainOfConstants_end hend]
    decide
  have hchildren : (cv.convertTree pathWithComment).childNodes.length = 2 := by
    rw [convertTree_eq hids, SyntaxNode.childNodes, form_convert_of_not_chain rfl hchain]
    rfl
  refine ⟨hids, rfl, hchain, rfl, hchildren, fun hkept => ?_⟩
  -- with all named children kept there would be three
  rw [SyntaxNode.childNodes, hkept] at hchildren
  cases hchildren

end Converter

end RubyOutline
