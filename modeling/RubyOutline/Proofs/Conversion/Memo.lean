/-
RubyOutline/Proofs/Conversion/Memo.lean

The conversion with a memo gives what the conversion without one gives.

A memo is sound for a tree (`Memo.Sound`) if whatever it knows about a node of the tree is the
node's conversion.  With a sound memo the conversion of a node is the plain one
(`convertWith_eq_convert`): a hole is either found, and then it is what converting it would have
given, or converted on the spot.  The one place where a result that is found changes the course of
the conversion is a constant path, whose walk along the scopes ends there; `constantPath_known`
says that it ends with what the rest of the walk would have given.  Converting the nodes of a tree
one after the other then keeps the memo sound, since the ids of a tree tell its nodes apart.
-/
import Mathlib.Data.List.Induction
import RubyOutline.Conversion
import RubyOutline.Proofs.ParseNode.DistinctIds
import RubyOutline.Proofs.ParseNode.PostOrder

namespace RubyOutline

/-- Filling the holes of a layer only depends on what goes into them. -/
theorem Form.mapHoles_congr {α β : Type} {form : Form α} {f g fBlock gBlock : (a : α) →
    a ∈ form.holes → β} (hf : ∀ a h, f a h = g a h) (hBlock : ∀ a h, fBlock a h = gBlock a h) :
    form.mapHoles f fBlock = form.mapHoles g gBlock := by
  have hfg : f = g := funext fun a => funext fun h => hf a h
  have hfgBlock : fBlock = gBlock := funext fun a => funext fun h => hBlock a h
  rw [hfg, hfgBlock]

namespace Converter

open ParseNode

variable {cv : Converter}

/-! ### Conversion without a memo -/

/-- What becomes of a node that is attached to a call as its block. -/
def convertBlock (cv : Converter) (b : ParseNode) : SyntaxNode :=
  ⟨cv.range b, .block ((blockBody b).map cv.convert)⟩

theorem convert_eq (cv : Converter) (n : ParseNode) :
    cv.convert n = ⟨cv.range n, (cv.layer (fun _ => none) n).mapHoles (fun c _ => cv.convert c)
      fun b _ => cv.convertBlock b⟩ := by
  rw [convert]
  simp only [convertBlock, List.pmap_eq_map]

/-! ### Constant paths -/

/-- Segments to the right of a path do not matter to its other segments. -/
theorem constantPath_suffix (cv : Converter) (n : ParseNode) (suffix : List String) :
    cv.constantPath (fun _ => none) n suffix =
      (cv.constantPath (fun _ => none) n []).map fun path => (path.1 ++ suffix, path.2) := by
  induction n using descendants_induction generalizing suffix with
  | step n ih =>
    rw [constantPath, constantPath]
    cases n.child? "name" with
    | none => rfl
    | some name =>
      simp only
      split
      · split
        · rfl
        · rename_i scope hscope
          cases scope.shape with
          | constant => rfl
          | scopeResolution =>
            simp only
            rw [ih scope (mem_descendants_of_child? hscope) (cv.text name :: suffix),
              ih scope (mem_descendants_of_child? hscope) [cv.text name], Option.map_map]
            congr 1
            funext path
            simp
          | _ => rfl
      · rfl

/-- What the form of a converted scope says about its path. -/
theorem form_convert_of_scopeResolution (cv : Converter) {n : ParseNode}
    (h : n.shape = .scopeResolution) :
    (∃ segments rooted, cv.constantPath (fun _ => none) n [] = some (segments, rooted) ∧
      (cv.convert n).form = .constantPath segments rooted) ∨
    (cv.constantPath (fun _ => none) n [] = none ∧
      ∀ segments rooted, (cv.convert n).form ≠ .constantPath segments rooted) := by
  cases hpath : cv.constantPath (fun _ => none) n [] with
  | none =>
    have hlayer : cv.layer (fun _ => none) n = otherLayer n := by
      rw [layer, h]
      simp only [hpath]
    rw [convert_eq, hlayer]
    exact .inr ⟨rfl, fun segments rooted hform => by cases hform⟩
  | some path =>
    have hlayer : cv.layer (fun _ => none) n = .constantPath path.1 path.2 := by
      rw [layer, h]
      simp only [hpath]
    rw [convert_eq, hlayer]
    exact .inl ⟨path.1, path.2, rfl, rfl⟩

/-- A walk along the scopes that is cut short by results already known ends with what the walk to
the end of the chain gives. -/
theorem constantPath_known {known : ParseNode → Option SyntaxNode} {n : ParseNode}
    (hknown : ∀ m ∈ n.descendants, ∀ found, known m = some found → found = cv.convert m)
    (suffix : List String) :
    cv.constantPath known n suffix = cv.constantPath (fun _ => none) n suffix := by
  induction n using descendants_induction generalizing suffix with
  | step n ih =>
    rw [constantPath, constantPath]
    cases n.child? "name" with
    | none => rfl
    | some name =>
      simp only
      split
      · split
        · rfl
        · rename_i scope hscope
          have hbelow : scope ∈ n.descendants := mem_descendants_of_child? hscope
          cases hshape : scope.shape with
          | scopeResolution =>
            simp only
            cases hfound : known scope with
            | none =>
              -- the walk goes on
              exact ih scope hbelow (fun m hm found => hknown m
                (mem_descendants_trans hbelow (mem_nodes_of_mem_descendants hm)) found) _
            | some found =>
              obtain rfl := hknown scope hbelow found hfound
              rw [constantPath_suffix]
              rcases form_convert_of_scopeResolution cv hshape with
                ⟨segments, rooted, hpath, hform⟩ | ⟨hpath, hform⟩
              · -- a path is extended
                rw [hpath]
                generalize cv.convert scope = converted at hform
                obtain ⟨range, form⟩ := converted
                cases hform
                rfl
              · -- anything else is given up, and the rest of the walk would have failed
                rw [hpath]
                generalize cv.convert scope = converted at hform
                obtain ⟨range, form⟩ := converted
                cases form with
                | constantPath segments rooted => exact absurd rfl (hform segments rooted)
                | _ => rfl
          | _ => rfl
      · rfl

/-- Results already known only matter to the layer of a constant path, and there they change
nothing. -/
theorem layer_known {known : ParseNode → Option SyntaxNode} {n : ParseNode}
    (hknown : ∀ m ∈ n.descendants, ∀ found, known m = some found → found = cv.convert m) :
    cv.layer known n = cv.layer (fun _ => none) n := by
  unfold layer
  rw [constantPath_known hknown]

/-! ### Sound memos -/

/-- Whatever a memo knows about a node of the tree is the conversion of the node. -/
def Memo.Sound (cv : Converter) (root : ParseNode) (memo : Memo) : Prop :=
  ∀ n ∈ root.nodes, ∀ found, memo[n.id]? = some found → found = cv.convert n

theorem Memo.Sound.getD {root n : ParseNode} {memo : Memo} (h : Memo.Sound cv root memo)
    (hn : n ∈ root.nodes) : memo[n.id]?.getD (cv.convert n) = cv.convert n := by
  cases hfound : memo[n.id]? with
  | none => rfl
  | some found => exact h n hn found hfound

/-- With a sound memo a node is converted as without one. -/
theorem convertWith_eq_convert {root : ParseNode} {memo : Memo} (hmemo : Memo.Sound cv root memo)
    {n : ParseNode} (hn : n ∈ root.nodes) : cv.convertWith memo n = cv.convert n := by
  induction n using descendants_induction with
  | step n ih =>
    have hbelow : ∀ m ∈ n.descendants, m ∈ root.nodes := fun m hm =>
      mem_nodes_trans hn (mem_nodes_of_mem_descendants hm)
    have hfilled : ∀ m ∈ n.descendants,
        memo[m.id]?.getD (cv.convertWith memo m) = cv.convert m := by
      intro m hm
      rw [ih m hm (hbelow m hm)]
      exact hmemo.getD (hbelow m hm)
    have hlayer : cv.layer (fun c => memo[c.id]?) n = cv.layer (fun _ => none) n :=
      layer_known fun m hm => hmemo m (hbelow m hm)
    rw [convertWith, convert_eq, ← hlayer]
    refine congrArg (SyntaxNode.mk (cv.range n)) (Form.mapHoles_congr ?_ ?_)
    · intro c hc
      exact hfilled c (mem_descendants_of_mem_holes hc)
    · -- a block is built afresh either way, and only what stands in it is looked up
      intro b hb
      have hb : b ∈ n.descendants := mem_descendants_of_mem_holes hb
      rw [convertBlock, List.pmap_eq_map]
      congr 2
      refine List.map_congr_left fun c hc => hfilled c ?_
      exact mem_descendants_of_mem_blockBody_below hb hc

/-! ### The memo of a tree -/

theorem memoAfter_nil (cv : Converter) : cv.memoAfter [] = ∅ := rfl

theorem memoAfter_concat (cv : Converter) (nodes : List ParseNode) (n : ParseNode) :
    cv.memoAfter (nodes ++ [n]) =
      (cv.memoAfter nodes).insert n.id (cv.convertWith (cv.memoAfter nodes) n) := by
  rw [memoAfter, memoAfter, List.foldl_append]
  rfl

/-- **The memo stays sound** while nodes of the tree are converted one after the other, in whatever
order. -/
theorem sound_memoAfter {root : ParseNode} (hroot : root.DistinctIds) (nodes : List ParseNode)
    (hnodes : ∀ n ∈ nodes, n ∈ root.nodes) : Memo.Sound cv root (cv.memoAfter nodes) := by
  induction nodes using List.reverseRec with
  | nil =>
    intro m _ found hfound
    rw [memoAfter_nil, Std.HashMap.getElem?_empty] at hfound
    cases hfound
  | append_singleton nodes n ih =>
    have hsound : Memo.Sound cv root (cv.memoAfter nodes) :=
      ih fun m hm => hnodes m (List.mem_append_left _ hm)
    have hn : n ∈ root.nodes := hnodes n (List.mem_append_right _ List.mem_cons_self)
    intro m hm found hfound
    rw [memoAfter_concat, Std.HashMap.getElem?_insert] at hfound
    split at hfound
    · -- the entry is the new one, so its node is the one just converted
      rename_i hid
      obtain rfl : n = m := hroot.eq_of_id_eq hn hm (beq_iff_eq.1 hid)
      rw [← Option.some.inj hfound, convertWith_eq_convert hsound hn]
    · exact hsound m hm found hfound

/-- At every moment of the conversion of a tree the memo is sound. -/
theorem sound_of_postOrder (cv : Converter) {root : ParseNode} (hroot : root.DistinctIds)
    {done rest : List ParseNode} (hdone : root.postOrder = done ++ rest) :
    Memo.Sound cv root (cv.memoAfter done) := by
  refine sound_memoAfter hroot done fun m hm => mem_nodes_of_mem_namedPostOrder ?_
  rw [← postOrder_eq, hdone]
  exact List.mem_append_left _ hm

/-! ### Whole trees -/

/-- The root is converted last, with the memo of all nodes below it. -/
theorem getElem?_memoOf_root (cv : Converter) (root : ParseNode) :
    (cv.memoOf root)[root.id]? =
      some (cv.convertWith (cv.memoAfter (root.namedChildren.flatMap namedPostOrder)) root) := by
  rw [memoOf, postOrder_eq, namedPostOrder_eq, memoAfter_concat, Std.HashMap.getElem?_insert_self]

theorem memoOf_root {root : ParseNode} (hroot : root.DistinctIds) :
    (cv.memoOf root)[root.id]? = some (cv.convert root) := by
  have hsplit : root.postOrder = root.namedChildren.flatMap namedPostOrder ++ [root] := by
    rw [postOrder_eq, namedPostOrder_eq]
  rw [getElem?_memoOf_root,
    convertWith_eq_convert (sound_of_postOrder cv hroot hsplit) root.mem_nodes_self]

theorem convertTree_eq {root : ParseNode} (hroot : root.DistinctIds) :
    cv.convertTree root = cv.convert root := by
  rw [convertTree, memoOf_root hroot, Option.getD_some]

/-- **Converting bottom-up with a memo is converting top-down without one.**  The result of the
root is in the memo and is its plain conversion; and at every moment of the conversion the results
known so far cut no walk along the scopes of a constant path short with another outcome than that
of the whole walk.  All that is asked of the tree is that ids tell its nodes apart, as they do in
every tree of a table (`ParseNode.distinctIds_of_ofTable`). -/
theorem convertTree_eq_convert (cv : Converter) {root : ParseNode} (hroot : root.DistinctIds) :
    (cv.memoOf root)[root.id]? = some (cv.convert root) ∧
    cv.convertTree root = cv.convert root ∧
    ∀ done rest, root.postOrder = done ++ rest → ∀ n ∈ root.nodes, ∀ suffix,
      cv.constantPath (fun c => (cv.memoAfter done)[c.id]?) n suffix =
        cv.constantPath (fun _ => none) n suffix := by
  refine ⟨memoOf_root hroot, convertTree_eq hroot, ?_⟩
  intro done rest hdone n hn suffix
  exact constantPath_known (fun m hm => sound_of_postOrder cv hroot hdone m
    (mem_nodes_trans hn (mem_nodes_of_mem_descendants hm))) suffix

/-- The path `A::B::C` with a scope that is not named, so that no memo ever has it. -/
def pathWithUnnamedScope : ParseNode :=
  let label (kind : String) (start stop : Nat) (named : Bool) (field : String) : ParseLabel :=
    ⟨kind, ⟨start, ⟨0, start⟩, stop, ⟨0, stop⟩⟩, named, false, false, some field⟩
  ⟨0, label "scope_resolution" 0 7 true "receiver",
    [⟨1, label "scope_resolution" 0 4 false "scope",
      [⟨2, label "constant" 0 1 true "scope", []⟩, ⟨3, label "constant" 3 4 true "name", []⟩]⟩,
     ⟨4, label "constant" 6 7 true "name", []⟩]⟩

theorem convertTree_pathWithUnnamedScope :
    let cv := ofSource (.ofString "A::B::C") .utf16
    pathWithUnnamedScope.DistinctIds ∧
    (cv.memoOf pathWithUnnamedScope)[pathWithUnnamedScope.id]? =
      some (cv.convert pathWithUnnamedScope) ∧
    cv.convertTree pathWithUnnamedScope = cv.convert pathWithUnnamedScope ∧
    ∀ done rest, pathWithUnnamedScope.postOrder = done ++ rest →
      ∀ n ∈ pathWithUnnamedScope.nodes, ∀ suffix,
        cv.constantPath (fun c => (cv.memoAfter done)[c.id]?) n suffix =
          cv.constantPath (fun _ => none) n suffix := by
  have hids : pathWithUnnamedScope.DistinctIds := by decide
  exact ⟨hids, convertTree_eq_convert _ hids⟩

end Converter

end RubyOutline
