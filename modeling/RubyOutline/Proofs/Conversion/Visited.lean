/-
RubyOutline/Proofs/Conversion/Visited.lean

The nodes that a conversion visits.  A visited node is in the holes of one visited before it, and
the nodes of the syntax tree are the conversions of the visited ones, one for each
(`Converter.nodes_convert`); only where a call has a block that is none would there be a node
that is the conversion of nothing.

A layer has its holes in one of four ways (`Converter.HolesAre`): it has none, it has those of a
call or of a lambda, or the statements of all children but the head.  Each takes subtrees that have
no node in common, so no node is visited twice (`Converter.nodup_visited`).
-/
import Mathlib.Data.List.Flatten
import Mathlib.Data.List.Perm.Subperm
import RubyOutline.Proofs.Conversion.SourceOrder
import RubyOutline.Proofs.Conversion.Ways

namespace RubyOutline

/-! ### Subtrees of statements -/

namespace ParseNode

theorem flatMap_nodes_statementsOf_sublist {ns : List ParseNode}
    (h : ∀ n ∈ ns, (n.statements.flatMap nodes).Sublist n.nodes) :
    ((statementsOf ns).flatMap nodes).Sublist (nodesOf ns) := by
  rw [statementsOf_eq_flatMap, List.flatMap_assoc, nodesOf_eq_flatMap]
  have hnamed : ∀ n ∈ ns.filter (·.label.named), (n.statements.flatMap nodes).Sublist n.nodes :=
    fun n hn => h n (List.mem_filter.1 hn).1
  exact (List.Sublist.flatMap_right _ hnamed).trans (List.filter_sublist.flatMap _)

theorem flatMap_nodes_statements_sublist (n : ParseNode) :
    (n.statements.flatMap nodes).Sublist n.nodes := by
  induction n using descendants_induction with
  | step n ih =>
    have hbody : ((statementsOf n.children).flatMap nodes).Sublist n.descendants :=
      flatMap_nodes_statementsOf_sublist fun c hc =>
        ih c (mem_descendants_of_mem hc c.mem_nodes_self)
    rw [statements_eq]
    split
    · exact List.nil_sublist _
    · rw [nodes_eq]
      exact hbody.cons n
    · rw [List.flatMap_singleton]

/-- The statements of some children head subtrees that have no node in common. -/
theorem flatMap_nodes_statementsExcept_sublist (n : ParseNode) (except : List (Option ParseNode)) :
    ((n.statementsExcept except).flatMap nodes).Sublist n.descendants := by
  refine (flatMap_nodes_statementsOf_sublist fun c _ => c.flatMap_nodes_statements_sublist).trans ?_
  rw [descendants, nodesOf_eq_flatMap, nodesOf_eq_flatMap]
  exact List.filter_sublist.flatMap _

/-- The parts of a call are different children. -/
theorem callParts_subperm (n : ParseNode) :
    ((n.child? "receiver").toList ++ (n.child? "arguments").toList ++
      (n.child? "block").toList).Subperm n.children := by
  have hfield : ∀ field, ((n.child? field).toList.map (·.label.field)).Sublist [some field] := by
    intro field
    cases hc : n.child? field with
    | none => exact List.nil_sublist _
    | some c => simp [field_of_child? hc]
  refine List.Nodup.subperm (List.Nodup.of_map (·.label.field) ?_) fun c hc => ?_
  · rw [List.map_append, List.map_append]
    refine List.Nodup.sublist (((hfield _).append (hfield _)).append (hfield _)) ?_
    decide
  · simp only [List.mem_append, Option.mem_toList] at hc
    rcases hc with (hc | hc) | hc <;> exact mem_of_child? hc

end ParseNode

namespace Converter

open ParseNode

variable {cv : Converter}

/-! ### Holes -/

/-- What stands in the holes of the layer of a node. -/
inductive HolesAre (cv : Converter) (n : ParseNode) : List ParseNode → Prop
  | literal (h : n.IsLiteral) : HolesAre cv n []
  | call {method : ParseNode} (shape : n.shape = .call)
      (hmethod : n.child? "method" = some method) : HolesAre cv n (cv.callForm n method).holes
  | lambda (shape : n.shape = .lambda) :
      HolesAre cv n ((n.child? "body").map blockBody |>.getD [])
  | spliced (h : n.Spliced) : HolesAre cv n (n.statementsExcept n.heads)

/-- A walk along the scopes ends well for a path of constants, and for nothing else. -/
theorem isSome_constantPath (cv : Converter) {n : ParseNode} {suffix : List String} :
    (cv.constantPath (fun _ => none) n suffix).isSome ↔ n.IsConstantPath := by
  induction n using descendants_induction generalizing suffix with
  | step n ih =>
    rw [constantPath]
    constructor
    · intro h
      split at h
      · cases h
      · rename_i name hname
        split at h
        · rename_i hconstant
          split at h
          · rename_i hscope
            exact .rooted hname hconstant hscope
          · rename_i scope hscope
            split at h
            · rename_i shape
              exact .constant hname hconstant hscope shape
            · rename_i shape
              exact .path hname hconstant hscope shape
                ((ih scope (mem_descendants_of_child? hscope)).1 h)
            · cases h
        · cases h
    · intro h
      obtain ⟨name, hname, hconstant⟩ :
          ∃ name, n.child? "name" = some name ∧ name.shape = .constant := by
        cases h <;> exact ⟨_, ‹_›, ‹_›⟩
      rw [hname]
      simp only
      rw [if_pos hconstant]
      split
      · rfl
      · rename_i scope hscope
        cases h with
        | rooted _ _ hnone => exact absurd hscope (by simp [hnone])
        | constant _ _ hsome shape =>
          obtain rfl := Option.some.inj (hscope.symm.trans hsome)
          rw [shape]
          rfl
        | path _ _ hsome shape hpath =>
          obtain rfl := Option.some.inj (hscope.symm.trans hsome)
          rw [shape]
          exact (ih scope (mem_descendants_of_child? hscope)).2 hpath

theorem holesAre_layer (cv : Converter) (n : ParseNode) :
    cv.HolesAre n (cv.layer (fun _ => none) n).holes := by
  have spliced : ∀ except, n.statementsExcept n.heads = n.statementsExcept except → n.Spliced →
      cv.HolesAre n (n.statementsExcept except) := by
    intro except hheads h
    rw [← hheads]
    exact .spliced h
  have whole : n.heads = [] → n.Spliced → cv.HolesAre n (statementsOf n.children) := by
    intro hheads h
    rw [← statementsExcept_nil]
    exact spliced [] (by rw [hheads]) h
  have hform := cv.isLayer_layer (fun _ => none) n
  generalize cv.layer (fun _ => none) n = form at hform
  cases hform with
  | classDecl shape hname =>
    exact spliced _ (by rw [heads, shape, hname]) (spliced_of_shape (by simp [shape]))
  | moduleDecl shape hname =>
    exact spliced _ (by rw [heads, shape, hname]) (spliced_of_shape (by simp [shape]))
  | methodDecl shape hname =>
    rcases shape with shape | ⟨shape, hobject⟩
    · exact spliced _ (by rw [heads, shape, hname]) (spliced_of_shape (by simp [shape]))
    · -- an object that is none is no exception
      exact spliced _ (by simp [heads, shape, hname, hobject, statementsExcept])
        (spliced_of_shape (by simp [shape]))
  | singletonMethodDecl shape hobject hname =>
    exact spliced _ (by rw [heads, shape, hname, hobject]) (spliced_of_shape (by simp [shape]))
  | call shape hmethod => exact .call shape hmethod
  | string shape | chainedString shape | simpleSymbol shape | constant shape =>
    exact .literal (by simp [IsLiteral, shape])
  | delimitedSymbol shape hplain => exact .literal (by simpa [IsLiteral, shape] using hplain)
  | constantPath shape hpath =>
    refine .literal ?_
    rw [IsLiteral, shape]
    exact cv.isSome_constantPath.1 (by rw [hpath]; rfl)
  | lambda shape => exact .lambda shape
  | block shape =>
    exact spliced _ (by rw [heads, shape]) (spliced_of_shape (by simp [shape]))
  | noName shape hname =>
    rcases shape with shape | shape | shape | shape <;>
      exact whole (by rw [heads, shape, hname]) (spliced_of_shape (by simp [shape]))
  | noMethod shape hmethod =>
    exact whole (by simp [heads, shape])
      ⟨by simp [IsLiteral, shape], by simp [CallsMethod, hmethod], by simp [shape]⟩
  | interpolated shape hplain =>
    exact whole (by simp [heads, shape])
      ⟨by simp [IsLiteral, shape, hplain], by simp [CallsMethod, shape], by simp [shape]⟩
  | noPath shape hpath =>
    have hno : ¬ n.IsConstantPath := fun h => by
      have hsome : (cv.constantPath (fun _ => none) n []).isSome := cv.isSome_constantPath.2 h
      rw [hpath] at hsome
      cases hsome
    exact whole (by simp [heads, shape])
      ⟨by simpa [IsLiteral, shape] using hno, by simp [CallsMethod, shape], by simp [shape]⟩
  | traversed shape =>
    rcases shape with shape | shape | shape <;>
      exact whole (by simp [heads, shape]) (spliced_of_shape (by simp [shape]))

/-! ### Subtrees of holes -/

/-- Arguments head subtrees of the node that holds them. -/
theorem flatMap_nodes_argumentNodes_sublist (n : ParseNode) :
    ((argumentNodes n).flatMap nodes).Sublist ((n.child? "arguments").toList.flatMap nodes) := by
  rw [argumentNodes]
  split
  · exact List.nil_sublist _
  · rename_i list hlist
    have hlist' : ((list.namedChildren.filter fun a => a.shape != .skipped).flatMap nodes).Sublist
        list.descendants := by
      rw [descendants, nodesOf_eq_flatMap]
      exact (List.filter_sublist.trans List.filter_sublist).flatMap _
    rw [hlist, Option.toList_some, List.flatMap_singleton, nodes_eq]
    exact hlist'.cons list

/-- What a call holds heads subtrees of its parts. -/
theorem flatMap_nodes_callForm_subperm (cv : Converter) (n method : ParseNode) :
    ((cv.callForm n method).holes.flatMap nodes).Subperm n.descendants := by
  have hvalue : ∀ p : ParseNode, ((cv.keywordValue p).flatMap nodes).Sublist p.nodes := by
    intro p
    rw [keywordValue]
    cases hk : cv.keyword p with
    | none => exact List.nil_sublist _
    | some k =>
      rw [Option.map_some, Option.toList_some, List.flatMap_singleton, nodes_eq p]
      exact (nodes_sublist_descendants (mem_of_child? (keyword_value hk))).cons p
  have hpairs : ((((argumentNodes n).filter isPair).flatMap cv.keywordValue).flatMap nodes).Sublist
      (((argumentNodes n).filter isPair).flatMap nodes) := by
    rw [List.flatMap_assoc]
    exact List.Sublist.flatMap_right _ fun p _ => hvalue p
  have hparts : ((n.child? "receiver").toList ++ (n.child? "arguments").toList ++
      (n.child? "block").toList).flatMap nodes |>.Subperm n.descendants := by
    obtain ⟨parts, hperm, hparts⟩ := n.callParts_subperm
    rw [descendants, nodesOf_eq_flatMap]
    exact ⟨parts.flatMap nodes, hperm.flatMap_right _, hparts.flatMap _⟩
  -- the pairs and the other arguments are all arguments, in another order
  have harguments : (((argumentNodes n).filter (!isPair ·)).flatMap nodes ++
      ((argumentNodes n).filter isPair).flatMap nodes).Perm ((argumentNodes n).flatMap nodes) := by
    rw [← List.flatMap_append]
    exact (List.perm_append_comm.trans (List.filter_append_perm isPair _)).flatMap_right _
  refine List.Subperm.trans ?_ hparts
  rw [holes_callForm]
  simp only [List.flatMap_append]
  refine List.Subperm.append (.trans ?_ (List.Subperm.append (.refl _)
    (flatMap_nodes_argumentNodes_sublist n).subperm)) (.refl _)
  rw [List.append_assoc]
  exact .append (.refl _) ((((List.Sublist.refl _).append hpairs).subperm).trans harguments.subperm)

/-- The holes of a layer head subtrees that have no node in common. -/
theorem flatMap_nodes_holes_subperm (cv : Converter) (n : ParseNode) :
    ((cv.layer (fun _ => none) n).holes.flatMap nodes).Subperm n.descendants := by
  have hholes := cv.holesAre_layer n
  generalize (cv.layer (fun _ => none) n).holes = holes at hholes
  cases hholes with
  | literal => exact List.nil_subperm
  | call _ _ => exact cv.flatMap_nodes_callForm_subperm n _
  | lambda =>
    cases hb : n.child? "body" with
    | none => exact List.nil_subperm
    | some b =>
      have hbody : ((blockBody b).flatMap nodes).Sublist b.nodes := by
        rw [nodes_eq]
        exact (b.flatMap_nodes_statementsExcept_sublist _).cons b
      exact (hbody.trans (nodes_sublist_descendants (mem_of_child? hb))).subperm
  | spliced => exact (n.flatMap_nodes_statementsExcept_sublist _).subperm

/-! ### Visited nodes -/

/-- A node and all those that its conversion visits. -/
def visited (cv : Converter) (n : ParseNode) : List ParseNode :=
  n :: (cv.layer (fun _ => none) n).holes.attach.flatMap fun c => cv.visited c.1
termination_by sizeOf n
decreasing_by exact sizeOf_lt_of_mem_holes c.2

theorem visited_eq (cv : Converter) (n : ParseNode) :
    cv.visited n = n :: (cv.layer (fun _ => none) n).holes.flatMap cv.visited := by
  rw [visited, List.flatMap_subtype (g := cv.visited) fun _ _ => rfl, List.unattach_attach]

theorem visited_subperm (cv : Converter) (n : ParseNode) : (cv.visited n).Subperm n.nodes := by
  induction n using descendants_induction with
  | step n ih =>
    rw [visited_eq, nodes_eq, List.subperm_cons]
    refine (flatMap_subperm_flatMap_nodes fun c hc => ?_).trans (cv.flatMap_nodes_holes_subperm n)
    exact ih c (mem_descendants_of_mem_holes hc)

/-- No node is visited twice. -/
theorem nodup_visited (cv : Converter) {root : ParseNode} (hids : root.DistinctIds) :
    (cv.visited root).Nodup :=
  .of_map _ (hids.nodup_of_subperm (cv.visited_subperm root))

theorem mem_nodes_of_mem_visited {root n : ParseNode} (h : n ∈ cv.visited root) :
    n ∈ root.nodes :=
  (cv.visited_subperm root).subset h

theorem mem_visited_self (cv : Converter) (n : ParseNode) : n ∈ cv.visited n := by
  rw [visited_eq]
  exact List.mem_cons_self

/-- What stands in the holes of a visited node is visited. -/
theorem mem_visited_of_mem_holes {root n c : ParseNode} (hn : n ∈ cv.visited root)
    (hc : c ∈ (cv.layer (fun _ => none) n).holes) : c ∈ cv.visited root := by
  induction root using descendants_induction with
  | step root ih =>
    rw [visited_eq, List.mem_cons] at hn ⊢
    rcases hn with rfl | hn
    · exact .inr (List.mem_flatMap.2 ⟨c, hc, cv.mem_visited_self c⟩)
    · obtain ⟨d, hd, hn⟩ := List.mem_flatMap.1 hn
      exact .inr (List.mem_flatMap.2 ⟨d, hd, ih d (mem_descendants_of_mem_holes hd) hn⟩)

/-! ### The nodes of a converted tree -/

/-- A block is converted alike as the block of a call and on its own account. -/
theorem convertBlock_eq_convert (cv : Converter) {b : ParseNode} (shape : b.shape = .block) :
    cv.convertBlock b = cv.convert b := by
  rw [convert_eq_map, layer, shape]
  rfl

theorem childNodes_convert (cv : Converter) {root : ParseNode} (hroot : root.Grammatical)
    {n : ParseNode} (hn : n ∈ root.nodes) :
    (cv.convert n).childNodes = (cv.layer (fun _ => none) n).holes.map cv.convert := by
  have hblock : (cv.layer (fun _ => none) n).map cv.convert cv.convertBlock =
      (cv.layer (fun _ => none) n).map cv.convert cv.convert := by
    have hform := cv.isLayer_layer (fun _ => none) n
    generalize cv.layer (fun _ => none) n = form at hform
    cases hform with
    | call shape hmethod =>
      simp only [callForm, Form.map, Call.map, Form.call.injEq, Call.mk.injEq, true_and]
      refine Option.map_congr fun b hb => cv.convertBlock_eq_convert ?_
      exact hroot.block n hn shape b hb
    | _ => rfl
  rw [convert_eq_map, hblock]
  have hmap : ((cv.layer (fun _ => none) n).map cv.convert cv.convert).holes.map (fun x => x) =
      (cv.layer (fun _ => none) n).holes.map cv.convert :=
    Form.map_holes_map _ (fun _ => rfl) fun _ => rfl
  rw [List.map_id'] at hmap
  exact hmap

/-- The nodes of a converted tree are the conversions of the nodes visited. -/
theorem nodes_convert (cv : Converter) {root : ParseNode} (hroot : root.Grammatical)
    {n : ParseNode} (hn : n ∈ root.nodes) :
    (cv.convert n).nodes = (cv.visited n).map cv.convert := by
  induction n using descendants_induction with
  | step n ih =>
    rw [SyntaxNode.nodes_eq, visited_eq, cv.childNodes_convert hroot hn, List.map_cons,
      List.map_flatMap, List.flatMap_map]
    congr 1
    refine List.flatMap_congr fun c hc => ?_
    have hbelow : c ∈ n.descendants := mem_descendants_of_mem_holes hc
    exact ih c hbelow (mem_nodes_trans hn (mem_nodes_of_mem_descendants hbelow))

end Converter

end RubyOutline
