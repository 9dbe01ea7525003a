/-
RubyOutline/Proofs/ParseNode/DistinctIds.lean

Ids that tell the nodes of a tree from one another.  Two nodes of such a tree with the same id are
one node, and every tree that a table writes is such a tree: its ids are the row numbers, and no
row hangs in two places.
-/
import Mathlib.Data.List.Perm.Subperm
import RubyOutline.ParseNode
import RubyOutline.Proofs.ParentTable

namespace RubyOutline.ParseNode

theorem DistinctIds.eq_of_id_eq {root a b : ParseNode} (h : root.DistinctIds)
    (ha : a ∈ root.nodes) (hb : b ∈ root.nodes) (hid : a.id = b.id) : a = b :=
  List.inj_on_of_nodup_map h ha hb hid

theorem nodesOf_eq_flatMap (ns : List ParseNode) : nodesOf ns = ns.flatMap nodes := by
  induction ns with
  | nil => rfl
  | cons n ns ih => rw [nodesOf, List.flatMap_cons, ih]

/-- What is below a child is below the node. -/
theorem nodes_sublist_descendants {n c : ParseNode} (hc : c ∈ n.children) :
    c.nodes.Sublist n.descendants := by
  rw [descendants, nodesOf_eq_flatMap]
  exact List.sublist_flatten_of_mem (List.mem_map_of_mem hc)

/-- What is selected from each of several trees is a selection from all of them. -/
theorem flatMap_subperm_flatMap_nodes {f : ParseNode → List ParseNode} {ns : List ParseNode}
    (h : ∀ n ∈ ns, (f n).Subperm n.nodes) : (ns.flatMap f).Subperm (ns.flatMap nodes) := by
  induction ns with
  | nil => exact .refl _
  | cons n ns ih =>
    obtain ⟨hn, hns⟩ := List.forall_mem_cons.1 h
    exact hn.append (ih hns)

/-- A selection from a tree with distinct ids has no id twice. -/
theorem DistinctIds.nodup_of_subperm {root : ParseNode} (h : root.DistinctIds)
    {ns : List ParseNode} (hns : ns.Subperm root.nodes) : (ns.map (·.id)).Nodup := by
  obtain ⟨chosen, hperm, hsub⟩ := hns
  exact (hperm.map _).nodup_iff.1 (h.sublist (hsub.map _))

/-- The trees of tables have distinct ids. -/
theorem distinctIds_of_ofTable {table : Array Row} {root : ParseNode}
    (h : ofTable table = some root) : root.DistinctIds := by
  let slot (row : Row) : Nat := row.parent.elim 0 (· + 1)
  let build (i : Nat) (row : Row) (children : List ParseNode) : ParseNode :=
    ⟨i, row.label, children⟩
  let ids (n : ParseNode) : List Nat := n.nodes.map (·.id)
  have hids : ∀ i row children, ids (build i row children) = i :: children.flatMap ids := by
    intro i row children
    simp only [ids, build, nodes, nodesOf_eq_flatMap, List.map_cons, List.map_flatMap]
  -- slot 0 holds the rows that hang under no other, the first of which is the root
  have hroots := (ParentTable.hungOnce_counted 1 slot build hids table.toList 0).nodup 0 (by omega)
  obtain ⟨roots, hslot, hroot⟩ := Option.bind_eq_some_iff.1 h
  have hread : roots = ParentTable.slotsAfter 1 slot build (fun _ => []) table.toList 0 0 := by
    rw [← ParentTable.getD_hang 1 slot build table (by omega), Array.getD_eq_getD_getElem?, hslot,
      Option.getD_some]
  obtain ⟨others, rfl⟩ := List.head?_eq_some_iff.1 hroot
  rw [ParentTable.counted, ← hread, List.flatMap_cons] at hroots
  exact (List.nodup_append'.1 hroots).1

end RubyOutline.ParseNode
