/-
RubyOutline/Proofs/ParseNode/Comments.lean

Parse trees with comments removed.  A grammar may put a comment under any node, so a removal takes
out whichever it likes of the comments that fill no field and have nothing below them, wherever they
stand, and gives the nodes that stay new ids (`CommentRemoval.apply`).  The nodes of the new tree
are those that stay (`descendants_apply`).  A search for a child that no comment answers to finds in
the new tree what it finds in the old one, and the statements stay the same as well, since a comment
is none (`statementsOf_applyTo`).
-/
import RubyOutline.ParseNode.Statements
import RubyOutline.Proofs.ParseNode.DistinctIds

namespace RubyOutline

namespace ParseNode

/-- A comment that fills no field and has nothing below it. -/
def isBareComment (n : ParseNode) : Bool :=
  n.kind == "comment" && n.label.field == none && n.children.isEmpty

theorem shape_of_isBareComment {n : ParseNode} (h : n.isBareComment) : n.shape = .skipped := by
  simp only [isBareComment, Bool.and_eq_true, beq_iff_eq] at h
  rw [shape, h.1.1]
  rfl

theorem descendants_of_isBareComment {n : ParseNode} (h : n.isBareComment) :
    n.descendants = [] := by
  simp only [isBareComment, Bool.and_eq_true, List.isEmpty_iff] at h
  rw [descendants, h.2]
  rfl

end ParseNode

open ParseNode

/-- Which comments to remove, told by their ids, and the new ids of the nodes that stay. -/
structure CommentRemoval where
  removes : Nat → Bool
  number : Nat → Nat

namespace CommentRemoval

variable (r : CommentRemoval)

/-- A node stays unless it is a comment to be removed. -/
def keeps (n : ParseNode) : Bool := !(n.isBareComment && r.removes n.id)

mutual

/-- A tree without the comments below its root that are to be removed. -/
def apply : ParseNode → ParseNode
  | ⟨i, label, children⟩ => ⟨r.number i, label, applyTo children⟩

/-- The trees of a list that stay, each without the comments that are to be removed. -/
def applyTo : List ParseNode → List ParseNode
  | [] => []
  | n :: ns => if r.keeps n then apply n :: applyTo ns else applyTo ns

end

theorem apply_eq (n : ParseNode) :
    r.apply n = ⟨r.number n.id, n.label, r.applyTo n.children⟩ := by
  cases n
  rw [apply]

theorem applyTo_eq_map (ns : List ParseNode) : r.applyTo ns = (ns.filter r.keeps).map r.apply := by
  induction ns with
  | nil => rfl
  | cons n ns ih =>
    rw [applyTo, List.filter_cons]
    split
    · rw [List.map_cons, ih]
    · exact ih

@[simp] theorem id_apply (n : ParseNode) : (r.apply n).id = r.number n.id := by rw [apply_eq]

@[simp] theorem label_apply (n : ParseNode) : (r.apply n).label = n.label := by rw [apply_eq]

@[simp] theorem kind_apply (n : ParseNode) : (r.apply n).kind = n.kind := by
  rw [kind, label_apply, kind]

@[simp] theorem span_apply (n : ParseNode) : (r.apply n).span = n.span := by
  rw [span, label_apply, span]

@[simp] theorem shape_apply (n : ParseNode) : (r.apply n).shape = n.shape := by
  rw [shape, kind_apply, shape]

theorem children_apply (n : ParseNode) :
    (r.apply n).children = (n.children.filter r.keeps).map r.apply := by
  rw [apply_eq, applyTo_eq_map]

theorem namedChildren_apply (n : ParseNode) :
    (r.apply n).namedChildren = (n.namedChildren.filter r.keeps).map r.apply := by
  simp only [namedChildren, children_apply, List.filter_map, Function.comp_def, label_apply,
    List.filter_filter, Bool.and_comm]

/-! ### What stays -/

variable {r}

theorem keeps_of_shape {n : ParseNode} (h : n.shape ≠ .skipped) : r.keeps n := by
  cases hcomment : n.isBareComment with
  | true => exact absurd (shape_of_isBareComment hcomment) h
  | false => simp [keeps, hcomment]

theorem keeps_of_kind {n : ParseNode} (h : n.kind ≠ "comment") : r.keeps n := by
  simp [keeps, isBareComment, h]

theorem keeps_of_field {n : ParseNode} {field : String} (h : n.label.field = some field) :
    r.keeps n := by
  simp [keeps, isBareComment, h]

theorem isBareComment_of_not_keeps {n : ParseNode} (h : ¬ r.keeps n) : n.isBareComment := by
  simp only [keeps, Bool.not_eq_true, Bool.not_eq_false', Bool.and_eq_true] at h
  exact h.1

/-! ### Nodes -/

mutual

theorem descendants_apply (r : CommentRemoval) : (n : ParseNode) →
    (r.apply n).descendants = (n.descendants.filter r.keeps).map r.apply
  | ⟨_, _, children⟩ => by
    rw [apply]
    exact nodesOf_applyTo r children

theorem nodesOf_applyTo (r : CommentRemoval) : (ns : List ParseNode) →
    nodesOf (r.applyTo ns) = ((nodesOf ns).filter r.keeps).map r.apply
  | [] => rfl
  | n :: ns => by
    rw [applyTo, nodesOf, List.filter_append, List.map_append, ← nodesOf_applyTo r ns, nodes_eq,
      List.filter_cons]
    split
    · rw [nodesOf, nodes_eq, descendants_apply r n, List.map_cons]
    · -- with a comment nothing else goes
      rename_i hkeeps
      rw [descendants_of_isBareComment (isBareComment_of_not_keeps hkeeps)]
      rfl

end

/-- The new ids of a tree tell apart the nodes below its root that stay. -/
def Faithful (r : CommentRemoval) (root : ParseNode) : Prop :=
  ∀ a ∈ root.descendants, ∀ b ∈ root.descendants, r.keeps a → r.keeps b →
    r.number a.id = r.number b.id → a = b

theorem faithful_of_distinctIds {root : ParseNode} (h : (r.apply root).DistinctIds) :
    r.Faithful root := by
  rw [DistinctIds, nodes_eq, List.map_cons, descendants_apply, List.map_map] at h
  intro a ha b hb hkeepsA hkeepsB hid
  refine List.inj_on_of_nodup_map h.of_cons (List.mem_filter.2 ⟨ha, hkeepsA⟩)
    (List.mem_filter.2 ⟨hb, hkeepsB⟩) ?_
  simpa using hid

/-! ### Children that are looked for -/

/-- A search that no comment answers to finds the same child as before. -/
theorem find?_children_apply (r : CommentRemoval) {p : ParseNode → Bool}
    (hp : ∀ c, p (r.apply c) = p c) (hkeeps : ∀ c, p c → r.keeps c) (n : ParseNode) :
    (r.apply n).children.find? p = (n.children.find? p).map r.apply := by
  rw [children_apply, List.find?_map, List.find?_filter]
  congr 2
  funext c
  rw [Function.comp_apply, hp, Bool.decide_and, Bool.decide_eq_true, Bool.decide_eq_true,
    Bool.and_eq_right_iff_imp]
  exact hkeeps c

theorem child?_apply (r : CommentRemoval) (n : ParseNode) (field : String) :
    (r.apply n).child? field = (n.child? field).map r.apply :=
  r.find?_children_apply (fun c => by rw [label_apply])
    (fun c hc => keeps_of_field (beq_iff_eq.1 hc)) n

theorem childOfKind?_apply (r : CommentRemoval) (n : ParseNode) {kind : String}
    (hkind : kind ≠ "comment") :
    (r.apply n).childOfKind? kind = (n.childOfKind? kind).map r.apply :=
  r.find?_children_apply (fun c => by rw [kind_apply])
    (fun c hc => keeps_of_kind (by rw [beq_iff_eq.1 hc]; exact hkind)) n

/-- What a search has found is a child that stays. -/
def Stays (r : CommentRemoval) (n : ParseNode) (found : Option ParseNode) : Prop :=
  ∀ c ∈ found, c ∈ n.children ∧ r.keeps c

variable {n : ParseNode}

theorem stays_child? (field : String) : r.Stays n (n.child? field) := by
  intro c hc
  have hfield := List.find?_some hc
  exact ⟨mem_of_child? hc, keeps_of_field (beq_iff_eq.1 hfield)⟩

theorem stays_childOfKind? {kind : String} (hkind : kind ≠ "comment") :
    r.Stays n (n.childOfKind? kind) := by
  intro c hc
  have hfound := List.find?_some hc
  exact ⟨List.mem_of_find?_eq_some hc, keeps_of_kind (by rw [beq_iff_eq.1 hfound]; exact hkind)⟩

theorem stays_orElse {found found' : Option ParseNode} (h : r.Stays n found)
    (h' : r.Stays n found') : r.Stays n (found <|> found') := by
  cases found with
  | none => exact h'
  | some c => exact h

theorem map_orElse (r : CommentRemoval) (found found' : Option ParseNode) :
    (found.map r.apply <|> found'.map r.apply) = (found <|> found').map r.apply := by
  cases found <;> rfl

/-- Of the named children, those that are told from comments stay. -/
theorem filter_namedChildren_apply (r : CommentRemoval) {p : ParseNode → Bool}
    (hp : ∀ c, p (r.apply c) = p c) (hkeeps : ∀ c, p c → r.keeps c) (n : ParseNode) :
    (r.apply n).namedChildren.filter p = (n.namedChildren.filter p).map r.apply := by
  rw [namedChildren_apply, List.filter_map, List.filter_filter]
  congr 2
  funext c
  rw [Function.comp_apply, hp, Bool.and_eq_left_iff_imp]
  exact hkeeps c

theorem any_namedChildren_apply (r : CommentRemoval) {p : ParseNode → Bool}
    (hp : ∀ c, p (r.apply c) = p c) (hkeeps : ∀ c, p c → r.keeps c) (n : ParseNode) :
    (r.apply n).namedChildren.any p = n.namedChildren.any p := by
  rw [namedChildren_apply, List.any_map, List.any_filter]
  congr 1
  funext c
  rw [Function.comp_apply, hp, Bool.and_eq_right_iff_imp]
  exact hkeeps c

/-! ### Statements -/

mutual

theorem statements_apply (r : CommentRemoval) : (n : ParseNode) →
    (r.apply n).statements = n.statements.map r.apply
  | ⟨_, label, children⟩ => by
    rw [apply, statements, statements]
    split
    · rfl
    · exact statementsOf_applyTo r children
    · rw [List.map_singleton, apply]

theorem statementsOf_applyTo (r : CommentRemoval) : (ns : List ParseNode) →
    statementsOf (r.applyTo ns) = (statementsOf ns).map r.apply
  | [] => rfl
  | n :: ns => by
    rw [applyTo, statementsOf]
    split
    · rw [statementsOf, label_apply, statements_apply r n, statementsOf_applyTo r ns]
      split
      · rw [List.map_append]
      · rfl
    · -- what goes is a comment, which is no statement
      rename_i hkeeps
      have hshape := shape_of_isBareComment (isBareComment_of_not_keeps hkeeps)
      rw [statements_eq, hshape, statementsOf_applyTo r ns]
      split <;> rfl

end

/-- The statements of the named children that are none of those found. -/
theorem statementsExcept_apply {root : ParseNode} (hfaithful : r.Faithful root)
    (hn : n ∈ root.nodes) (except : List (Option ParseNode))
    (hexcept : ∀ found ∈ except, r.Stays n found) :
    (r.apply n).statementsExcept (except.map (·.map r.apply)) =
      (n.statementsExcept except).map r.apply := by
  -- two children that stay are the same if and only if their new ids are
  have hsame : ∀ c ∈ n.children, r.keeps c → ∀ s ∈ except,
      (s.map r.apply).any (·.id == r.number c.id) = s.any (·.id == c.id) := by
    intro c hc hkeeps s hs
    rw [Option.any_map]
    cases s with
    | none => rfl
    | some e =>
      obtain ⟨he, hkeepsE⟩ := hexcept _ hs e rfl
      have hinj : r.number e.id = r.number c.id ↔ e.id = c.id := by
        refine ⟨fun h => ?_, congrArg r.number⟩
        rw [hfaithful e (mem_descendants_of_mem_children hn he) c
          (mem_descendants_of_mem_children hn hc) hkeepsE hkeeps h]
      simp [hinj, Bool.beq_eq_decide_eq]
  rw [statementsExcept, statementsExcept, ← statementsOf_applyTo, applyTo_eq_map, children_apply,
    List.filter_map, List.filter_filter, List.filter_filter]
  congr 2
  refine List.filter_congr fun c hc => ?_
  cases hkeeps : r.keeps c with
  | false => rw [Bool.and_false, Bool.false_and]
  | true =>
    rw [Bool.and_true, Bool.true_and, Function.comp_apply, id_apply, List.any_map]
    congr 1
    rw [Bool.eq_iff_iff, List.any_eq_true, List.any_eq_true]
    refine exists_congr fun s => and_congr_right fun hs => ?_
    rw [Function.comp_apply, hsame c hc hkeeps s hs]

end CommentRemoval

end RubyOutline
