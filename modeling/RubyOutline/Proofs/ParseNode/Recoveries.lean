/-
RubyOutline/Proofs/ParseNode/Recoveries.lean

The reported errors of a parse tree.  What is to be reported can be said without any walk: every
recovery that stands below no other, in pre-order (`ParseNode.topmostRecoveries`).  The walk that
enters every child, and stops at a recovery, finds just these (`unprunedFrom_eq_topmost`).

The walk that runs enters marked children only.  It finds the same as long as an unmarked subtree
holds no recovery, which is what consistent marks come down to
(`ParseNode.MarksConsistent.not_isRecovery`).  The proof goes through the pending nodes, of which
nothing has to be known but that they belong to the tree.
-/
import Mathlib.Data.List.Basic
import RubyOutline.Outliner

namespace RubyOutline

namespace ParseNode

/-! ### Nodes with the nodes above them -/

mutual

/-- A node and all those below it in pre-order, each with the nodes above it, the innermost
first. -/
def nodesUnder : List ParseNode → ParseNode → List (List ParseNode × ParseNode)
  | above, ⟨id, label, children⟩ =>
    (above, ⟨id, label, children⟩) :: nodesOfUnder (⟨id, label, children⟩ :: above) children

def nodesOfUnder : List ParseNode → List ParseNode → List (List ParseNode × ParseNode)
  | _, [] => []
  | above, n :: ns => nodesUnder above n ++ nodesOfUnder above ns

end

theorem nodesOfUnder_eq_flatMap (above ns : List ParseNode) :
    nodesOfUnder above ns = ns.flatMap (nodesUnder above) := by
  induction ns with
  | nil => rfl
  | cons n ns ih => rw [nodesOfUnder, List.flatMap_cons, ih]

theorem nodesUnder_eq (above : List ParseNode) (n : ParseNode) :
    nodesUnder above n = (above, n) :: n.children.flatMap (nodesUnder (n :: above)) := by
  cases n
  rw [nodesUnder, nodesOfUnder_eq_flatMap]

/-! ### Recoveries -/

/-- The grammar could not read the source here, or supplied a token of its own. -/
def IsRecovery (n : ParseNode) : Prop := n.kind = "ERROR" ∨ n.label.missing = true

instance (n : ParseNode) : Decidable n.IsRecovery := inferInstanceAs (Decidable (_ ∨ _))

/-- A recovery stands below no other one. -/
def IsTopmost (p : List ParseNode × ParseNode) : Prop :=
  p.2.IsRecovery ∧ ∀ a ∈ p.1, ¬ a.IsRecovery

instance (p : List ParseNode × ParseNode) : Decidable (IsTopmost p) :=
  inferInstanceAs (Decidable (_ ∧ _))

/-- The recoveries of a tree that stand below no other one, in pre-order. -/
def topmostRecoveries (root : ParseNode) : List ParseNode :=
  ((nodesUnder [] root).filter (IsTopmost ·)).map (·.2)

/-- What is reported of a recovery, with its line and its column counted from one. -/
def recoveryReport (uri : String) (n : ParseNode) : String :=
  let line := n.span.start.row + 1
  let column := n.span.start.column + 1
  if n.kind = "ERROR" then
    s!"Parse error in {uri}:{line}:{column} (len={(n.span.stopByte : Int) - n.span.startByte})"
  else s!"Missing '{n.kind}' in {uri}:{line}:{column}"

/-- The marks of a tree are consistent: the nodes above a recovery are marked, an error and the
root of a tree with a recovery are marked themselves, and nothing else is marked but what the
grammar supplied. -/
structure MarksConsistent (root : ParseNode) : Prop where
  marked : ∀ n ∈ root.nodes, (n.kind = "ERROR" ∨ ∃ m ∈ n.descendants, m.IsRecovery) →
    n.label.hasError = true
  unmarked : ∀ n ∈ root.nodes, n.label.hasError = true →
    n.kind = "ERROR" ∨ (∃ m ∈ n.descendants, m.IsRecovery) ∨ n.label.missing = true
  root : (∃ n ∈ root.nodes, n.IsRecovery) → root.label.hasError = true

/-- A node without any mark has no recovery below it and is none itself. -/
theorem MarksConsistent.not_isRecovery {root n : ParseNode} (h : root.MarksConsistent)
    (hn : n ∈ root.nodes) (herror : n.label.hasError = false) (hmissing : n.label.missing = false) :
    ∀ m ∈ n.nodes, ¬ m.IsRecovery := by
  intro m hm hrecovery
  have hfree : ¬ (n.kind = "ERROR" ∨ ∃ m ∈ n.descendants, m.IsRecovery) := by
    intro hmarked
    exact absurd (h.marked n hn hmarked) (by rw [herror]; decide)
  obtain ⟨hkind, hbelow⟩ := not_or.1 hfree
  rw [nodes_eq, List.mem_cons] at hm
  rcases hm with rfl | hm
  · rcases hrecovery with hkind' | hmissing'
    · exact hkind hkind'
    · exact absurd hmissing' (by rw [hmissing]; decide)
  · exact hbelow ⟨m, hm, hrecovery⟩

/-! ### The walk without pruning -/

/-- The recoveries that a walk comes to which enters every child, but goes no further below a
recovery. -/
def unprunedFrom : List ParseNode → List ParseNode
  | [] => []
  | n :: pending =>
    if n.IsRecovery then n :: unprunedFrom pending else unprunedFrom (n.children ++ pending)
termination_by pending => sizeOf pending
decreasing_by
  · simp only [List.cons.sizeOf_spec]
    omega
  · exact sizeOf_append_lt n.sizeOf_children_lt

theorem unprunedFrom_append (ns ms : List ParseNode) :
    unprunedFrom (ns ++ ms) = unprunedFrom ns ++ unprunedFrom ms := by
  fun_induction unprunedFrom ns with
  | case1 => rfl
  | case2 n pending hn ih => rw [List.cons_append, unprunedFrom, if_pos hn, ih, List.cons_append]
  | case3 n pending hn ih =>
    rw [List.cons_append, unprunedFrom, if_neg hn, ← List.append_assoc, ih]

theorem unprunedFrom_cons (n : ParseNode) (pending : List ParseNode) :
    unprunedFrom (n :: pending) = unprunedFrom [n] ++ unprunedFrom pending :=
  unprunedFrom_append [n] pending

theorem unprunedFrom_eq_flatMap (ns : List ParseNode) :
    unprunedFrom ns = ns.flatMap fun n => unprunedFrom [n] := by
  induction ns with
  | nil => rw [unprunedFrom, List.flatMap_nil]
  | cons n ns ih => rw [unprunedFrom_cons, List.flatMap_cons, ih]

/-- The walk finds nothing only where there is nothing. -/
theorem unprunedFrom_eq_nil_iff (ns : List ParseNode) :
    unprunedFrom ns = [] ↔ ∀ n ∈ ns, ∀ m ∈ n.nodes, ¬ m.IsRecovery := by
  fun_induction unprunedFrom ns with
  | case1 => simp
  | case2 n pending hn ih =>
    refine iff_of_false (List.cons_ne_nil _ _) fun h => ?_
    exact h n List.mem_cons_self n n.mem_nodes_self hn
  | case3 n pending hn ih =>
    rw [ih, List.forall_mem_append, List.forall_mem_cons]
    refine and_congr_left fun _ => ?_
    -- the node is none itself, so all of them stand below its children
    rw [nodes_eq, List.forall_mem_cons]
    constructor
    · intro h
      refine ⟨hn, fun m hm => ?_⟩
      obtain ⟨c, hc, hm⟩ := mem_nodesOf.1 hm
      exact h c hc m hm
    · rintro ⟨-, h⟩ c hc m hm
      exact h m (mem_descendants_of_mem hc hm)

/-- Subtrees without recoveries can be left out. -/
theorem unprunedFrom_filter {p : ParseNode → Bool} {ns : List ParseNode}
    (h : ∀ n ∈ ns, p n = false → ∀ m ∈ n.nodes, ¬ m.IsRecovery) :
    unprunedFrom (ns.filter p) = unprunedFrom ns := by
  induction ns with
  | nil => rfl
  | cons n ns ih =>
    obtain ⟨hn, hns⟩ := List.forall_mem_cons.1 h
    rw [unprunedFrom_cons n ns, ← ih hns]
    cases hp : p n with
    | true => rw [List.filter_cons_of_pos hp, unprunedFrom_cons]
    | false =>
      have hnone : unprunedFrom [n] = [] :=
        (unprunedFrom_eq_nil_iff [n]).2 (List.forall_mem_singleton.2 (hn hp))
      rw [List.filter_cons_of_neg (by rw [hp]; decide), hnone, List.nil_append]

/-- What stands below a recovery is not topmost. -/
theorem filter_nodesUnder_of_hidden {above : List ParseNode} (h : ∃ a ∈ above, a.IsRecovery)
    (n : ParseNode) : (nodesUnder above n).filter (IsTopmost ·) = [] := by
  induction n using descendants_induction generalizing above with
  | step n ih =>
    obtain ⟨a, ha, hrecovery⟩ := h
    have hhead : ¬ IsTopmost (above, n) := fun htop => htop.2 a ha hrecovery
    rw [nodesUnder_eq, List.filter_cons_of_neg (by simpa using hhead), List.filter_flatMap,
      List.flatMap_eq_nil_iff]
    intro c hc
    exact ih c (mem_descendants_of_mem hc c.mem_nodes_self)
      ⟨a, List.mem_cons_of_mem n ha, hrecovery⟩

/-- Where nothing above is a recovery, the topmost ones are those that the walk finds. -/
theorem map_filter_nodesUnder {above : List ParseNode} (h : ∀ a ∈ above, ¬ a.IsRecovery)
    (n : ParseNode) : ((nodesUnder above n).filter (IsTopmost ·)).map (·.2) = unprunedFrom [n] := by
  induction n using descendants_induction generalizing above with
  | step n ih =>
    rw [nodesUnder_eq, unprunedFrom, List.append_nil]
    by_cases hn : n.IsRecovery
    · have hbelow : (n.children.flatMap (nodesUnder (n :: above))).filter (IsTopmost ·) = [] := by
        rw [List.filter_flatMap, List.flatMap_eq_nil_iff]
        intro c _
        exact filter_nodesUnder_of_hidden ⟨n, List.mem_cons_self, hn⟩ c
      have hhead : IsTopmost (above, n) := ⟨hn, h⟩
      rw [if_pos hn, List.filter_cons_of_pos (by simpa using hhead), hbelow, unprunedFrom]
      rfl
    · have hhead : ¬ IsTopmost (above, n) := fun htop => hn htop.1
      rw [if_neg hn, List.filter_cons_of_neg (by simpa using hhead), List.filter_flatMap,
        List.map_flatMap, unprunedFrom_eq_flatMap n.children]
      refine List.flatMap_congr fun c hc => ?_
      exact ih c (mem_descendants_of_mem hc c.mem_nodes_self) (List.forall_mem_cons.2 ⟨hn, h⟩)

theorem unprunedFrom_eq_topmost (root : ParseNode) :
    unprunedFrom [root] = root.topmostRecoveries :=
  (map_filter_nodesUnder (List.forall_mem_nil _) root).symm

/-! ### The pruned walk -/

theorem message_of_recovery? {n : ParseNode} {r : Recovery} (h : n.recovery? = some r)
    (uri : String) : n.IsRecovery ∧ r.message uri = n.recoveryReport uri := by
  unfold recovery? at h
  unfold IsRecovery recoveryReport
  split at h
  · rename_i hkind
    cases h
    refine ⟨.inl hkind, ?_⟩
    rw [if_pos hkind]
    rfl
  · rename_i hkind
    split at h
    · rename_i hmissing
      cases h
      refine ⟨.inr hmissing, ?_⟩
      rw [if_neg hkind]
      rfl
    · cases h

theorem not_isRecovery_of_recovery? {n : ParseNode} (h : n.recovery? = none) :
    ¬ n.IsRecovery := by
  unfold recovery? at h
  split at h
  · cases h
  · rename_i hkind
    split at h
    · cases h
    · rename_i hmissing
      exact not_or.2 ⟨hkind, hmissing⟩

/-- **The pruned walk misses nothing.**  If the marks are consistent, it finds in any pending nodes
of the tree what the walk without pruning finds. -/
theorem recoveriesFrom_eq {root : ParseNode} (h : root.MarksConsistent) (uri : String)
    (pending : List ParseNode) (hpending : ∀ n ∈ pending, n ∈ root.nodes) :
    (recoveriesFrom pending).map (·.message uri) =
      (unprunedFrom pending).map (·.recoveryReport uri) := by
  fun_induction recoveriesFrom pending with
  | case1 => rw [unprunedFrom]; rfl
  | case2 n pending r hr ih =>
    obtain ⟨hn, hmessage⟩ := message_of_recovery? hr uri
    have hrest := ih fun m hm => hpending m (List.mem_cons_of_mem n hm)
    rw [unprunedFrom, if_pos hn, List.map_cons, List.map_cons, hmessage, hrest]
  | case3 n pending hr ih =>
    obtain ⟨hn, hrest⟩ := List.forall_mem_cons.1 hpending
    have hchild : ∀ c ∈ n.children, c ∈ root.nodes := fun c hc => mem_nodes_of_mem_children hn hc
    -- the children left out carry no mark
    have hmarked : unprunedFrom n.markedChildren = unprunedFrom n.children := by
      refine unprunedFrom_filter fun c hc hmark => ?_
      obtain ⟨herror, hmissing⟩ := Bool.or_eq_false_iff.1 hmark
      exact h.not_isRecovery (hchild c hc) herror hmissing
    have hpending' : ∀ m ∈ n.markedChildren ++ pending, m ∈ root.nodes := by
      intro m hm
      rcases List.mem_append.1 hm with hm | hm
      · exact hchild m (List.mem_filter.1 hm).1
      · exact hrest m hm
    rw [ih hpending', unprunedFrom, if_neg (not_isRecovery_of_recovery? hr), unprunedFrom_append,
      unprunedFrom_append, hmarked]

/-- A tree with consistent marks is walked through whenever there is something to be found. -/
theorem recoveries_eq {root : ParseNode} (h : root.MarksConsistent) (uri : String) :
    root.recoveries.map (·.message uri) =
      (unprunedFrom [root]).map (·.recoveryReport uri) := by
  unfold recoveries
  split
  · exact recoveriesFrom_eq h uri [root] (List.forall_mem_singleton.2 root.mem_nodes_self)
  · rename_i hmark
    have hnone : unprunedFrom [root] = [] := by
      rw [unprunedFrom_eq_nil_iff, List.forall_mem_singleton]
      intro m hm hrecovery
      exact hmark (h.root ⟨m, hm, hrecovery⟩)
    rw [hnone]
    rfl

theorem MarksConsistent.hasError_iff {root : ParseNode} (h : root.MarksConsistent) :
    root.label.hasError = true ↔ ∃ n ∈ root.nodes, n.IsRecovery := by
  refine ⟨fun hmark => ?_, h.root⟩
  rcases h.unmarked root root.mem_nodes_self hmark with hkind | ⟨m, hm, hrecovery⟩ | hmissing
  · exact ⟨root, root.mem_nodes_self, .inl hkind⟩
  · exact ⟨m, mem_nodes_of_mem_descendants hm, hrecovery⟩
  · exact ⟨root, root.mem_nodes_self, .inr hmissing⟩

end ParseNode

/-! ### Reported errors -/

open ParseNode

/-- **All topmost recoveries are reported, and nothing else.**  For every tree with consistent marks
the reported errors are those of the recoveries that stand below no other, in pre-order and at their
places, as a walk without pruning finds them; and there are errors exactly if the tree has a
recovery, which is also when the grammar marks it. -/
theorem parseErrors_outline (o : Outliner) (d : Document) {root : ParseNode}
    (h : root.MarksConsistent) :
    let outline := o.outline d root
    outline.parseErrors = root.topmostRecoveries.map (·.recoveryReport d.uri) ∧
    outline.parseErrors = (unprunedFrom [root]).map (·.recoveryReport d.uri) ∧
    (outline.hasErrors = true ↔ ∃ n ∈ root.nodes, n.IsRecovery) ∧
    (outline.damaged = true ↔ ∃ n ∈ root.nodes, n.IsRecovery) := by
  intro outline
  have herrors : outline.parseErrors = (unprunedFrom [root]).map (·.recoveryReport d.uri) :=
    recoveries_eq h d.uri
  refine ⟨?_, herrors, ?_, h.hasError_iff⟩
  · rw [herrors, unprunedFrom_eq_topmost]
  · have hnil : outline.parseErrors = [] ↔ ∀ n ∈ root.nodes, ¬ n.IsRecovery := by
      rw [herrors, List.map_eq_nil_iff, unprunedFrom_eq_nil_iff, List.forall_mem_singleton]
    rw [DocumentOutline.hasErrors, Bool.not_eq_true', List.isEmpty_eq_false_iff, Ne, hnil]
    simp only [not_forall, not_not, exists_prop]

/-- The tree of `) (` and a class without its `end`: an error, with a token supplied below it, and
after it the `end` that the grammar supplied to the class. -/
def errorBeforeOpenClass : ParseNode :=
  let line (row start stop : Nat) : Span := ⟨start, ⟨row, start⟩, stop, ⟨row, stop⟩⟩
  ⟨0, ⟨"program", line 0 0 11, true, true, false, none⟩,
    [⟨1, ⟨"ERROR", line 0 0 3, true, true, false, none⟩,
      [⟨2, ⟨"(", line 0 2 3, false, false, false, none⟩, []⟩,
        ⟨3, ⟨"identifier", line 0 3 3, true, false, true, none⟩, []⟩]⟩,
      ⟨4, ⟨"class", line 1 0 7, true, true, false, none⟩,
        [⟨5, ⟨"constant", line 1 6 7, true, false, false, some "name"⟩, []⟩,
          ⟨6, ⟨"end", line 1 7 7, false, false, true, none⟩, []⟩]⟩]⟩

theorem parseErrors_outline_errorBeforeOpenClass :
    let outline := (⟨.utf16, .rails⟩ : Outliner).outline
      ⟨"file:///a.rb", .ofString ") (\nclass A", 1⟩ errorBeforeOpenClass
    errorBeforeOpenClass.MarksConsistent ∧
    outline.parseErrors =
      ["Parse error in file:///a.rb:1:1 (len=3)", "Missing 'end' in file:///a.rb:2:8"] ∧
    outline.hasErrors = true := by
  intro outline
  have hmarks : errorBeforeOpenClass.MarksConsistent := ⟨by decide, by decide, by decide⟩
  obtain ⟨htopmost, -, herrors, -⟩ := parseErrors_outline ⟨.utf16, .rails⟩
    ⟨"file:///a.rb", .ofString ") (\nclass A", 1⟩ hmarks
  exact ⟨hmarks, htopmost.trans (by decide), herrors.2 (by decide)⟩

end RubyOutline
