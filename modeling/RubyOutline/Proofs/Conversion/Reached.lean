/-
RubyOutline/Proofs/Conversion/Reached.lean

A conversion neither loses nor duplicates declarations.  The declarations that the conversion visits
are those that a way down the parse tree reaches without passing through anything shut, and each is
visited once (`Converter.declarations_convertTree`).

A way also passes nodes that the conversion does not visit, because something else stands for them:
wrappers of statements, the arguments of a call and the pairs among them, the block of a lambda
(`Converter.Stands`).  None of them declares anything.  One step of a way leads from a node that
stands to a node that stands (`Converter.Stands.down`), and so a whole way does.  The other way
round, whatever a layer takes into its holes is reached from the node by a few steps
(`Converter.exists_way_of_mem_holes`).

The invariant of both directions says of a node that is visited that it is no argument itself
(`ParseNode.Free`).
-/
import RubyOutline.Proofs.Conversion.Evaluation
import RubyOutline.Proofs.Conversion.Visited

namespace RubyOutline

namespace Converter

open ParseNode

variable {cv : Converter} {root : ParseNode}

/-! ### What is visited is reached -/

theorem statementsExcept_heads_of_block {b : ParseNode} (shape : b.shape = .block) :
    b.statementsExcept b.heads = blockBody b := by
  rw [heads, shape, blockBody]

theorem shape_of_isPair {p : ParseNode} (h : isPair p) : p.shape = .plain := by
  rw [shape, beq_iff_eq.1 h]
  rfl

theorem mem_argumentNodes {n a : ParseNode} :
    a ∈ argumentNodes n ↔
      ∃ list, n.child? "arguments" = some list ∧ a ∈ list.namedChildren ∧ a.shape ≠ .skipped := by
  rw [argumentNodes]
  cases n.child? "arguments" with
  | none => simp
  | some list => simp

theorem mem_keywordValue {p v : ParseNode} :
    v ∈ cv.keywordValue p ↔ p.child? "key" ≠ none ∧ p.child? "value" = some v := by
  rw [keywordValue, keyword]
  cases p.child? "key" with
  | none => simp
  | some key => cases p.child? "value" <;> simp [eq_comm]

/-- A call holds its receiver, its arguments but the pairs, the values of these, and its block. -/
theorem mem_holes_callForm {n method c : ParseNode} :
    c ∈ (cv.callForm n method).holes ↔
      n.child? "receiver" = some c ∨ (c ∈ argumentNodes n ∧ ¬ isPair c) ∨
      (∃ p ∈ argumentNodes n, isPair p ∧ p.child? "key" ≠ none ∧ p.child? "value" = some c) ∨
      n.child? "block" = some c := by
  rw [holes_callForm]
  simp only [List.mem_append, Option.mem_toList, List.mem_filter, List.mem_flatMap,
    mem_keywordValue, Bool.not_eq_true', Bool.not_eq_true, and_assoc, or_assoc]

/-- From a call a way leads through its arguments, which are no call, to each of them. -/
theorem exists_way_of_mem_argumentNodes (hroot : root.Grammatical) {n a : ParseNode}
    {above : List ParseNode} (hway : Way Shut root above n) (hfree : Free above n)
    (shape : n.shape = .call) (ha : a ∈ argumentNodes n) :
    ∃ list, ¬ list.CallsMethod ∧ Way Shut root (list :: n :: above) a := by
  obtain ⟨list, hlist, hnamed, hcomment⟩ := mem_argumentNodes.1 ha
  have hplain : list.shape = .plain := hroot.shape_arguments hway.mem_nodes shape hlist
  have hdown : Way Shut root (n :: above) list :=
    .down hway (hroot.mem_namedChildren hway.mem_nodes hlist (by simp)).1
      (not_shut_of_call shape hfree.2 (by simp [hplain]) (.inr (.inl hlist)))
  refine ⟨list, not_callsMethod_of_plain hplain, .down hdown hnamed ?_⟩
  exact not_shut_of_spliced (spliced_of_shape (by simp [hplain]))
    (fun h => absurd h.1 hfree.1) hcomment (by simp [heads_of_shape, hplain])

/-- From a call a way leads to whatever the call holds. -/
theorem exists_way_of_mem_callForm (hroot : root.Grammatical) {n method c : ParseNode}
    {above : List ParseNode} (hway : Way Shut root above n) (hfree : Free above n)
    (shape : n.shape = .call) (hc : c ∈ (cv.callForm n method).holes) :
    ∃ above, Way Shut root above c ∧ Free above c := by
  have hn : n ∈ root.nodes := hway.mem_nodes
  rcases mem_holes_callForm.1 hc with hc | ⟨ha, hpair⟩ | ⟨p, ha, hpair, hkey, hvalue⟩ | hc
  · obtain ⟨hnamed, hcomment⟩ := hroot.mem_namedChildren hn hc (by simp)
    exact ⟨_, .down hway hnamed (not_shut_of_call shape hfree.2 hcomment (.inl hc)),
      .part hfree.1 hc (by decide)⟩
  · obtain ⟨list, hcalls, hway⟩ := exists_way_of_mem_argumentNodes hroot hway hfree shape ha
    exact ⟨_, hway, fun h => hcalls h.1, fun h => hpair h.2⟩
  · -- the value of a pair, one step further down
    obtain ⟨list, hcalls, hway⟩ := exists_way_of_mem_argumentNodes hroot hway hfree shape ha
    have hplain : p.shape = .plain := shape_of_isPair hpair
    obtain ⟨hnamed, hcomment⟩ := hroot.mem_namedChildren hway.mem_nodes hvalue (by simp)
    refine ⟨_, .down hway hnamed ?_,
      .below (fun h => hcalls h.1) (not_callsMethod_of_plain hplain)⟩
    exact not_shut_of_spliced (spliced_of_shape (by simp [hplain])) (fun _ => ⟨hkey, hvalue⟩)
      hcomment (by simp [heads_of_shape, hplain])
  · obtain ⟨hnamed, hcomment⟩ := hroot.mem_namedChildren hn hc (by simp)
    exact ⟨_, .down hway hnamed (not_shut_of_call shape hfree.2 hcomment (.inr (.inr hc))),
      .part hfree.1 hc (by decide)⟩

/-- From a node a way leads to whatever its layer takes into the holes. -/
theorem exists_way_of_mem_holes (hroot : root.Grammatical) {n c : ParseNode}
    {above : List ParseNode} (hway : Way Shut root above n) (hfree : Free above n)
    (hc : c ∈ (cv.layer (fun _ => none) n).holes) :
    ∃ above, Way Shut root above c ∧ Free above c := by
  have hholes := cv.holesAre_layer n
  generalize (cv.layer (fun _ => none) n).holes = holes at hc hholes
  cases hholes with
  | literal => cases hc
  | call shape => exact exists_way_of_mem_callForm hroot hway hfree shape hc
  | lambda shape =>
    cases hb : n.child? "body" with
    | none => simp [hb] at hc
    | some b =>
      rw [hb, Option.map_some, Option.getD_some] at hc
      have hblock : b.shape = .block := hroot.body n hway.mem_nodes shape b hb
      obtain ⟨hnamed, hcomment⟩ := hroot.mem_namedChildren hway.mem_nodes hb (by simp)
      refine exists_way_of_mem_statementsExcept
        (.down hway hnamed (not_shut_of_lambda shape hfree.2 hcomment hb))
        (.part hfree.1 hb (by decide)) (spliced_of_shape (by simp [hblock])) ?_
      rwa [statementsExcept_heads_of_block hblock]
  | spliced hspliced => exact exists_way_of_mem_statementsExcept hway hfree hspliced hc

/-- What is visited from a node on is reached if the node is. -/
theorem exists_way_of_mem_visited (hroot : root.Grammatical) {n m : ParseNode}
    {above : List ParseNode} (hway : Way Shut root above n) (hfree : Free above n)
    (hm : m ∈ cv.visited n) : ∃ above, Way Shut root above m ∧ Free above m := by
  induction n using descendants_induction generalizing above with
  | step n ih =>
    rw [visited_eq, List.mem_cons] at hm
    rcases hm with rfl | hm
    · exact ⟨above, hway, hfree⟩
    · obtain ⟨c, hc, hm⟩ := List.mem_flatMap.1 hm
      obtain ⟨above', hway', hfree'⟩ := exists_way_of_mem_holes hroot hway hfree hc
      exact ih c (mem_descendants_of_mem_holes hc) hway' hfree' hm

/-! ### What is reached is visited, or stands for what is -/

theorem mem_children_of_orElse {n a : ParseNode} {field kind : String}
    (h : (n.child? field <|> n.childOfKind? kind) = some a) : a ∈ n.children := by
  cases hfield : n.child? field with
  | none =>
    rw [hfield] at h
    exact List.mem_of_find?_eq_some h
  | some b =>
    rw [hfield] at h
    obtain rfl := Option.some.inj h
    exact mem_of_child? hfield

theorem mem_children_of_mem_heads {n a : ParseNode} (h : some a ∈ n.heads) : a ∈ n.children := by
  rw [heads] at h
  split at h <;> simp only [List.mem_cons, List.not_mem_nil, or_false] at h
  · exact h.elim (fun h => mem_of_child? h.symm) fun h => mem_children_of_orElse h.symm
  · exact mem_of_child? h.symm
  · exact h.elim (fun h => mem_of_child? h.symm) fun h => mem_of_child? h.symm
  · rcases h with h | h | h <;> exact mem_of_child? h.symm
  · exact mem_children_of_orElse h.symm

/-- The statements of a child that is not left out are statements of the node. -/
theorem mem_statementsExcept_of_open (hids : root.DistinctIds) {p c m : ParseNode}
    (hp : p ∈ root.nodes) {except : List (Option ParseNode)}
    (hexcept : ∀ a, some a ∈ except → a ∈ p.children) (hc : c ∈ p.namedChildren)
    (hopen : some c ∉ except) (hm : m ∈ c.statements) : m ∈ p.statementsExcept except := by
  have hroot : ∀ a ∈ p.children, a ∈ root.nodes := fun a ha => mem_nodes_of_mem_children hp ha
  refine mem_statementsExcept.2 ⟨c, hc, ?_, hm⟩
  rintro s hs a rfl hid
  have hsame : a = c := hids.eq_of_id_eq (hroot a (hexcept a hs))
    (hroot c (mem_of_mem_namedChildren hc)) hid
  exact hopen (hsame ▸ hs)

theorem layer_of_callsMethod (cv : Converter) {n : ParseNode} (h : n.CallsMethod) :
    ∃ method, cv.layer (fun _ => none) n = cv.callForm n method := by
  obtain ⟨shape, hmethod⟩ := h
  obtain ⟨method, hmethod⟩ := Option.ne_none_iff_exists'.1 hmethod
  refine ⟨method, ?_⟩
  rw [layer, shape]
  simp only [callLayer, hmethod, Option.map_some, Option.getD_some]

/-- What a visited call holds is visited. -/
theorem mem_visited_of_call {n c : ParseNode} (hn : n ∈ cv.visited root) (hcalls : n.CallsMethod)
    (hc : n.child? "receiver" = some c ∨ (c ∈ argumentNodes n ∧ ¬ isPair c) ∨
      (∃ p ∈ argumentNodes n, isPair p ∧ p.child? "key" ≠ none ∧ p.child? "value" = some c) ∨
      n.child? "block" = some c) :
    c ∈ cv.visited root := by
  obtain ⟨method, hlayer⟩ := cv.layer_of_callsMethod hcalls
  refine mem_visited_of_mem_holes hn ?_
  rw [hlayer]
  exact mem_holes_callForm.2 hc

/-- Where a way can stand: at a node that is visited, at one that declares nothing and whose
statements are all visited, or at the arguments of a call that is visited and at the pairs among
them. -/
inductive Stands (cv : Converter) (root : ParseNode) : List ParseNode → ParseNode → Prop
  | visited {above : List ParseNode} {n : ParseNode} (hfree : Free above n)
      (hn : n ∈ cv.visited root) : Stands cv root above n
  | opened {above : List ParseNode} {n : ParseNode} (hfree : Free above n)
      (hspliced : n.Spliced) (hdeclares : ¬ n.Declares)
      (hbody : ∀ m ∈ n.statementsExcept n.heads, m ∈ cv.visited root) : Stands cv root above n
  | arguments {above : List ParseNode} {call list : ParseNode} (hcall : call ∈ cv.visited root)
      (hcalls : call.CallsMethod) (hlist : call.child? "arguments" = some list) :
      Stands cv root (call :: above) list
  | pair {above : List ParseNode} {call list p : ParseNode} (hcall : call ∈ cv.visited root)
      (hcalls : call.CallsMethod) (hlist : call.child? "arguments" = some list)
      (hp : p ∈ argumentNodes call) (hpair : isPair p) : Stands cv root (list :: call :: above) p

namespace Stands

variable {above : List ParseNode} {p c : ParseNode}

/-- A way goes on from a spliced node whose statements are visited. -/
theorem of_spliced (hids : root.DistinctIds) (hp : p ∈ root.nodes) (hspliced : p.Spliced)
    (hfree : ¬ HoldsArguments above p)
    (hbody : ∀ m ∈ p.statementsExcept p.heads, m ∈ cv.visited root) (hc : c ∈ p.namedChildren)
    (hopen : ¬ Shut above p c) : cv.Stands root (p :: above) c := by
  have hstatements : ∀ m ∈ c.statements, m ∈ cv.visited root := fun m hm =>
    hbody m (mem_statementsExcept_of_open hids hp (fun a => mem_children_of_mem_heads) hc
      (fun h => hopen (.head h)) hm)
  have hfree' : Free (p :: above) c := .below hfree hspliced.not_calls
  rw [statements_eq] at hstatements
  split at hstatements
  · rename_i shape
    exact absurd (.comment shape) hopen
  · rename_i shape
    refine .opened hfree' (spliced_of_shape (by simp [shape])) (by simp [Declares, shape]) ?_
    rwa [heads_of_shape (by simp [shape]), statementsExcept_nil]
  · exact .visited hfree' (hstatements c List.mem_cons_self)

/-- One step of a way. -/
theorem down (hids : root.DistinctIds) (hroot : root.Grammatical) (h : cv.Stands root above p)
    (hp : p ∈ root.nodes) (hc : c ∈ p.namedChildren) (hopen : ¬ Shut above p c) :
    cv.Stands root (p :: above) c := by
  have hcomment : c.shape ≠ .skipped := fun shape => hopen (.comment shape)
  cases h with
  | visited hfree hn =>
    have hholes := cv.holesAre_layer p
    have hclosed : ∀ m ∈ (cv.layer (fun _ => none) p).holes, m ∈ cv.visited root := fun m hm =>
      mem_visited_of_mem_holes hn hm
    generalize (cv.layer (fun _ => none) p).holes = holes at hholes hclosed
    cases hholes with
    | literal h => exact absurd (.literal h) hopen
    | call shape hmethod =>
      have hcalls : p.CallsMethod := ⟨shape, by simp [hmethod]⟩
      by_cases harguments : p.child? "arguments" = some c
      · exact .arguments hn hcalls harguments
      · have hpart : p.child? "receiver" = some c ∨ p.child? "block" = some c := by
          by_contra h
          obtain ⟨hreceiver, hblock⟩ := not_or.1 h
          exact hopen (.call hcalls hreceiver harguments hblock)
        refine .visited ⟨fun h => harguments h.2, fun h => hfree.1 h.1⟩ (hclosed c ?_)
        exact mem_holes_callForm.2 (hpart.imp_right fun h => .inr (.inr h))
    | lambda shape =>
      have hbody : p.child? "body" = some c := by_contra fun h => hopen (.lambda shape h)
      have hblock : c.shape = .block := hroot.body p hp shape c hbody
      refine .opened (.part hfree.1 hbody (by decide)) (spliced_of_shape (by simp [hblock]))
        (by simp [Declares, hblock]) ?_
      rw [statementsExcept_heads_of_block hblock]
      rw [hbody] at hclosed
      exact hclosed
    | spliced hspliced => exact of_spliced hids hp hspliced hfree.1 hclosed hc hopen
  | opened hfree hspliced _ hbody => exact of_spliced hids hp hspliced hfree.1 hbody hc hopen
  | arguments hcall hcalls hlist =>
    have ha := mem_argumentNodes.2 ⟨p, hlist, hc, hcomment⟩
    by_cases hpair : isPair c
    · exact .pair hcall hcalls hlist ha hpair
    · have hplain := hroot.shape_arguments (mem_nodes_of_mem_visited hcall) hcalls.1 hlist
      exact .visited ⟨fun h => not_callsMethod_of_plain hplain h.1, fun h => hpair h.2⟩
        (mem_visited_of_call hcall hcalls (.inr (.inl ⟨ha, hpair⟩)))
  | pair hcall hcalls hlist hp hpair =>
    have hplain := hroot.shape_arguments (mem_nodes_of_mem_visited hcall) hcalls.1 hlist
    have hvalue : p.child? "key" ≠ none ∧ p.child? "value" = some c := by
      by_contra h
      exact hopen (.pair ⟨⟨hcalls, hlist⟩, hpair⟩ (by tauto))
    refine .visited (.below (fun h => not_callsMethod_of_plain hplain h.1)
      (not_callsMethod_of_plain (shape_of_isPair hpair))) ?_
    exact mem_visited_of_call hcall hcalls (.inr (.inr (.inl ⟨p, hp, hpair, hvalue⟩)))

end Stands

theorem stands_of_way (hids : root.DistinctIds) (hroot : root.Grammatical) {n : ParseNode}
    {above : List ParseNode} (h : Way Shut root above n) : cv.Stands root above n := by
  induction h with
  | root => exact .visited ⟨fun h => h, fun h => h⟩ (cv.mem_visited_self root)
  | down hp hc hopen ih => exact ih.down hids hroot hp.mem_nodes hc hopen

/-- Where a way stands at a declaration, it stands at a node that is visited. -/
theorem mem_visited_of_declares (hroot : root.Grammatical) {n : ParseNode} {above : List ParseNode}
    (h : cv.Stands root above n) (hn : n.Declares) : n ∈ cv.visited root := by
  have hplain : n.shape ≠ .plain := by
    rintro shape
    simp [Declares, shape] at hn
  cases h with
  | visited _ hvisited => exact hvisited
  | opened _ _ hdeclares => exact absurd hn hdeclares
  | arguments hcall hcalls hlist =>
    exact absurd (hroot.shape_arguments (mem_nodes_of_mem_visited hcall) hcalls.1 hlist) hplain
  | pair _ _ _ _ hpair => exact absurd (shape_of_isPair hpair) hplain

/-- The declarations that are reached are those that are visited. -/
theorem reaches_iff_mem_visited (hids : root.DistinctIds) (hroot : root.Grammatical) {n : ParseNode}
    (hn : n.Declares) : Reaches Shut root n ↔ n ∈ cv.visited root := by
  constructor
  · rintro ⟨above, hway⟩
    exact mem_visited_of_declares hroot (stands_of_way hids hroot hway) hn
  · intro hvisited
    obtain ⟨above, hway, -⟩ :=
      exists_way_of_mem_visited hroot .root ⟨fun h => h, fun h => h⟩ hvisited
    exact ⟨above, hway⟩

/-! ### Declarations -/

/-- The declarations of a converted tree are those of the nodes visited. -/
theorem declarations_convert (cv : Converter) (hroot : root.Grammatical) :
    (cv.convert root).declarations = (cv.visited root).filterMap cv.declaration? := by
  rw [SyntaxNode.declarations, cv.nodes_convert hroot root.mem_nodes_self, List.filterMap_map]
  exact List.filterMap_congr fun n _ => cv.declaration?_convert n

/-- **Conversion neither loses nor duplicates declarations.**  The declarations of the syntax tree
correspond one to one, with kind, range and name, to the rows of the parse tree that are classes,
modules or methods with a name and that a way down the tree reaches. -/
theorem declarations_convertTree (source : Source) (encoding : PositionEncoding)
    {root : ParseNode} (hids : root.DistinctIds) (hroot : root.Grammatical) :
    ∃ rows : List ParseNode, rows.Nodup ∧
      (∀ n, n ∈ rows ↔ Reaches Shut root n ∧ n.Declares) ∧
      ((ofSource source encoding).convertTree root).declarations.map some =
        rows.map (ofSource source encoding).declaration? := by
  have hdeclares := (ofSource source encoding).isSome_declaration?
  refine ⟨((ofSource source encoding).visited root).filter
    fun n => ((ofSource source encoding).declaration? n).isSome, ?_, fun n => ?_, ?_⟩
  · exact ((ofSource source encoding).nodup_visited hids).filter _
  · rw [List.mem_filter, hdeclares, and_congr_left_iff]
    exact fun hn => (reaches_iff_mem_visited hids hroot hn).symm
  · rw [convertTree_eq hids, declarations_convert _ hroot,
      List.map_filterMap_some_eq_filter_map_isSome, List.filter_map]
    rfl

/-- The call of `f k: class A; end do def b; end end`, with a class for an argument and a method in
the block. -/
def declarationsInCall : ParseNode :=
  inLine 0 "program" 0 35 none
    [inLine 1 "call" 0 35 none
      [inLine 2 "identifier" 0 1 (some "method") [],
        inLine 3 "argument_list" 2 17 (some "arguments")
          [inLine 4 "pair" 2 17 none
            [inLine 5 "hash_key_symbol" 2 3 (some "key") [],
              inLine 6 "class" 5 17 (some "value") [inLine 7 "constant" 11 12 (some "name") []]]],
        inLine 8 "do_block" 18 35 (some "block")
          [inLine 9 "body_statement" 21 31 (some "body")
            [inLine 10 "method" 21 31 none [inLine 11 "identifier" 25 26 (some "name") []]]]]]

theorem declarations_convertTree_declarationsInCall :
    let cv := ofSource (.ofString "f k: class A; end do def b; end end") .utf16
    declarationsInCall.DistinctIds ∧ declarationsInCall.Grammatical ∧
    (cv.convertTree declarationsInCall).declarations.map (fun d => (d.kind, d.name)) =
      [(.class, "A"), (.method, "b")] ∧
    ∃ rows : List ParseNode, rows.Nodup ∧
      (∀ n, n ∈ rows ↔ Reaches Shut declarationsInCall n ∧ n.Declares) ∧
      (cv.convertTree declarationsInCall).declarations.map some = rows.map cv.declaration? := by
  intro cv
  have hids : declarationsInCall.DistinctIds := by decide
  have hroot : declarationsInCall.Grammatical := by decide
  refine ⟨hids, hroot, ?_, declarations_convertTree _ _ hids hroot⟩
  rw [convertTree_eq hids, cv.convert_eq_convertWithin 12 (by decide)]
  decide

/-- The class of `class < class B; end end`, for whose name there is no row. -/
def namelessClass : ParseNode :=
  inLine 1 "class" 0 24 none
    [inLine 2 "superclass" 6 20 (some "superclass")
      [inLine 3 "class" 8 20 none [inLine 4 "constant" 14 15 (some "name") []]]]

/-- What a class without a name has for a superclass is no head, and is converted: shutting it
would lose the class that stands there. -/
theorem declarations_namelessClass :
    let cv := ofSource (.ofString "class < class B; end end") .utf16
    let root := inLine 0 "program" 0 24 none [namelessClass]
    root.DistinctIds ∧ root.Grammatical ∧
    (cv.convertTree root).declarations.map (fun d => (d.kind, d.name)) = [(.class, "B")] ∧
    ¬ ∃ n, Reaches (fun above p c => Shut above p c ∨
        p.shape = .classDecl ∧ superclassClause p = some c) root n ∧ n.Declares := by
  intro cv root
  have hids : root.DistinctIds := by decide
  have hroot : root.Grammatical := by decide
  refine ⟨hids, hroot, ?_, ?_⟩
  · rw [convertTree_eq hids, cv.convert_eq_convertWithin 5 (by decide)]
    decide
  · rintro ⟨n, ⟨above, hway⟩, hn⟩
    have hends : n = root ∨ n = namelessClass := by
      clear hn
      induction hway with
      | root => exact .inl rfl
      | down _ hc hopen ih =>
        rcases ih with rfl | rfl
        · exact .inr (List.mem_singleton.1 hc)
        · -- its only named child is the superclass
          obtain rfl := List.mem_singleton.1 hc
          exact absurd (.inr ⟨rfl, rfl⟩) hopen
    rcases hends with rfl | rfl
    · simp [Declares, show root.shape = .plain from rfl] at hn
    · exact hn.2 rfl

end Converter

end RubyOutline
