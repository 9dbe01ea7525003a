/-
RubyOutline/Proofs/Outline/Lookups.lean

What an outline asks the table.  For a call it looks up the entry of the method, and whether the
superclass around it is a base class of tests; it asks nothing else (`Call.recognize_congr`).
Recognition also decides what is opened and what is hidden, so one look-up that differed could
change everything after it; but where no look-up differs, the two outlines go through the tree side
by side, with tables that agree on the superclass of whatever class is open
(`symbols_eq_of_agreesOn`).
-/
import RubyOutline.Proofs.Conversion.Declarations
import RubyOutline.Proofs.MacroTable.Changes
import RubyOutline.Proofs.Outline.Walk

namespace RubyOutline

/-! ### The names a tree uses -/

namespace SyntaxNode

/-- The methods that are called in a tree, wherever the calls stand. -/
def calledMethods (root : SyntaxNode) : List String :=
  root.nodes.filterMap fun n =>
    match n.form with
    | .call c => some c.method
    | _ => none

/-- The superclasses that the classes of a tree declare, `none` for a class without one. -/
def superclasses (root : SyntaxNode) : List (Option String) :=
  root.nodes.filterMap fun n =>
    match n.form with
    | .classDecl _ _ superclass _ => some superclass
    | _ => none

variable {root n : SyntaxNode}

theorem mem_calledMethods (hn : n ∈ root.nodes) {c : Call SyntaxNode} (hform : n.form = .call c) :
    c.method ∈ root.calledMethods :=
  List.mem_filterMap.2 ⟨n, hn, by rw [hform]⟩

theorem mem_superclasses (hn : n ∈ root.nodes) {name : String} {nameRange : SourceRange}
    {superclass : Option String} {body : List SyntaxNode}
    (hform : n.form = .classDecl name nameRange superclass body) :
    superclass ∈ root.superclasses :=
  List.mem_filterMap.2 ⟨n, hn, by rw [hform]⟩

end SyntaxNode

/-- Two tables say the same about every method that a tree calls, and about every superclass that
it declares. -/
structure MacroTable.AgreesOn (t t' : MacroTable) (root : SyntaxNode) : Prop where
  isTestAlias : ∀ method ∈ root.calledMethods, t.isTestAlias method = t'.isTestAlias method
  callback? : ∀ method ∈ root.calledMethods, t.callback? method = t'.callback? method
  isAttributeMacro :
    ∀ method ∈ root.calledMethods, t.isAttributeMacro method = t'.isAttributeMacro method
  isTestBase : ∀ superclass ∈ root.superclasses, t.isTestBase superclass = t'.isTestBase superclass

variable {t t' : MacroTable} {root : SyntaxNode}

theorem MacroTable.AgreesOn.entry (h : t.AgreesOn t' root) {method : String}
    (hmethod : method ∈ root.calledMethods) : t.entry method = t'.entry method := by
  rw [MacroTable.entry, MacroTable.entry, h.isTestAlias method hmethod, h.callback? method hmethod,
    h.isAttributeMacro method hmethod]

theorem MacroTable.agreesOn_of_entry
    (hentry : ∀ method ∈ root.calledMethods, t.entry method = t'.entry method)
    (hbase : t.isTestBase = t'.isTestBase) : t.AgreesOn t' root where
  isTestAlias method h := congrArg Entry.isTestAlias (hentry method h)
  callback? method h := congrArg Entry.callback? (hentry method h)
  isAttributeMacro method h := congrArg Entry.isAttributeMacro (hentry method h)
  isTestBase superclass _ := congrFun hbase superclass

/-! ### Recognition -/

/-- A call is recognised by the entry of its method: another method with the same entry, in another
table with the same answer about the superclass, makes no difference. -/
theorem Call.recognize_congr {c : Call SyntaxNode} {method : String} {superclass : Option String}
    (hentry : t.entry c.method = t'.entry method)
    (hbase : t.isTestBase superclass = t'.isTestBase superclass) :
    c.recognize t superclass = { c with method := method }.recognize t' superclass := by
  have halias : t.isTestAlias c.method = t'.isTestAlias method :=
    congrArg MacroTable.Entry.isTestAlias hentry
  have hcallback : t.callback? c.method = t'.callback? method :=
    congrArg MacroTable.Entry.callback? hentry
  have hattribute : t.isAttributeMacro c.method = t'.isAttributeMacro method :=
    congrArg MacroTable.Entry.isAttributeMacro hentry
  rw [recognize, halias, hcallback, hattribute, hbase]
  rfl

theorem contribution_eq_of_agreesOn (h : t.AgreesOn t' root) {n : SyntaxNode} (hn : n ∈ root.nodes)
    {superclass : Option String} (hbase : t.isTestBase superclass = t'.isTestBase superclass) :
    n.contribution t superclass = n.contribution t' superclass := by
  obtain ⟨range, form⟩ := n
  cases form with
  | call c =>
    have hentry : t.entry c.method = t'.entry c.method :=
      h.entry (SyntaxNode.mem_calledMethods hn rfl)
    rw [contribution_call, contribution_call, Call.recognize_congr hentry hbase]
  | _ => rfl

/-! ### Outlines -/

/-- A node of the tree contributes the same symbols for both tables, wherever it stands. -/
theorem symbols_eq_of_agreesOn (h : t.AgreesOn t' root) {n : SyntaxNode} (hn : n ∈ root.nodes)
    {context : Context} (hbase : t.isTestBase context.join = t'.isTestBase context.join) :
    n.symbols t context = n.symbols t' context := by
  induction n using SyntaxNode.childNodes_induction generalizing context with
  | step n ih =>
    have hbelow : ∀ context : Context,
        t.isTestBase context.join = t'.isTestBase context.join →
        n.childNodes.flatMap (·.symbols t context) =
          n.childNodes.flatMap (·.symbols t' context) := fun context hbase =>
      List.flatMap_congr fun c hc =>
        ih c hc (SyntaxNode.mem_nodes_of_mem_childNodes hn hc) hbase
    rw [SyntaxNode.symbols_eq, SyntaxNode.symbols_eq, ← contribution_eq_of_agreesOn h hn hbase]
    cases hcontribution : n.contribution t context.join with
    | container info own =>
      -- what is below stands in the class or module that is opened here
      have hown : t.isTestBase own = t'.isTestBase own := by
        rcases SyntaxNode.cases_of_container hcontribution with ⟨_, _, _, hform, _⟩ |
          ⟨_, _, _, _, rfl, _⟩
        · exact h.isTestBase own (SyntaxNode.mem_superclasses hn hform)
        · rfl
      simp only [hbelow (some own) hown]
    | leaves infos => rfl
    | passage => exact hbelow context hbase

theorem outline_eq_of_agreesOn (h : t.AgreesOn t' root) : outline t root = outline t' root := by
  rw [outline_eq, outline_eq]
  exact symbols_eq_of_agreesOn h root.mem_nodes_self rfl

/-- **An outline depends on the table only through the names the tree uses.**  Tables that agree on
these give equal outlines.  In particular two tables that differ only in methods which the tree
never calls do, and so no callback that is added, replaced or taken out, and no number of such
changes, changes the outline of a tree that does not call it. -/
theorem outline_looksUp (root : SyntaxNode) :
    (∀ t t' : MacroTable, t.AgreesOn t' root → outline t root = outline t' root) ∧
    (∀ t t' : MacroTable, t.testBaseSuffix = t'.testBaseSuffix →
      (∀ method, t.entry method ≠ t'.entry method → method ∉ root.calledMethods) →
      outline t root = outline t' root) ∧
    ∀ (t : MacroTable) (changes : List MacroTable.Change),
      (∀ change ∈ changes, ∀ name ∈ change.names, name ∉ root.calledMethods) →
      outline (t.changeAll changes) root = outline t root := by
  refine ⟨fun t t' h => outline_eq_of_agreesOn h, fun t t' hsuffix hdiffer => ?_,
    fun t changes hunused => ?_⟩
  · have hentry : ∀ method ∈ root.calledMethods, t.entry method = t'.entry method :=
      fun method hmethod => Decidable.by_contra fun hne => hdiffer method hne hmethod
    have hbase : t.isTestBase = t'.isTestBase := by
      funext superclass
      cases superclass with
      | none => rfl
      | some superclass => rw [MacroTable.isTestBase, MacroTable.isTestBase, hsuffix]
    exact outline_eq_of_agreesOn (MacroTable.agreesOn_of_entry hentry hbase)
  · have hentry : ∀ method ∈ root.calledMethods,
        (t.changeAll changes).entry method = t.entry method := fun method hmethod =>
      t.entry_changeAll fun change hchange hname => hunused change hchange method hname hmethod
    exact outline_eq_of_agreesOn
      (MacroTable.agreesOn_of_entry hentry (t.isTestBase_changeAll changes))

/-- A test case with a test, a callback, an attribute and a call of no macro. -/
def testCaseOfMacros : SyntaxNode :=
  let line (i : Nat) : SourceRange := ⟨⟨i, 2⟩, ⟨i, 30⟩⟩
  let call (i : Nat) (method argument : String) : SyntaxNode :=
    ⟨line i, .call ⟨method, line i, none, [⟨line i, .symbolLiteral argument⟩], [], none⟩⟩
  ⟨⟨⟨0, 0⟩, ⟨5, 3⟩⟩, .classDecl "ATest" ⟨⟨0, 6⟩, ⟨0, 11⟩⟩ (some "TestCase")
    [call 1 "test" "t", call 2 "before_save" "s", call 3 "attr_reader" "a", call 4 "puts" "p"]⟩

/-- Another table, and changes of the table, which the outline of a test case does not notice. -/
theorem outline_looksUp_testCaseOfMacros :
    let other : MacroTable := ⟨["scenario", "test"], "Case",
      [⟨"scope", .custom, true, true⟩, ⟨"before_save", .model, true, true⟩], ["attr_reader"]⟩
    let changes : List MacroTable.Change := [.withCallbacks [⟨"scope", .custom, true, true⟩],
      .withoutCallbacks ["after_save", "scope"]]
    MacroTable.rails.AgreesOn other testCaseOfMacros ∧
    outline .rails testCaseOfMacros = outline other testCaseOfMacros ∧
    (∀ change ∈ changes, ∀ name ∈ change.names, name ∉ testCaseOfMacros.calledMethods) ∧
    outline (MacroTable.rails.changeAll changes) testCaseOfMacros =
      outline .rails testCaseOfMacros ∧
    ((outline .rails testCaseOfMacros).flatMap Symbol.walk).map (·.info.name) =
      ["ATest", "t", "before_save(s)", "a"] := by
  intro other changes
  have hagrees : MacroTable.rails.AgreesOn other testCaseOfMacros :=
    ⟨by decide, by decide, by decide, by decide⟩
  have hunused : ∀ change ∈ changes, ∀ name ∈ change.names,
      name ∉ testCaseOfMacros.calledMethods := by decide
  refine ⟨hagrees, (outline_looksUp testCaseOfMacros).1 _ _ hagrees, hunused,
    (outline_looksUp testCaseOfMacros).2.2 _ _ hunused, ?_⟩
  rw [outline_eq]
  decide

end RubyOutline
