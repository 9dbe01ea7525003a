/-
RubyOutline/Proofs/SymbolBuilder/Runs.lean

What a builder owes to the steps it has taken.  A run is a log of steps with the builder's answers
(`Run`); it takes in symbols without children, and it opens scopes for symbols that hang in the
forest, maybe for one symbol several times over, and maybe against the nesting of the forest.

The log alone tells what the forest has to be.  Which symbols hang in it can be read off the answers
(`Hangs`).  Which scopes are open can be read off the way in which pushes and pops enclose each
other: `Nested` are the parts of a log that close every scope they open, the last one first, and
`LeavesOpen` cuts a log at the pushes that no such part contains.

A step changes the scopes or brings one symbol, and leaves all else as it was (`StepsTo`).  From
that come, one after the other, what the table of places holds (`Run.arrivals_eq`), that symbols
hang under symbols that came before them (`Run.hangs_parent`), what the walk goes through
(`Run.mem_numbers_iff`), which scopes are open (`Run.leavesOpen_iff`) and under which scope a symbol
has come in (`Run.arrivedIn_iff`); `Run.accounts` puts them together.
-/
import RubyOutline.Proofs.SymbolBuilder
import RubyOutline.Proofs.SymbolBuilder.Numbers

namespace RubyOutline.SymbolBuilder

/-! ### Steps and their answers -/

inductive Step
  | attach (info : SymbolInfo)
  | attachLeaf (info : SymbolInfo)
  | push (symbol : Nat) (superclass : Option String)
  | pop
deriving DecidableEq

inductive Answer
  | done
  | kept (isKept : Bool)
  | closed (symbol : Nat)
  | refused (error : NoOpenScope)
deriving DecidableEq

/-- A step, with what the builder answers.  A pop that is refused leaves the builder as it is. -/
def step (b : SymbolBuilder) : Step → Answer × SymbolBuilder
  | .attach info => (.done, b.attach (.leaf info))
  | .attachLeaf info => (.kept (b.attachLeaf (.leaf info)).1, (b.attachLeaf (.leaf info)).2)
  | .push symbol superclass => (.done, b.pushScope symbol superclass)
  | .pop =>
    match b.popScope with
    | .ok (symbol, closed) => (.closed symbol, closed)
    | .error e => (.refused e, b)

/-! ### What a log tells -/

/-- The symbol that a step brings, and whether it is hung into the forest. -/
def arrival? : Step × Answer → Option (SymbolInfo × Bool)
  | (.attach info, _) => some (info, true)
  | (.attachLeaf info, .kept isKept) => some (info, isKept)
  | _ => none

/-- The symbols of a log.  The number of a symbol is its place among them. -/
def arrivals (log : List (Step × Answer)) : List (SymbolInfo × Bool) := log.filterMap arrival?

/-- The symbol with a number has been attached, or its leaf has been kept. -/
def Hangs (log : List (Step × Answer)) (n : Nat) : Prop :=
  (arrivals log)[n]?.any (·.2) = true

instance (log : List (Step × Answer)) (n : Nat) : Decidable (Hangs log n) :=
  inferInstanceAs (Decidable (_ = _))

/-- Opens a scope. -/
def isOpening : Step × Answer → Bool
  | (.push _ _, _) => true
  | _ => false

/-- Closes a scope. -/
def isClosing : Step × Answer → Bool
  | (.pop, .closed _) => true
  | _ => false

/-- Parts of a log that close every scope they open, and no other: between the push and the pop of
a scope stands such a part again. -/
inductive Nested : List (Step × Answer) → Prop
  | nil : Nested []
  | quiet {e : Step × Answer} (ho : isOpening e = false) (hc : isClosing e = false) : Nested [e]
  | scope (symbol : Nat) (superclass : Option String) {inner : List (Step × Answer)}
      (h : Nested inner) :
      Nested ((.push symbol superclass, .done) :: inner ++ [(.pop, .closed symbol)])
  | append {log log' : List (Step × Answer)} (h : Nested log) (h' : Nested log') :
      Nested (log ++ log')

/-- The scopes that a log leaves open, innermost first: those of its pushes after which every scope
that was opened has been closed again, and so on outwards. -/
inductive LeavesOpen : List (Step × Answer) → List Scope → Prop
  | none {log : List (Step × Answer)} (h : Nested log) : LeavesOpen log []
  | scope (s : Scope) {outer inner : List (Step × Answer)} {scopes : List Scope}
      (ho : LeavesOpen outer scopes) (hi : Nested inner) :
      LeavesOpen (outer ++ (.push s.symbol s.superclass, .done) :: inner) (s :: scopes)

/-- The symbol with a number has come in while some scopes were open. -/
def ArrivedIn (log : List (Step × Answer)) (n : Nat) (scopes : List Scope) : Prop :=
  ∃ before e later, log = before ++ e :: later ∧ (arrival? e).isSome ∧
    (arrivals before).length = n ∧ LeavesOpen before scopes

/-! ### Runs -/

/-- A scope is opened for a symbol that hangs in the forest. -/
def Step.NamesAttached (log : List (Step × Answer)) : Step → Prop
  | .push symbol _ => Hangs log symbol
  | _ => True

/-- The builders that logs lead to, from a new builder on. -/
inductive Run : List (Step × Answer) → SymbolBuilder → Prop
  | new : Run [] empty
  | step {log : List (Step × Answer)} {b b' : SymbolBuilder} {s : Step} {a : Answer}
      (h : Run log b) (hs : s.NamesAttached log) (hstep : b.step s = (a, b')) :
      Run (log ++ [(s, a)]) b'

/-- What a builder owes to its log. -/
structure Accounts (log : List (Step × Answer)) (b : SymbolBuilder) : Prop where
  /-- The forest is the numbered one, read without the numbers, and so are its walks. -/
  roots : b.roots = b.numberedRoots.map (·.symbol)
  walks : b.roots.flatMap Symbol.walk = b.walked.map (·.symbol)
  /-- A number stands for the symbol that has arrived under it. -/
  infos : ∀ t ∈ b.walked, (arrivals log)[t.number]? = some (t.info, true)
  /-- A symbol that was attached or kept occurs once in the walks, and no other symbol occurs. -/
  once : ∀ n, b.numbers.count n = if Hangs log n then 1 else 0
  /-- Roots are the symbols attached outside any scope, in the order of arrival. -/
  mem_roots : ∀ n, n ∈ b.numberedRoots.map (·.number) ↔ Hangs log n ∧ ArrivedIn log n []
  roots_inOrder : (b.numberedRoots.map (·.number)).Pairwise (· < ·)
  /-- The children of a symbol are those that have come in while its scope was the innermost one,
  in the order of arrival. -/
  mem_children : ∀ t ∈ b.walked, ∀ n, n ∈ t.children.map (·.number) ↔
    ∃ superclass scopes, ArrivedIn log n (⟨t.number, superclass⟩ :: scopes)
  children_inOrder : ∀ t ∈ b.walked, (t.children.map (·.number)).Pairwise (· < ·)
  /-- The open scopes are the pushes that have not been closed, and so many. -/
  scopes : ∀ scopes, LeavesOpen log scopes ↔ b.scopes = scopes
  depth : b.depth + log.countP isClosing = log.countP isOpening
  /-- A leaf is dropped just outside any scope. -/
  leaf_dropped : ∀ info, (b.attachLeaf (.leaf info)).1 = false ↔ LeavesOpen log []
  /-- What a pop closes is the scope of the last push after which all scopes have been closed. -/
  pop_closes : ∀ symbol b', b.popScope = .ok (symbol, b') →
    ∃ outer superclass inner, log = outer ++ (.push symbol superclass, .done) :: inner ∧
      Nested inner ∧ LeavesOpen outer b'.scopes
  /-- Outside any scope a pop is refused, and changes nothing. -/
  pop_refused : LeavesOpen log [] → b.step .pop = (.refused {}, b)

/-! ### One step -/

/-- All that a step can do. -/
inductive StepsTo (b : SymbolBuilder) : Step → Answer → SymbolBuilder → Prop
  | root (h : b.scopes = []) (info : SymbolInfo) : StepsTo b (.attach info) .done (b.put info .root)
  | under {scope : Scope} {rest : List Scope} (h : b.scopes = scope :: rest) (info : SymbolInfo)
      {s : Step} {a : Answer} (harrival : arrival? (s, a) = some (info, true)) :
      StepsTo b s a (b.put info (.under scope.symbol))
  | dropped (h : b.scopes = []) (info : SymbolInfo) :
      StepsTo b (.attachLeaf info) (.kept false) (b.put info .nowhere)
  | opened (symbol : Nat) (superclass : Option String) :
      StepsTo b (.push symbol superclass) .done (b.pushScope symbol superclass)
  | closed {scope : Scope} {rest : List Scope} (h : b.scopes = scope :: rest) :
      StepsTo b .pop (.closed scope.symbol) { b with scopes := rest }
  | refused (h : b.scopes = []) : StepsTo b .pop (.refused {}) b

theorem stepsTo_of_step {b b' : SymbolBuilder} {s : Step} {a : Answer} (h : b.step s = (a, b')) :
    StepsTo b s a b' := by
  obtain ⟨entries, scopes⟩ := b
  cases s with
  | attach info =>
    rw [step, attach, putTree_leaf] at h
    cases h
    cases scopes with
    | nil => exact .root rfl info
    | cons scope rest => exact .under rfl info rfl
  | attachLeaf info =>
    cases scopes with
    | nil =>
      simp only [step, attachLeaf, currentScope, List.head?_nil, putTree_leaf] at h
      cases h
      exact .dropped rfl info
    | cons scope rest =>
      simp only [step, attachLeaf, currentScope, List.head?_cons, putTree_leaf] at h
      cases h
      exact .under rfl info rfl
  | push symbol superclass =>
    cases h
    exact .opened symbol superclass
  | pop =>
    cases scopes with
    | nil =>
      cases h
      exact .refused rfl
    | cons scope rest =>
      cases h
      exact .closed rfl

/-- What brings a symbol neither opens nor closes a scope. -/
theorem quiet_of_arrival? {e : Step × Answer} (h : (arrival? e).isSome) :
    isOpening e = false ∧ isClosing e = false := by
  obtain ⟨s, a⟩ := e
  cases s with
  | attach info => exact ⟨rfl, rfl⟩
  | attachLeaf info => exact ⟨rfl, rfl⟩
  | push symbol superclass => cases h
  | pop => cases h

theorem nested_of_arrival? {e : Step × Answer} (h : (arrival? e).isSome) : Nested [e] :=
  .quiet (quiet_of_arrival? h).1 (quiet_of_arrival? h).2

/-! ### Symbols and their entries -/

theorem getElem?_concat_eq_some_iff {α : Type} {l : List α} {x y : α} {n : Nat} :
    (l ++ [x])[n]? = some y ↔ l[n]? = some y ∨ n = l.length ∧ y = x := by
  grind

theorem arrivals_concat (log : List (Step × Answer)) (e : Step × Answer) :
    arrivals (log ++ [e]) = arrivals log ++ (arrival? e).toList := by
  rw [arrivals, List.filterMap_append, ← arrivals]
  cases h : arrival? e <;> simp [h]

theorem hangs_iff {log : List (Step × Answer)} {n : Nat} :
    Hangs log n ↔ ∃ info, (arrivals log)[n]? = some (info, true) := by
  simp [Hangs, Option.any_eq_true]

theorem Hangs.concat {log : List (Step × Answer)} {n : Nat} (h : Hangs log n) (e : Step × Answer) :
    Hangs (log ++ [e]) n := by
  obtain ⟨info, hinfo⟩ := hangs_iff.1 h
  refine hangs_iff.2 ⟨info, ?_⟩
  rw [arrivals_concat, List.getElem?_append_left (List.getElem?_eq_some_iff.1 hinfo).1, hinfo]

variable {log : List (Step × Answer)} {b : SymbolBuilder}

/-- The entries of a builder are the symbols of its log, and those without a place the ones that
were dropped. -/
theorem Run.arrivals_eq (h : Run log b) :
    arrivals log = b.entries.toList.map fun e => (e.1, decide (e.2 ≠ .nowhere)) := by
  induction h with
  | new => rfl
  | step h hs hstep ih =>
    rw [arrivals_concat, ih]
    cases stepsTo_of_step hstep with
    | root hscopes info => simp [put, arrival?]
    | under hscopes info harrival => simp [put, harrival]
    | dropped hscopes info => simp [put, arrival?]
    | opened symbol superclass => simp [pushScope, arrival?]
    | closed hscopes => simp [arrival?]
    | refused hscopes => simp [arrival?]

theorem Run.getElem?_arrivals (h : Run log b) {n : Nat} {info : SymbolInfo} {place : Place}
    (hentry : b.entries.toList[n]? = some (info, place)) :
    (arrivals log)[n]? = some (info, decide (place ≠ .nowhere)) := by
  rw [h.arrivals_eq, List.getElem?_map, hentry]
  rfl

theorem Run.length_arrivals (h : Run log b) : (arrivals log).length = b.next := by
  rw [h.arrivals_eq, List.length_map, Array.length_toList, next]

theorem Run.lt_next_of_hangs (h : Run log b) {n : Nat} (hn : Hangs log n) : n < b.next := by
  obtain ⟨info, hinfo⟩ := hangs_iff.1 hn
  rw [← h.length_arrivals]
  exact (List.getElem?_eq_some_iff.1 hinfo).1

/-- What a further entry changes. -/
theorem getElem?_put_eq_some_iff {info : SymbolInfo} {place : Place} {n : Nat}
    {e : SymbolInfo × Place} :
    (b.put info place).entries.toList[n]? = some e ↔
      b.entries.toList[n]? = some e ∨ n = b.next ∧ e = (info, place) := by
  rw [put, Array.toList_push, getElem?_concat_eq_some_iff, Array.length_toList, next]

/-- Scopes are open for symbols that hang in the forest. -/
theorem Run.hangs_of_mem_scopes (h : Run log b) {scope : Scope} (hscope : scope ∈ b.scopes) :
    Hangs log scope.symbol := by
  induction h with
  | new => cases hscope
  | step h hs hstep ih =>
    cases stepsTo_of_step hstep with
    | opened symbol superclass =>
      rcases List.mem_cons.1 hscope with rfl | hscope
      · exact Hangs.concat hs _
      · exact (ih hscope).concat _
    | closed hscopes => exact (ih (hscopes ▸ List.mem_cons_of_mem _ hscope)).concat _
    | _ => exact (ih hscope).concat _

/-- Symbols hang under symbols that came before them and hang in the forest themselves. -/
theorem Run.hangs_parent (h : Run log b) {n parent : Nat} {info : SymbolInfo}
    (hentry : b.entries.toList[n]? = some (info, .under parent)) :
    parent < n ∧ Hangs log parent := by
  induction h with
  | new => simp [empty] at hentry
  | @step log b _ _ _ h hs hstep ih =>
    -- what hung before hangs where it hung, and the symbol of this step under an open scope
    have hold : ∀ {e}, b.entries.toList[n]? = some (info, .under parent) →
        parent < n ∧ Hangs (log ++ [e]) parent := fun h => ⟨(ih h).1, (ih h).2.concat _⟩
    cases stepsTo_of_step hstep with
    | @under scope rest hscopes info' _ _ harrival =>
      rcases getElem?_put_eq_some_iff.1 hentry with hentry | ⟨rfl, he⟩
      · exact hold hentry
      · cases he
        have hparent := h.hangs_of_mem_scopes (hscopes ▸ List.mem_cons_self)
        exact ⟨h.lt_next_of_hangs hparent, hparent.concat _⟩
    | root hscopes info' =>
      rcases getElem?_put_eq_some_iff.1 hentry with hentry | ⟨_, he⟩
      · exact hold hentry
      · cases he
    | dropped hscopes info' =>
      rcases getElem?_put_eq_some_iff.1 hentry with hentry | ⟨_, he⟩
      · exact hold hentry
      · cases he
    | opened symbol superclass => exact hold hentry
    | closed hscopes => exact hold hentry
    | refused hscopes => exact hold hentry

/-! ### The walk -/

/-- A symbol that a step brings hangs if it was not there before and is not dropped. -/
theorem hangs_concat_iff {e : Step × Answer} {n : Nat} :
    Hangs (log ++ [e]) n ↔
      Hangs log n ∨ n = (arrivals log).length ∧ ∃ info, arrival? e = some (info, true) := by
  rw [hangs_iff, hangs_iff, arrivals_concat]
  cases harrival : arrival? e with
  | none => simp
  | some arrival =>
    simp only [Option.toList_some, getElem?_concat_eq_some_iff, exists_or, exists_and_left,
      Option.some.injEq, eq_comm (a := arrival)]

/-- The walk goes through the symbols that were attached or kept. -/
theorem Run.mem_numbers_iff (h : Run log b) {n : Nat} : n ∈ b.numbers ↔ Hangs log n := by
  induction h generalizing n with
  | new => simp [numbers_empty, Hangs, arrivals]
  | @step log b _ _ _ h hs hstep ih =>
    rw [hangs_concat_iff, ← ih, h.length_arrivals]
    cases stepsTo_of_step hstep with
    | root hscopes info => simp [mem_numbers_put, arrival?]
    | @under scope rest hscopes info _ _ harrival =>
      -- the scope's own symbol is in the walk, and so is what hangs under it
      have hscope : scope.symbol ∈ b.numbers :=
        ih.2 (h.hangs_of_mem_scopes (hscopes ▸ List.mem_cons_self))
      rw [mem_numbers_put, harrival]
      simp [hscope]
    | dropped hscopes info => simp [mem_numbers_put, arrival?]
    | opened symbol superclass => simp [numbers_pushScope, arrival?]
    | @closed scope rest hscopes =>
      show n ∈ b.numbers ↔ _
      simp [arrival?]
    | refused hscopes => simp [arrival?]

/-! ### Open scopes -/

/-- What a step does to the open scopes. -/
def scopesAfter (scopes : List Scope) : Step × Answer → List Scope
  | (.push symbol superclass, _) => ⟨symbol, superclass⟩ :: scopes
  | (.pop, .closed _) => scopes.tail
  | _ => scopes

theorem Nested.foldl_scopesAfter {part : List (Step × Answer)} (h : Nested part)
    (scopes : List Scope) : part.foldl scopesAfter scopes = scopes := by
  induction h generalizing scopes with
  | nil => rfl
  | @quiet e ho hc =>
    obtain ⟨s, a⟩ := e
    cases s with
    | push symbol superclass => cases ho
    | pop =>
      cases a with
      | closed symbol => cases hc
      | _ => rfl
    | _ => rfl
  | scope symbol superclass h ih =>
    rw [List.cons_append, List.foldl_cons, List.foldl_append, ih]
    rfl
  | append h h' ih ih' => rw [List.foldl_append, ih, ih']

/-- A log leaves open what its steps, one after the other, have made of no scopes at all. -/
theorem LeavesOpen.foldl_scopesAfter {scopes : List Scope} (h : LeavesOpen log scopes) :
    log.foldl scopesAfter [] = scopes := by
  induction h with
  | none h => exact h.foldl_scopesAfter []
  | scope s ho hi ih =>
    rw [List.foldl_append, ih, List.foldl_cons, hi.foldl_scopesAfter]
    rfl

theorem LeavesOpen.append {part : List (Step × Answer)} {scopes : List Scope}
    (h : LeavesOpen log scopes) (hpart : Nested part) : LeavesOpen (log ++ part) scopes := by
  cases h with
  | none h => exact .none (h.append hpart)
  | scope s ho hi =>
    rw [List.append_assoc, List.cons_append]
    exact .scope s ho (hi.append hpart)

theorem Run.leavesOpen (h : Run log b) : LeavesOpen log b.scopes := by
  induction h with
  | new => exact .none .nil
  | @step log b _ _ _ h hs hstep ih =>
    cases stepsTo_of_step hstep with
    | root hscopes info => exact ih.append (.quiet rfl rfl)
    | under hscopes info harrival =>
      exact ih.append (nested_of_arrival? (Option.isSome_of_eq_some harrival))
    | dropped hscopes info => exact ih.append (.quiet rfl rfl)
    | opened symbol superclass => exact .scope ⟨symbol, superclass⟩ ih .nil
    | @closed scope rest hscopes =>
      rw [hscopes] at ih
      cases ih with
      | scope _ ho hi =>
        -- with this pop, the part that began with the scope's push is nested
        rw [List.append_assoc]
        exact ho.append (.scope scope.symbol scope.superclass hi)
    | refused hscopes => exact ih.append (.quiet rfl rfl)

theorem Run.leavesOpen_iff (h : Run log b) {scopes : List Scope} :
    LeavesOpen log scopes ↔ b.scopes = scopes :=
  ⟨fun h' => h.leavesOpen.foldl_scopesAfter.symm.trans h'.foldl_scopesAfter,
    fun h' => h' ▸ h.leavesOpen⟩

theorem Run.depth_add_countP (h : Run log b) :
    b.depth + log.countP isClosing = log.countP isOpening := by
  induction h with
  | new => rfl
  | @step log b _ _ _ h hs hstep ih =>
    rw [List.countP_append, List.countP_append, ← ih]
    cases stepsTo_of_step hstep with
    | root hscopes info => rfl
    | under hscopes info harrival =>
      obtain ⟨ho, hc⟩ := quiet_of_arrival? (Option.isSome_of_eq_some harrival)
      simp [ho, hc, depth, put]
    | dropped hscopes info => rfl
    | opened symbol superclass =>
      show b.scopes.length + 1 + (log.countP isClosing + 0) =
        b.scopes.length + log.countP isClosing + 1
      omega
    | @closed scope rest hscopes =>
      rw [depth, depth, hscopes]
      show rest.length + (log.countP isClosing + 1) =
        rest.length + 1 + log.countP isClosing + 0
      omega
    | refused hscopes => rfl

/-! ### Where symbols came in -/

/-- The places for a symbol that comes in while some scopes are open. -/
inductive PlacedIn : List Scope → Place → Prop
  | root : PlacedIn [] .root
  | nowhere : PlacedIn [] .nowhere
  | under (scope : Scope) (rest : List Scope) : PlacedIn (scope :: rest) (.under scope.symbol)

/-- A step brings nothing, or one symbol to a place that the open scopes leave it. -/
theorem placedIn_of_step {b' : SymbolBuilder} {s : Step} {a : Answer}
    (h : b.step s = (a, b')) :
    (arrival? (s, a) = none ∧ b'.entries = b.entries) ∨
      ∃ info place, (arrival? (s, a)).isSome ∧ b'.entries = (b.put info place).entries ∧
        PlacedIn b.scopes place := by
  cases stepsTo_of_step h with
  | root hscopes info => exact .inr ⟨info, .root, rfl, rfl, hscopes ▸ .root⟩
  | under hscopes info harrival =>
    exact .inr ⟨info, _, Option.isSome_of_eq_some harrival, rfl, hscopes ▸ .under _ _⟩
  | dropped hscopes info => exact .inr ⟨info, .nowhere, rfl, rfl, hscopes ▸ .nowhere⟩
  | opened symbol superclass => exact .inl ⟨rfl, rfl⟩
  | closed hscopes => exact .inl ⟨rfl, rfl⟩
  | refused hscopes => exact .inl ⟨rfl, rfl⟩

theorem arrivedIn_concat {e : Step × Answer} {n : Nat} {scopes : List Scope} :
    ArrivedIn (log ++ [e]) n scopes ↔
      ArrivedIn log n scopes ∨
      (arrival? e).isSome ∧ n = (arrivals log).length ∧ LeavesOpen log scopes := by
  constructor
  · rintro ⟨before, e', later, hlog, harrival, hn, hopen⟩
    -- the symbol has come in with the last step, or with one before it
    rcases List.eq_nil_or_concat later with rfl | ⟨later, e'', rfl⟩
    · obtain ⟨rfl, h⟩ := List.append_inj' hlog rfl
      cases h
      exact .inr ⟨harrival, hn.symm, hopen⟩
    · rw [List.concat_eq_append, ← List.cons_append, ← List.append_assoc] at hlog
      obtain ⟨rfl, -⟩ := List.append_inj' hlog rfl
      exact .inl ⟨before, e', later, rfl, harrival, hn, hopen⟩
  · rintro (⟨before, e', later, rfl, harrival, hn, hopen⟩ | ⟨harrival, rfl, hopen⟩)
    · exact ⟨before, e', later ++ [e], by rw [List.append_assoc, List.cons_append], harrival, hn,
        hopen⟩
    · exact ⟨log, e, [], rfl, harrival, rfl, hopen⟩

/-- Every symbol has its place from the scopes that were open when it came in. -/
theorem Run.exists_arrivedIn (h : Run log b) {n : Nat} {info : SymbolInfo} {place : Place}
    (hentry : b.entries.toList[n]? = some (info, place)) :
    ∃ scopes, ArrivedIn log n scopes ∧ PlacedIn scopes place := by
  induction h with
  | new => simp [empty] at hentry
  | @step log b _ _ _ h hs hstep ih =>
    rcases placedIn_of_step hstep with ⟨-, hentries⟩ | ⟨_, _, harrival, hentries, hplace⟩
    · rw [hentries] at hentry
      obtain ⟨scopes, hin, hplace⟩ := ih hentry
      exact ⟨scopes, arrivedIn_concat.2 (.inl hin), hplace⟩
    · rw [hentries, getElem?_put_eq_some_iff] at hentry
      rcases hentry with hentry | ⟨rfl, he⟩
      · obtain ⟨scopes, hin, hplace⟩ := ih hentry
        exact ⟨scopes, arrivedIn_concat.2 (.inl hin), hplace⟩
      · cases he
        exact ⟨b.scopes, arrivedIn_concat.2 (.inr ⟨harrival, h.length_arrivals.symm, h.leavesOpen⟩),
          hplace⟩

/-- A symbol that came in while some scopes were open has a place from them. -/
theorem Run.exists_placedIn (h : Run log b) {n : Nat} {scopes : List Scope}
    (hin : ArrivedIn log n scopes) :
    ∃ info place, b.entries.toList[n]? = some (info, place) ∧ PlacedIn scopes place := by
  induction h with
  | new =>
    obtain ⟨before, e, later, hlog, -⟩ := hin
    cases before <;> cases hlog
  | @step log b _ _ _ h hs hstep ih =>
    rcases placedIn_of_step hstep with ⟨hnone, hentries⟩ | ⟨info, place, -, hentries, hplace⟩
    · rw [hentries]
      rcases arrivedIn_concat.1 hin with hin | ⟨hsome, -⟩
      · exact ih hin
      · rw [hnone] at hsome
        cases hsome
    · rw [hentries]
      rcases arrivedIn_concat.1 hin with hin | ⟨-, rfl, hopen⟩
      · obtain ⟨info', place', hentry, hplace'⟩ := ih hin
        exact ⟨info', place', getElem?_put_eq_some_iff.2 (.inl hentry), hplace'⟩
      · obtain rfl := h.leavesOpen_iff.1 hopen
        exact ⟨info, place, getElem?_put_eq_some_iff.2 (.inr ⟨h.length_arrivals, rfl⟩), hplace⟩

theorem Run.mem_placedAt_under_iff (h : Run log b) {n symbol : Nat} :
    n ∈ b.placedAt (.under symbol) ↔
      ∃ superclass scopes, ArrivedIn log n (⟨symbol, superclass⟩ :: scopes) := by
  rw [mem_placedAt_iff]
  constructor
  · rintro ⟨info, hentry⟩
    obtain ⟨scopes, hin, hplace⟩ := h.exists_arrivedIn hentry
    cases hplace with
    | under scope rest => exact ⟨scope.superclass, rest, hin⟩
  · rintro ⟨superclass, scopes, hin⟩
    obtain ⟨info, place, hentry, hplace⟩ := h.exists_placedIn hin
    cases hplace with
    | under scope rest => exact ⟨info, hentry⟩

theorem Run.mem_placedAt_root_iff (h : Run log b) {n : Nat} :
    n ∈ b.placedAt .root ↔ Hangs log n ∧ ArrivedIn log n [] := by
  rw [mem_placedAt_iff, hangs_iff]
  constructor
  · rintro ⟨info, hentry⟩
    obtain ⟨scopes, hin, hplace⟩ := h.exists_arrivedIn hentry
    cases hplace with
    | root => exact ⟨⟨info, h.getElem?_arrivals hentry⟩, hin⟩
  · rintro ⟨⟨info, hinfo⟩, hin⟩
    obtain ⟨info', place, hentry, hplace⟩ := h.exists_placedIn hin
    cases hplace with
    | root => exact ⟨info', hentry⟩
    | nowhere =>
      -- what has no place was dropped
      rw [h.getElem?_arrivals hentry] at hinfo
      cases hinfo

/-! ### The accounts -/

theorem attachLeaf_fst_eq_false_iff (info : SymbolInfo) :
    (b.attachLeaf (.leaf info)).1 = false ↔ b.scopes = [] := by
  obtain ⟨entries, scopes⟩ := b
  cases scopes <;> simp [attachLeaf, currentScope]

theorem Run.parentsFirst (h : Run log b) : ParentsFirst b.entries.toList :=
  fun _ _ _ hentry => (h.hangs_parent hentry).1

theorem Run.infos (h : Run log b) {t : NumberedSymbol} (ht : t ∈ b.walked) :
    (arrivals log)[t.number]? = some (t.info, true) := by
  obtain ⟨place, hentry⟩ := (b.entry_of_mem_walked h.parentsFirst ht).1
  -- the log tells of the symbol under the same number, and it hangs
  have harrival := h.getElem?_arrivals hentry
  obtain ⟨info, hinfo⟩ := hangs_iff.1 (h.mem_numbers_iff.1 (List.mem_map_of_mem ht))
  rw [hinfo, Option.some.injEq, Prod.mk.injEq] at harrival
  rw [hinfo, harrival.1]

theorem Run.count_numbers (h : Run log b) (n : Nat) :
    b.numbers.count n = if Hangs log n then 1 else 0 := by
  rw [b.nodup_numbers.count]
  exact if_congr h.mem_numbers_iff rfl rfl

theorem Run.pop_closes (h : Run log b) {symbol : Nat} {b' : SymbolBuilder}
    (hpop : b.popScope = .ok (symbol, b')) :
    ∃ outer superclass inner, log = outer ++ (.push symbol superclass, .done) :: inner ∧
      Nested inner ∧ LeavesOpen outer b'.scopes := by
  have hopen := h.leavesOpen
  rw [popScope] at hpop
  cases hscopes : b.scopes with
  | nil =>
    rw [hscopes] at hpop
    cases hpop
  | cons scope rest =>
    rw [hscopes] at hpop hopen
    cases hpop
    cases hopen with
    | scope _ ho hi => exact ⟨_, scope.superclass, _, rfl, hi, ho⟩

/-- **After every step of a run** whose pushes name symbols of the forest: what was attached or kept
occurs exactly once in the walks of the roots and what was dropped nowhere, children and roots stand
in the order of their arrival, and the scopes are the pushes that have not been popped, the last one
innermost. -/
theorem Run.accounts (h : Run log b) : Accounts log b where
  roots := b.roots_eq_map
  walks := b.flatMap_walk_roots
  infos _ ht := h.infos ht
  once := h.count_numbers
  mem_roots n := by rw [map_number_numberedRoots, h.mem_placedAt_root_iff]
  roots_inOrder := by
    rw [map_number_numberedRoots]
    exact b.pairwise_lt_placedAt .root
  mem_children t ht n := by
    rw [(b.entry_of_mem_walked h.parentsFirst ht).2, h.mem_placedAt_under_iff]
  children_inOrder t ht := by
    rw [(b.entry_of_mem_walked h.parentsFirst ht).2]
    exact b.pairwise_lt_placedAt (.under t.number)
  scopes _ := h.leavesOpen_iff
  depth := h.depth_add_countP
  leaf_dropped info := by rw [attachLeaf_fst_eq_false_iff, h.leavesOpen_iff]
  pop_closes _ _ hpop := h.pop_closes hpop
  pop_refused hopen := by
    rw [h.leavesOpen_iff] at hopen
    rw [SymbolBuilder.step, popScope, hopen]

/-- A class that is opened twice over, a scope for a method below it, a pop too many, and a leaf
outside any scope. -/
def reopened : List (Step × Answer) :=
  [(.attach default, .done), (.push 0 none, .done), (.push 0 (some "Base"), .done),
    (.attachLeaf default, .kept true), (.pop, .closed 0), (.push 1 none, .done),
    (.attach default, .done), (.pop, .closed 1), (.pop, .closed 0), (.pop, .refused {}),
    (.attachLeaf default, .kept false)]

theorem accounts_reopened :
    ∃ b, Run reopened b ∧ b.numbers = [0, 1, 2] ∧ Accounts reopened b := by
  have h₁ := Run.new.step (s := .attach default) trivial rfl
  have h₂ := h₁.step (s := .push 0 none) rfl rfl
  have h₃ := h₂.step (s := .push 0 (some "Base")) rfl rfl
  have h₄ := h₃.step (s := .attachLeaf default) trivial rfl
  have h₅ := h₄.step (s := .pop) trivial rfl
  have h₆ := h₅.step (s := .push 1 none) rfl rfl
  have h₇ := h₆.step (s := .attach default) trivial rfl
  have h₈ := h₇.step (s := .pop) trivial rfl
  have h₉ := h₈.step (s := .pop) trivial rfl
  have h₁₀ := h₉.step (s := .pop) trivial rfl
  have h₁₁ := h₁₀.step (s := .attachLeaf default) trivial rfl
  exact ⟨_, h₁₁, rfl, Run.accounts h₁₁⟩

end RubyOutline.SymbolBuilder
