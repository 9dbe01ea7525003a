/-
RubyOutline/Proofs/Service/Answers.lean

Which document a call is answered for.  A call gets its answer with its third turn, or with its
second if there is no grammar (`Clients.turnsLeft_run`).  It works on what it sees at its second
turn, which need not be what it stored at its first: in between another call on the same URI may
have stored its own document, and then the call is answered for that one, with nothing in its answer
to say so (`Clients.answered_forOther_oneUri`).  If no other document is stored under its URI
between these two turns, its answer is for its own document (`Clients.answersFor_own`).
-/
import RubyOutline.Proofs.Conversion.Evaluation
import RubyOutline.Proofs.Service.Interleaving

namespace RubyOutline

open DocumentStore

/-- A response is for a document: it is the outline of the document, or it says that another
version has taken the document's place. -/
def AnswersFor (o : Outliner) (parse : Source → ParseNode) (d : Document) (r : Response) : Prop :=
  r = .ofOutline (o.outline d (parse d.source)) ∨
    ∃ actual, actual ≠ some d.version ∧
      r = ⟨d.uri, d.version, .superseded (OutlineError.superseded d.uri d.version actual).message⟩

/-- The turns that a call still needs, at most. -/
def CallStage.turnsLeft : CallStage → Nat
  | .sent => 3
  | .stored => 2
  | .outlined _ => 1
  | .answered _ => 0

namespace Clients

variable {ι : Type} [DecidableEq ι] {c : Clients ι} {s : CallState ι} {i j : ι} {turns : List ι}
variable {parse : Source → ParseNode} {d : Document} {r : Response}

/-! ### Getting an answer -/

theorem turnsLeft_step_self :
    ((c.step s i).stage i).turnsLeft ≤ (s.stage i).turnsLeft - 1 := by
  rw [stage_step_self]
  cases s.stage i with
  | stored =>
    simp only [advance]
    split <;> simp [CallStage.turnsLeft]
  | _ => simp [advance, CallStage.turnsLeft]

/-- Every turn of a call brings it nearer to its answer. -/
theorem turnsLeft_run (s : CallState ι) (turns : List ι) :
    ((c.run s turns).stage i).turnsLeft ≤ (s.stage i).turnsLeft - turns.count i := by
  induction turns generalizing s with
  | nil => simp [run]
  | cons k turns ih =>
    have hrest := ih (c.step s k)
    by_cases hk : k = i
    · obtain rfl := hk
      have hstep := turnsLeft_step_self (c := c) (s := s) (i := k)
      rw [run_cons, List.count_cons_self]
      omega
    · rw [stage_step_of_ne (Ne.symm hk)] at hrest
      rw [run_cons, List.count_cons_of_ne hk]
      exact hrest

/-- After three turns a call has its answer. -/
theorem exists_answered (s : CallState ι) (h : 3 ≤ turns.count i) :
    ∃ r, (c.run s turns).stage i = .answered r := by
  have hleft := turnsLeft_run (c := c) (i := i) s turns
  have hstart : (s.stage i).turnsLeft ≤ 3 := by cases s.stage i <;> simp [CallStage.turnsLeft]
  cases hstage : (c.run s turns).stage i with
  | answered r => exact ⟨r, rfl⟩
  | sent | stored | outlined outline =>
    rw [hstage, CallStage.turnsLeft] at hleft
    omega

/-! ### Answers by what a call sees -/

/-- The response to a call whose second look is at the given store. -/
theorem ofResult_finish {uri : String} (huri : d.uri = uri) (version : Int) (o : Outliner)
    (root : ParseNode) (store : DocumentStore) :
    Response.ofResult uri version (Outliner.finish store (o.outline d root)) =
      if store.version? uri = some d.version then .ofOutline (o.outline d root)
      else ⟨d.uri, d.version, .superseded
        (OutlineError.superseded d.uri d.version (store.version? uri)).message⟩ := by
  obtain rfl := huri
  have hfinish : Outliner.finish store (o.outline d root) =
      if store.version? d.uri = some d.version then .ok (o.outline d root)
      else .error (.superseded d.uri d.version (store.version? d.uri)) := rfl
  rw [hfinish]
  by_cases hversion : store.version? d.uri = some d.version
  · rw [if_pos hversion, if_pos hversion]
    rfl
  · rw [if_neg hversion, if_neg hversion]
    rfl

/-- A call that has looked once is answered with its next turn. -/
theorem answered_of_outlined {outline : DocumentOutline} (hstage : s.stage i = .outlined outline)
    (hr : (c.run s turns).stage i = .answered r) :
    r = .ofResult (c.sent i).uri (c.sent i).version
      (Outliner.finish (c.run s (turnsBefore i turns)).store outline) := by
  have hmem : i ∈ turns := by
    by_contra hmem
    rw [stage_run_of_not_mem hmem, hstage] at hr
    cases hr
  obtain ⟨hrun, hbefore⟩ := run_eq_of_mem (c := c) s hmem
  rw [hstage] at hbefore
  have hanswered : (c.step (c.run s (turnsBefore i turns)) i).stage i =
      .answered (.ofResult (c.sent i).uri (c.sent i).version
        (Outliner.finish (c.run s (turnsBefore i turns)).store outline)) := by
    rw [stage_step_self, hbefore, advance]
  rw [hrun, stage_run_of_answered hanswered] at hr
  exact (CallStage.answered.inj hr).symm

/-- A call that has stored its document is answered for what it sees at its next turn. -/
theorem answered_of_stored (hgrammar : c.grammar = .available parse) (hstage : s.stage i = .stored)
    (hd : (c.run s (turnsBefore i turns)).store.get? (c.sent i).uri = some d)
    (hr : (c.run s turns).stage i = .answered r) :
    let looked := c.step (c.run s (turnsBefore i turns)) i
    looked.store = (c.run s (turnsBefore i turns)).store ∧
    r = .ofResult (c.sent i).uri (c.sent i).version
      (Outliner.finish (c.run looked (turnsBefore i (turnsAfter i turns))).store
        (c.outliner.outline d (parse d.source))) := by
  intro looked
  have hmem : i ∈ turns := by
    by_contra hmem
    rw [stage_run_of_not_mem hmem, hstage] at hr
    cases hr
  obtain ⟨hrun, hbefore⟩ := run_eq_of_mem (c := c) s hmem
  rw [hstage] at hbefore
  have hlooked : looked.stage i = .outlined (c.outliner.outline d (parse d.source)) := by
    rw [stage_step_self, hbefore, advance, hgrammar, Outliner.look_of_get? _ _ hd]
  have hstore : looked.store = (c.run s (turnsBefore i turns)).store :=
    store_step_of_ne (by simp [hbefore])
  rw [hrun] at hr
  exact ⟨hstore, answered_of_outlined hlooked hr⟩

theorem answersFor_of_get? (hgrammar : c.grammar = .available parse) (hstage : s.stage i = .stored)
    (hd : (c.run s (turnsBefore i turns)).store.get? (c.sent i).uri = some d)
    (hr : (c.run s turns).stage i = .answered r) : AnswersFor c.outliner parse d r := by
  rw [(answered_of_stored hgrammar hstage hd hr).2, ofResult_finish (uri_of_get? hd)]
  split
  · exact .inl rfl
  · rename_i hversion
    exact .inr ⟨_, hversion, rfl⟩

/-! ### Runs from the start -/

/-- The first turn of a call, in a run from the start. -/
theorem exists_stored_of_answered {store : DocumentStore}
    (hr : (c.run (start store) turns).stage i = .answered r) :
    let stored := c.step (c.run (start store) (turnsBefore i turns)) i
    i ∈ turns ∧ c.run (start store) turns = c.run stored (turnsAfter i turns) ∧
      stored.stage i = .stored ∧ stored.store.get? (c.sent i).uri = some (c.sent i) ∧
      ∀ j, stored.stage j = .sent ↔ j ∉ turnsBefore i turns ∧ j ≠ i := by
  intro stored
  have hmem : i ∈ turns := by
    by_contra hmem
    rw [stage_run_of_not_mem hmem] at hr
    cases hr
  obtain ⟨hrun, hbefore⟩ := run_eq_of_mem (c := c) (start store) hmem
  obtain ⟨hstore, hstage⟩ := c.step_of_sent hbefore
  refine ⟨hmem, hrun, hstage, ?_, fun j => ?_⟩
  · rw [hstore, get?_set, if_pos rfl]
  · rw [stage_step_eq_sent_iff, stage_run_eq_sent_iff]
    simp [start, and_comm]

/-- Between the first turn of a call and its second, no call stores another document under its
URI. -/
def Undisturbed (c : Clients ι) (turns : List ι) (i : ι) : Prop :=
  ∀ j ∈ turnsBefore i (turnsAfter i turns), j ∉ turnsBefore i turns →
    (c.sent j).uri = (c.sent i).uri → c.sent j = c.sent i

instance (c : Clients ι) (turns : List ι) (i : ι) : Decidable (c.Undisturbed turns i) :=
  inferInstanceAs (Decidable (∀ j ∈ turnsBefore i (turnsAfter i turns), _ → _ → _))

/-- **A call is answered for what stands under its URI at its second turn**, which is a document
that some call on the URI has sent; and for its own document if no other one is stored there in the
meantime.  Then its answer is the outline of its own text under its own version, or it ends as
superseded.  Every call that takes three turns is answered. -/
theorem answersFor_own (c : Clients ι) (hgrammar : c.grammar = .available parse)
    (store : DocumentStore) (turns : List ι) (i : ι) :
    (3 ≤ turns.count i → ∃ r, (c.run (start store) turns).stage i = .answered r) ∧
    ∀ r, (c.run (start store) turns).stage i = .answered r →
      (∃ j ∈ turns, (c.sent j).uri = (c.sent i).uri ∧
        AnswersFor c.outliner parse (c.sent j) r) ∧
      (c.Undisturbed turns i → AnswersFor c.outliner parse (c.sent i) r) := by
  refine ⟨exists_answered _, fun r hr => ?_⟩
  obtain ⟨hmem, hrun, hstage, hown, hsent⟩ := exists_stored_of_answered hr
  rw [hrun] at hr
  have hlater : ∀ {j}, j ∈ turnsBefore i (turnsAfter i turns) → j ∈ turns := fun hj =>
    mem_of_mem_turnsAfter (mem_of_mem_turnsBefore hj)
  rcases get?_run_cases (c := c) (c.step (c.run (start store) (turnsBefore i turns)) i)
    (turnsBefore i (turnsAfter i turns)) (c.sent i).uri with
    ⟨j, hj, hjsent, huri, hd⟩ | ⟨_, hd⟩
  · -- another call has stored its document by then
    have hanswer := answersFor_of_get? hgrammar hstage hd hr
    refine ⟨⟨j, hlater hj, huri, hanswer⟩, fun h => ?_⟩
    rw [← h j hj ((hsent j).1 hjsent).1 huri]
    exact hanswer
  · rw [hown] at hd
    have hanswer := answersFor_of_get? hgrammar hstage hd hr
    exact ⟨⟨i, hmem, rfl, hanswer⟩, fun _ => hanswer⟩

/-- The parse tree of `class A; end`, and of every other class with a name of one letter. -/
def classOnOneLine : ParseNode :=
  let token (id : Nat) (kind : String) (start stop : Nat) : ParseNode :=
    ⟨id, ⟨kind, ⟨start, ⟨0, start⟩, stop, ⟨0, stop⟩⟩, false, false, false, none⟩, []⟩
  .inLine 0 "program" 0 12 none
    [.inLine 1 "class" 0 12 none
      [token 2 "class" 0 5, .inLine 3 "constant" 6 7 (some "name") [], token 4 ";" 7 8,
       token 5 "end" 9 12]]

/-- Three clients, two of them with the URI and the version that calls have by default. -/
def byDefault : Clients (Fin 3) where
  outliner := ⟨.utf16, .rails⟩
  grammar := .available fun _ => classOnOneLine
  sent
    | 0 => ⟨"untitled:source.rb", .ofString "class A; end", 1⟩
    | 1 => ⟨"untitled:source.rb", .ofString "class B; end", 1⟩
    | 2 => ⟨"untitled:other.rb", .ofString "class C; end", 1⟩

/-- The text is replaced under its version after the first look, and another document is stored
before it. -/
theorem answersFor_own_byDefault :
    let turns : List (Fin 3) := [0, 2, 0, 1, 0, 2, 1, 2, 1]
    3 ≤ turns.count 0 ∧ byDefault.Undisturbed turns 0 ∧
    ∃ r, (byDefault.run (start .empty) turns).stage 0 = .answered r ∧
      AnswersFor byDefault.outliner (fun _ => classOnOneLine) (byDefault.sent 0) r := by
  intro turns
  have hcount : 3 ≤ turns.count 0 := by decide
  have hundisturbed : byDefault.Undisturbed turns 0 := by decide
  obtain ⟨hends, hanswers⟩ := byDefault.answersFor_own rfl .empty turns 0
  obtain ⟨r, hr⟩ := hends hcount
  exact ⟨hcount, hundisturbed, r, hr, (hanswers r hr).2 hundisturbed⟩

/-- Two clients with different versions of one document. -/
def oneUri : Clients (Fin 2) where
  outliner := ⟨.utf16, .rails⟩
  grammar := .available fun _ => classOnOneLine
  sent
    | 0 => ⟨"untitled:source.rb", .ofString "class A; end", 1⟩
    | 1 => ⟨"untitled:source.rb", .ofString "class B; end", 2⟩

/-- The names of the outline that a client would get if it were alone. -/
theorem names_outline_oneUri (i : Fin 2) :
    (oneUri.outliner.outline (oneUri.sent i) classOnOneLine).symbols.map (·.info.name) =
      if i = 0 then ["A"] else ["B"] := by
  have hids : classOnOneLine.DistinctIds := by decide
  simp only [Outliner.outline]
  rw [Converter.outline_convertTree_eq _ _ 6 hids (by decide)]
  revert i
  decide

/-- Both store before the first one looks: it is answered with the outline and the version of the
second, and nothing says so. -/
theorem answered_forOther_oneUri :
    let final := oneUri.run (start .empty) [0, 1, 0, 0, 1, 1]
    ∃ r, final.stage 0 = .answered r ∧ r.status = "ok" ∧
      r.version ≠ (oneUri.sent 0).version ∧ r.symbols.map (·.info.name) = ["B"] ∧
      (oneUri.outliner.outline (oneUri.sent 0) classOnOneLine).symbols.map (·.info.name) =
        ["A"] := by
  intro final
  have hanswer : final.stage 0 =
      .answered (.ofOutline (oneUri.outliner.outline (oneUri.sent 1) classOnOneLine)) := rfl
  exact ⟨_, hanswer, rfl, by decide, names_outline_oneUri 1, names_outline_oneUri 0⟩

end Clients

end RubyOutline
