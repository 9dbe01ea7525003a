/-
RubyOutline/Proofs/Service/Interleaving.lean

Many calls for outlines of sources sent inline, taking turns on one store.  A call takes three
steps, each of them atomic: it stores its document, it looks what stands under its URI and outlines
that, and it looks again whether the version of what it outlined is still current
(`Clients.advance`).  In what order the calls take their steps is up to the threads they run in, so
a run is any list of turns (`Clients.run`).

What the calls do to the store is a history of edits, one for every call that takes its first turn
(`Clients.store_run`); and a call by itself passes through its stages whatever the others do in
between, so that a run can be cut at its turns (`Clients.run_eq_of_mem`).  A call whose first two
turns come together is the request of a service with the edits that the others make between its
two looks (`Clients.stage_run_eq_outlineSource`).
-/
import Mathlib.Logic.Function.Basic
import RubyOutline.Proofs.Outliner.Supersession

namespace RubyOutline

open DocumentStore

/-! ### The two halves of a request -/

/-- A request up to its second look at the store: the outline of the snapshot it saw first. -/
def Outliner.look (o : Outliner) (grammar : Grammar) (store : DocumentStore) (uri : String) :
    Except OutlineError DocumentOutline :=
  match begin store uri, grammar with
  | .error e, _ => .error e
  | .ok _, .unavailable reason => .error (.noGrammar reason)
  | .ok d, .available parse => .ok (o.outline d (parse d.source))

theorem Outliner.handle_eq_look (o : Outliner) (grammar : Grammar) (store : DocumentStore)
    (uri : String) (edits : List Edit) :
    (o.handle grammar store uri edits).1 =
      (o.look grammar store uri).bind fun outline => finish (store.applyAll edits) outline := by
  unfold handle look
  cases begin store uri with
  | error e => rfl
  | ok d => cases grammar <;> rfl

theorem Outliner.look_of_get? (o : Outliner) (parse : Source → ParseNode) {store : DocumentStore}
    {uri : String} {d : Document} (h : store.get? uri = some d) :
    o.look (.available parse) store uri = .ok (o.outline d (parse d.source)) := by
  unfold look begin
  rw [h]

/-! ### Calls that take turns -/

/-- How far a call has come. -/
inductive CallStage
  | sent
  | stored
  /-- The call has looked at the store once and outlined what it saw. -/
  | outlined (outline : DocumentOutline)
  | answered (response : Response)

/-- Clients of one service, each with a document to be outlined. -/
structure Clients (ι : Type) where
  outliner : Outliner
  grammar : Grammar
  sent : ι → Document

/-- A store with the calls that run on it. -/
structure CallState (ι : Type) where
  store : DocumentStore
  stage : ι → CallStage

namespace Clients

/-- The next step of the call for a document, with what it makes of the store. -/
def advance {ι : Type} (c : Clients ι) (d : Document) (store : DocumentStore) :
    CallStage → DocumentStore × CallStage
  | .sent => (store.set d, .stored)
  | .stored =>
    match c.outliner.look c.grammar store d.uri with
    | .ok outline => (store, .outlined outline)
    | .error e => (store, .answered (.ofResult d.uri d.version (.error e)))
  | .outlined outline =>
    (store, .answered (.ofResult d.uri d.version (Outliner.finish store outline)))
  | .answered response => (store, .answered response)

variable {ι : Type} [DecidableEq ι] (c : Clients ι)

/-- The turn of one call. -/
def step (s : CallState ι) (i : ι) : CallState ι where
  store := (c.advance (c.sent i) s.store (s.stage i)).1
  stage := Function.update s.stage i (c.advance (c.sent i) s.store (s.stage i)).2

/-- The calls take their turns one after the other. -/
def run (s : CallState ι) (turns : List ι) : CallState ι := turns.foldl c.step s

/-- All calls have been sent, and none has done anything yet. -/
def start (store : DocumentStore) : CallState ι := ⟨store, fun _ => .sent⟩

variable {c} {s : CallState ι} {i j : ι} {turns : List ι}

theorem run_cons (s : CallState ι) (i : ι) (turns : List ι) :
    c.run s (i :: turns) = c.run (c.step s i) turns := rfl

theorem run_append (s : CallState ι) (turns rest : List ι) :
    c.run s (turns ++ rest) = c.run (c.run s turns) rest := List.foldl_append

/-! ### One turn -/

theorem stage_step_of_ne (h : j ≠ i) : (c.step s i).stage j = s.stage j :=
  Function.update_of_ne h _ _

theorem stage_step_self :
    (c.step s i).stage i = (c.advance (c.sent i) s.store (s.stage i)).2 :=
  Function.update_self i _ _

theorem step_of_sent (h : s.stage i = .sent) :
    (c.step s i).store = s.store.set (c.sent i) ∧ (c.step s i).stage i = .stored := by
  rw [stage_step_self, h]
  simp only [step, h]
  exact ⟨rfl, rfl⟩

/-- Only the first turn of a call changes the store. -/
theorem store_step_of_ne (h : s.stage i ≠ .sent) : (c.step s i).store = s.store := by
  rw [step]
  cases hstage : s.stage i with
  | sent => exact absurd hstage h
  | stored =>
    simp only [advance]
    split <;> rfl
  | outlined outline => rfl
  | answered response => rfl

theorem stage_step_ne_sent : (c.step s i).stage i ≠ .sent := by
  rw [stage_step_self]
  cases s.stage i with
  | stored =>
    simp only [advance]
    split <;> simp
  | _ => simp [advance]

theorem stage_step_of_answered {response : Response} (h : s.stage i = .answered response) :
    (c.step s i).stage i = .answered response := by
  rw [stage_step_self, h]
  rfl

theorem stage_step_eq_sent_iff : (c.step s i).stage j = .sent ↔ j ≠ i ∧ s.stage j = .sent := by
  by_cases h : j = i
  · obtain rfl := h
    simp [stage_step_ne_sent]
  · simp [h, stage_step_of_ne h]

/-! ### What the calls do to the store -/

/-- The edits that the calls make in a run. -/
def edits (c : Clients ι) (s : CallState ι) : List ι → List Edit
  | [] => []
  | i :: turns =>
    match s.stage i with
    | .sent => .set (c.sent i) :: edits c (c.step s i) turns
    | _ => edits c (c.step s i) turns

/-- **A run is a history of the store**: what other clients see of it are its edits. -/
theorem store_run (s : CallState ι) (turns : List ι) :
    (c.run s turns).store = s.store.applyAll (c.edits s turns) := by
  induction turns generalizing s with
  | nil => rfl
  | cons i turns ih =>
    rw [run_cons, ih, edits]
    split
    · rename_i hsent
      rw [(step_of_sent hsent).1]
      rfl
    · rename_i hsent
      rw [store_step_of_ne hsent]

/-- Every call that has not stored its document yet stores it at its next turn. -/
theorem mem_edits {e : Edit} :
    e ∈ c.edits s turns ↔ ∃ i ∈ turns, s.stage i = .sent ∧ e = .set (c.sent i) := by
  induction turns generalizing s with
  | nil => simp [edits]
  | cons k turns ih =>
    have hrest : e ∈ c.edits (c.step s k) turns ↔
        ∃ i ∈ turns, (i ≠ k ∧ s.stage i = .sent) ∧ e = .set (c.sent i) := by
      rw [ih]
      simp only [stage_step_eq_sent_iff]
    rw [edits]
    split
    · rename_i hsent
      rw [List.mem_cons, hrest]
      constructor
      · rintro (he | ⟨i, hi, ⟨_, hstage⟩, he⟩)
        · exact ⟨k, List.mem_cons_self, hsent, he⟩
        · exact ⟨i, List.mem_cons_of_mem _ hi, hstage, he⟩
      · rintro ⟨i, hi, hstage, he⟩
        by_cases hik : i = k
        · exact .inl (hik ▸ he)
        · exact .inr ⟨i, List.mem_of_ne_of_mem hik hi, ⟨hik, hstage⟩, he⟩
    · rename_i hsent
      rw [hrest]
      constructor
      · rintro ⟨i, hi, ⟨_, hstage⟩, he⟩
        exact ⟨i, List.mem_cons_of_mem _ hi, hstage, he⟩
      · rintro ⟨i, hi, hstage, he⟩
        have hik : i ≠ k := fun h => hsent (h ▸ hstage)
        exact ⟨i, List.mem_of_ne_of_mem hik hi, ⟨hik, hstage⟩, he⟩

/-- What a URI reads after a run was stored by one of the calls that had not stored yet, or stood
there before and none of these calls was on the URI. -/
theorem get?_run_cases (s : CallState ι) (turns : List ι) (uri : String) :
    (∃ j ∈ turns, s.stage j = .sent ∧ (c.sent j).uri = uri ∧
      (c.run s turns).store.get? uri = some (c.sent j)) ∨
    ((∀ j ∈ turns, s.stage j = .sent → (c.sent j).uri ≠ uri) ∧
      (c.run s turns).store.get? uri = s.store.get? uri) := by
  rw [store_run, get?_applyAll]
  cases hlast : (c.edits s turns).reverse.findSome? (·.settles? uri) with
  | none =>
    refine .inr ⟨fun j hj hstage huri => ?_, rfl⟩
    have hmem : Edit.set (c.sent j) ∈ (c.edits s turns).reverse :=
      List.mem_reverse.2 (mem_edits.2 ⟨j, hj, hstage, rfl⟩)
    have hnone := List.findSome?_eq_none_iff.1 hlast _ hmem
    simp [Edit.settles?, huri] at hnone
  | some found =>
    obtain ⟨e, he, hsettles⟩ := List.exists_of_findSome?_eq_some hlast
    obtain ⟨j, hj, hstage, rfl⟩ := mem_edits.1 (List.mem_reverse.1 he)
    simp only [Edit.settles?, Option.ite_none_right_eq_some, Option.some.injEq] at hsettles
    obtain ⟨huri, rfl⟩ := hsettles
    exact .inl ⟨j, hj, hstage, huri.symm, rfl⟩

/-! ### The turns of one call -/

/-- The turns before the first turn of a call. -/
def turnsBefore (i : ι) (turns : List ι) : List ι := turns.takeWhile (· != i)

/-- The turns after the first turn of a call. -/
def turnsAfter (i : ι) (turns : List ι) : List ι := (turns.dropWhile (· != i)).tail

theorem not_mem_turnsBefore : i ∉ turnsBefore i turns := by
  induction turns with
  | nil => exact List.not_mem_nil
  | cons k turns ih =>
    by_cases hk : k = i
    · simp [turnsBefore, hk]
    · simpa [turnsBefore, hk, Ne.symm hk] using ih

theorem turns_eq_of_mem (h : i ∈ turns) :
    turns = turnsBefore i turns ++ i :: turnsAfter i turns := by
  induction turns with
  | nil => cases h
  | cons k turns ih =>
    by_cases hk : k = i
    · simp [turnsBefore, turnsAfter, hk]
    · have := ih (List.mem_of_ne_of_mem (Ne.symm hk) h)
      simpa [turnsBefore, turnsAfter, hk] using this

theorem mem_of_mem_turnsBefore (h : j ∈ turnsBefore i turns) : j ∈ turns :=
  (List.takeWhile_sublist _).mem h

theorem mem_of_mem_turnsAfter (h : j ∈ turnsAfter i turns) : j ∈ turns :=
  (List.dropWhile_sublist _).mem (List.mem_of_mem_tail h)

theorem stage_run_of_not_mem (h : i ∉ turns) : (c.run s turns).stage i = s.stage i := by
  induction turns generalizing s with
  | nil => rfl
  | cons k turns ih =>
    have hik : i ≠ k := fun hik => h (hik ▸ List.mem_cons_self)
    rw [run_cons, ih fun hi => h (List.mem_cons_of_mem _ hi), stage_step_of_ne hik]

theorem stage_run_eq_sent_iff :
    (c.run s turns).stage j = .sent ↔ j ∉ turns ∧ s.stage j = .sent := by
  induction turns generalizing s with
  | nil => simp [run]
  | cons k turns ih =>
    rw [run_cons, ih, stage_step_eq_sent_iff, List.mem_cons, not_or]
    constructor
    · rintro ⟨hturns, hk, hstage⟩
      exact ⟨⟨hk, hturns⟩, hstage⟩
    · rintro ⟨⟨hk, hturns⟩, hstage⟩
      exact ⟨hturns, hk, hstage⟩

/-- A run cut at the first turn of a call, which until then is where it was. -/
theorem run_eq_of_mem (s : CallState ι) (h : i ∈ turns) :
    c.run s turns = c.run (c.step (c.run s (turnsBefore i turns)) i) (turnsAfter i turns) ∧
      (c.run s (turnsBefore i turns)).stage i = s.stage i := by
  have hcut : c.run s turns = c.run s (turnsBefore i turns ++ i :: turnsAfter i turns) :=
    congrArg _ (turns_eq_of_mem h)
  refine ⟨?_, stage_run_of_not_mem not_mem_turnsBefore⟩
  rw [hcut, run_append, run_cons]

/-- An answer is final. -/
theorem stage_run_of_answered {response : Response} (h : s.stage i = .answered response) :
    (c.run s turns).stage i = .answered response := by
  induction turns generalizing s with
  | nil => exact h
  | cons k turns ih =>
    rw [run_cons]
    refine ih ?_
    by_cases hik : i = k
    · rw [← hik]
      exact stage_step_of_answered h
    · rw [stage_step_of_ne hik, h]

/-- **A call whose first two turns come together is a request of the service**, with the edits that
the others make between its two looks at the store. -/
theorem stage_run_eq_outlineSource (service : Service) (ho : c.outliner = service.outliner)
    (hstore₀ : service.store = s.store) (hi : s.stage i = .sent) (hturns : i ∉ turns) :
    (c.run s (i :: i :: (turns ++ [i]))).stage i =
      .answered (service.outlineSource c.grammar (c.sent i)
        (c.edits (c.step (c.step s i) i) turns)).1 := by
  obtain ⟨hstore, hstored⟩ := c.step_of_sent hi
  have hstore' : (c.step (c.step s i) i).store = s.store.set (c.sent i) := by
    rw [store_step_of_ne (by simp [hstored]), hstore]
  have hstage : (c.step (c.step s i) i).stage i =
      (c.advance (c.sent i) (s.store.set (c.sent i)) .stored).2 := by
    rw [stage_step_self, hstored, hstore]
  have hlater : (c.run (c.step (c.step s i) i) turns).store =
      (s.store.set (c.sent i)).applyAll (c.edits (c.step (c.step s i) i) turns) := by
    rw [store_run, hstore']
  have hresponse : (service.outlineSource c.grammar (c.sent i)
      (c.edits (c.step (c.step s i) i) turns)).1 =
      .ofResult (c.sent i).uri (c.sent i).version
        ((c.outliner.look c.grammar (s.store.set (c.sent i)) (c.sent i).uri).bind
          fun outline => Outliner.finish (c.run (c.step (c.step s i) i) turns).store outline) := by
    rw [hlater, ← Outliner.handle_eq_look, ho, ← hstore₀]
    rfl
  rw [hresponse, run_cons, run_cons, run_append, run_cons]
  show (c.step (c.run (c.step (c.step s i) i) turns) i).stage i = _
  rw [stage_step_self, stage_run_of_not_mem hturns, hstage, advance]
  cases c.outliner.look c.grammar (s.store.set (c.sent i)) (c.sent i).uri with
  | ok outline => rfl
  | error e => rfl

end Clients

end RubyOutline
