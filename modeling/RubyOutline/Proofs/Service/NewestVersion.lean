/-
RubyOutline/Proofs/Service/NewestVersion.lean

When the newest of several versions wins.  Storing a document puts it in the place of whatever stood
under its URI, be that older or newer, and the second look of a call only asks whether the version
is still the same.  So after calls on one URI the store holds the document that came last, which is
the newest exactly if the call that sent it was the last one to store; and that call is then
answered with its outline (`Clients.get?_newest_iff`).  An older version that is stored late takes
the place of the newest, and takes the newest its answer as well
(`Clients.newest_superseded_oneUri`).
-/
import RubyOutline.Proofs.Service.Answers

namespace RubyOutline.Clients

open DocumentStore

variable {ι : Type} [DecidableEq ι] {c : Clients ι} {s : CallState ι} {i g : ι} {turns : List ι}
variable {parse : Source → ParseNode} {r : Response}

/-- Every other call of a run has its first turn before the first turn of the call. -/
def StoresLast (turns : List ι) (g : ι) : Prop := ∀ j ∈ turns, j ≠ g → j ∈ turnsBefore g turns

instance (turns : List ι) (g : ι) : Decidable (StoresLast turns g) :=
  inferInstanceAs (Decidable (∀ j ∈ turns, j ≠ g → j ∈ turnsBefore g turns))

/-- Where nothing more is stored, everything stays as it is. -/
theorem get?_run_of_all_stored (h : ∀ j ∈ turns, s.stage j ≠ .sent) (uri : String) :
    (c.run s turns).store.get? uri = s.store.get? uri := by
  rcases get?_run_cases (c := c) s turns uri with ⟨j, hj, hstage, _⟩ | ⟨_, hd⟩
  · exact absurd hstage (h j hj)
  · exact hd

/-- A call that sees its own document in both looks is answered with its outline. -/
theorem answered_of_all_stored (hgrammar : c.grammar = .available parse)
    (hstage : s.stage i = .stored) (hown : s.store.get? (c.sent i).uri = some (c.sent i))
    (h : ∀ j ∈ turns, s.stage j ≠ .sent) (hr : (c.run s turns).stage i = .answered r) :
    r = .ofOutline (c.outliner.outline (c.sent i) (parse (c.sent i).source)) := by
  have hfirst : (c.run s (turnsBefore i turns)).store.get? (c.sent i).uri = some (c.sent i) := by
    rw [get?_run_of_all_stored fun j hj => h j (mem_of_mem_turnsBefore hj), hown]
  obtain ⟨hlooked, hanswer⟩ := answered_of_stored hgrammar hstage hfirst hr
  have hsecond : (c.run (c.step (c.run s (turnsBefore i turns)) i)
      (turnsBefore i (turnsAfter i turns))).store.get? (c.sent i).uri = some (c.sent i) := by
    rw [get?_run_of_all_stored, hlooked, hfirst]
    intro j hj hjstage
    have hj : j ∈ turns := mem_of_mem_turnsAfter (mem_of_mem_turnsBefore hj)
    exact h j hj (stage_run_eq_sent_iff.1 (stage_step_eq_sent_iff.1 hjstage).2).2
  rw [hanswer, ofResult_finish rfl, if_pos]
  rw [version?, hsecond, Option.map_some]

/-- **The newest version stays exactly if it is stored last.**  After calls on one URI that have all
been answered, the document of the greatest version stands in the store if and only if every other
call stored its document before; and then the call with the greatest version is answered with its
own outline. -/
theorem get?_newest_iff (c : Clients ι) (hgrammar : c.grammar = .available parse)
    (store : DocumentStore) {uri : String} (huri : ∀ i, (c.sent i).uri = uri) (turns : List ι)
    (hturns : ∀ i, 3 ≤ turns.count i) {g : ι}
    (hg : ∀ i, i ≠ g → (c.sent i).version < (c.sent g).version) :
    ((c.run (start store) turns).store.get? uri = some (c.sent g) ↔ StoresLast turns g) ∧
    (StoresLast turns g → (c.run (start store) turns).stage g =
      .answered (.ofOutline (c.outliner.outline (c.sent g) (parse (c.sent g).source)))) := by
  obtain ⟨r, hr⟩ := exists_answered (start store) (hturns g) (c := c)
  obtain ⟨_, hrun, hstage, hown, hsent⟩ := exists_stored_of_answered hr
  have hall : StoresLast turns g → ∀ j ∈ turnsAfter g turns,
      (c.step (c.run (start store) (turnsBefore g turns)) g).stage j ≠ .sent := by
    intro hlast j hj hjsent
    obtain ⟨hnot, hne⟩ := (hsent j).1 hjsent
    exact hnot (hlast j (mem_of_mem_turnsAfter hj) hne)
  refine ⟨⟨fun hget j hj hne => ?_, fun hlast => ?_⟩, fun hlast => ?_⟩
  · -- a call that stored later would have left an older version
    by_contra hnot
    rw [hrun] at hget
    have hlater : j ∈ turnsAfter g turns := by
      rw [turns_eq_of_mem (List.count_pos_iff.1 (Nat.lt_of_lt_of_le (by decide) (hturns g)))] at hj
      rcases List.mem_append.1 hj with hj | hj
      · exact absurd hj hnot
      · exact List.mem_of_ne_of_mem hne hj
    rcases get?_run_cases (c := c) _ (turnsAfter g turns) uri with
      ⟨k, _, hksent, _, hk⟩ | ⟨hnone, _⟩
    · have hkg : c.sent g = c.sent k := Option.some.inj (hget.symm.trans hk)
      have hlt := hg k ((hsent k).1 hksent).2
      rw [hkg] at hlt
      exact absurd hlt (Int.lt_irrefl _)
    · exact hnone j hlater ((hsent j).2 ⟨hnot, hne⟩) (huri j)
  · rw [hrun, get?_run_of_all_stored (hall hlast), ← huri g, hown]
  · rw [hr]
    rw [hrun] at hr
    rw [answered_of_all_stored hgrammar hstage hown (hall hlast) hr]

theorem get?_newest_iff_oneUri :
    let turns : List (Fin 2) := [0, 0, 1, 0, 1, 1]
    (∀ i, 3 ≤ turns.count i) ∧ StoresLast turns 1 ∧
    (oneUri.run (start .empty) turns).store.get? "untitled:source.rb" = some (oneUri.sent 1) ∧
    (oneUri.run (start .empty) turns).stage 1 =
      .answered (.ofOutline (oneUri.outliner.outline (oneUri.sent 1) classOnOneLine)) := by
  intro turns
  have hturns : ∀ i, 3 ≤ turns.count i := by decide
  have hlast : StoresLast turns 1 := by decide
  have hnewest : ∀ i : Fin 2, i ≠ 1 → (oneUri.sent i).version < (oneUri.sent 1).version := by
    decide
  have huri : ∀ i, (oneUri.sent i).uri = "untitled:source.rb" := by decide
  obtain ⟨hget, hanswered⟩ := oneUri.get?_newest_iff rfl .empty huri turns hturns hnewest
  exact ⟨hturns, hlast, hget.2 hlast, hanswered hlast⟩

/-- The older version is stored while the newer one is outlined: the newer one is superseded, and
the older one stays. -/
theorem newest_superseded_oneUri :
    let final := oneUri.run (start .empty) [1, 1, 0, 1, 0, 0]
    DocumentStore.empty.get? "untitled:source.rb" = none ∧
    (oneUri.sent 0).version < (oneUri.sent 1).version ∧
    (∃ r, final.stage 0 = .answered r) ∧
    final.store.get? "untitled:source.rb" = some (oneUri.sent 0) ∧
    ∃ r, final.stage 1 = .answered r ∧ r.status = "superseded" ∧ r.version = 2 ∧
      r.message =
        some "Document untitled:source.rb superseded: expected version 2, found 1" := by
  intro final
  have hcount : 3 ≤ [1, 1, 0, 1, 0, 0].count (0 : Fin 2) := by decide
  have hanswer : final.stage 1 =
      .answered ⟨"untitled:source.rb", 2, .superseded
        (OutlineError.superseded "untitled:source.rb" 2 (some 1)).message⟩ := rfl
  exact ⟨rfl, by decide, exists_answered _ hcount, rfl, _, hanswer, rfl, rfl, by decide⟩

end RubyOutline.Clients
