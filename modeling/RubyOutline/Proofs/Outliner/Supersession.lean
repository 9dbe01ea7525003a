/-
RubyOutline/Proofs/Outliner/Supersession.lean

Requests while other clients edit.  A request looks at the store twice and works on the snapshot
it saw first, so whatever happens in between it can only end in one of three ways, and the two
looks alone tell which (`handle_eq`).  It compares versions and not texts: a document that is
deleted and set again under its old version counts as unchanged.  If versions tell the texts of
the history apart, the text is then the old one as well.
-/
import RubyOutline.Proofs.DocumentStore.History
import RubyOutline.Service

namespace RubyOutline.Outliner

open DocumentStore

variable (o : Outliner) (parse : Source → ParseNode)

/-! ### Requests by what they see -/

theorem handle_of_none {store : DocumentStore} {uri : String} (h : store.get? uri = none)
    (grammar : Grammar) (edits : List Edit) :
    (o.handle grammar store uri edits).1 = .error (.notFound uri) := by
  have hbegin : begin store uri = .error (.notFound uri) := by
    unfold begin
    rw [h]
  unfold handle
  rw [hbegin]

/-- The answer for a snapshot, by the version that the second look finds. -/
theorem handle_of_some {store : DocumentStore} {uri : String} {d : Document}
    (h : store.get? uri = some d) (edits : List Edit) :
    (o.handle (.available parse) store uri edits).1 =
      if (store.applyAll edits).version? uri = some d.version then
        .ok (o.outline d (parse d.source))
      else .error (.superseded uri d.version ((store.applyAll edits).version? uri)) := by
  have huri : d.uri = uri := uri_of_get? h
  have hbegin : begin store uri = .ok d := by
    unfold begin
    rw [h]
  unfold handle
  rw [hbegin, ← huri]
  rfl

/-- A document that has just been stored is the one that is looked at, whatever else is there. -/
theorem handle_set (grammar : Grammar) (store : DocumentStore) (d : Document) (edits : List Edit) :
    o.handle grammar (store.set d) d.uri edits =
      match grammar with
      | .unavailable reason => (.error (.noGrammar reason), store.set d)
      | .available parse =>
        let after := (store.set d).applyAll edits
        (finish after (o.outline d (parse d.source)), after) := by
  have hbegin : begin (store.set d) d.uri = .ok d := by
    unfold begin
    rw [get?_set, if_pos rfl]
  unfold handle
  rw [hbegin]
  cases grammar <;> rfl

/-- An outline as a response: everything in it is of one snapshot. -/
theorem ofOutline_outline (d : Document) (root : ParseNode) :
    Response.ofOutline (o.outline d root) =
      ⟨d.uri, d.version,
        .ok (RubyOutline.outline o.table
            ((Converter.ofSource d.source o.encoding).convertTree root))
          (root.recoveries.map (·.message d.uri))⟩ := rfl

/-! ### The three endings -/

theorem handle_eq_notFound_iff (store : DocumentStore) (uri : String) (edits : List Edit) :
    (o.handle (.available parse) store uri edits).1 = .error (.notFound uri) ↔
      store.get? uri = none := by
  constructor
  · intro h
    cases hd : store.get? uri with
    | none => rfl
    | some d =>
      rw [o.handle_of_some parse hd] at h
      split at h <;> cases h
  · intro h
    exact o.handle_of_none h (.available parse) edits

theorem handle_eq_superseded_iff {store : DocumentStore} {uri : String} {d : Document}
    (hd : store.get? uri = some d) (edits : List Edit) (expected : Int) (actual : Option Int) :
    (o.handle (.available parse) store uri edits).1 = .error (.superseded uri expected actual) ↔
      expected = d.version ∧ actual = (store.applyAll edits).version? uri ∧
        actual ≠ some expected := by
  rw [o.handle_of_some parse hd]
  constructor
  · intro h
    split at h
    · cases h
    · rename_i hversion
      cases h
      exact ⟨rfl, rfl, hversion⟩
  · rintro ⟨rfl, rfl, hversion⟩
    rw [if_neg hversion]

/-- An outline that is given out is that of the snapshot, and the version was found again. -/
theorem exists_of_handle_eq_ok {store : DocumentStore} {uri : String} {edits : List Edit}
    {outline : DocumentOutline}
    (h : (o.handle (.available parse) store uri edits).1 = .ok outline) :
    ∃ d, store.get? uri = some d ∧ (store.applyAll edits).version? uri = some d.version ∧
      outline = o.outline d (parse d.source) := by
  cases hd : store.get? uri with
  | none =>
    rw [o.handle_of_none hd] at h
    cases h
  | some d =>
    rw [o.handle_of_some parse hd] at h
    split at h
    · rename_i hversion
      cases h
      exact ⟨d, rfl, hversion, rfl⟩
    · cases h

/-- A version that is found again stands for the text that is found. -/
theorem get?_applyAll_of_version? {store : DocumentStore} {uri : String} {d : Document}
    {edits : List Edit} (hversions : VersionsTell (store.documentsOf edits))
    (hd : store.get? uri = some d)
    (h : (store.applyAll edits).version? uri = some d.version) :
    (store.applyAll edits).get? uri = some d := by
  obtain ⟨now, hnow, hversion⟩ := Option.map_eq_some_iff.1 h
  have hmem : d ∈ store.documentsOf edits :=
    List.mem_append_left _ (mem_documents_of_get? hd)
  have huri : now.uri = d.uri := (uri_of_get? hnow).trans (uri_of_get? hd).symm
  have heq : now = d := hversions.eq (mem_documentsOf_of_get? hnow) hmem huri hversion
  rw [hnow, heq]

/-! ### All histories -/

def reopened : Document := ⟨"untitled:a.rb", .ofString "class A; end", 3⟩

/-- Another client closes a document and opens it again, with an older version in between. -/
def reopening : List Edit :=
  [.delete reopened.uri, .set ⟨"untitled:b.rb", .ofString "b", 3⟩, .clear,
    .set ⟨reopened.uri, .ofString "A", 2⟩, .set reopened]

/-- A grammar that takes every source for one stretch it cannot read. -/
def unreadable (s : Source) : ParseNode :=
  ⟨0, ⟨"ERROR", ⟨0, ⟨0, 0⟩, s.bytes.size, ⟨0, s.bytes.size⟩⟩, true, true, false, none⟩, []⟩

end RubyOutline.Outliner
