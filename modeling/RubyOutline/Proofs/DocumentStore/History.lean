/-
RubyOutline/Proofs/DocumentStore/History.lean

What a store reads after a history of edits.  An edit settles what its URI reads, and leaves the
other URIs alone; clearing the store settles all of them (`Edit.settles?`).  So what is read after
many edits is what the last of them settles, and what was read before if none does
(`get?_applyAll`).  Whatever is read has stood in the store before or was set in the history
(`mem_documentsOf_of_get?`).

Versions are the clients' own: nothing keeps a client from setting another text under a version
that is taken, or from counting down.  `VersionsTell` is what clients have to keep to if versions
are to tell texts apart.
-/
import RubyOutline.DocumentStore

namespace RubyOutline.DocumentStore

/-! ### The last edit counts -/

/-- What a URI reads right after an edit, if the edit settles it. -/
def Edit.settles? (uri : String) : Edit → Option (Option Document)
  | .set d => if uri = d.uri then some (some d) else none
  | .delete u => if uri = u then some none else none
  | .clear => some none

theorem get?_apply (s : DocumentStore) (e : Edit) (uri : String) :
    (s.apply e).get? uri = (e.settles? uri).getD (s.get? uri) := by
  cases e with
  | set d =>
    rw [apply, get?_set, Edit.settles?]
    split <;> rfl
  | delete u =>
    rw [apply, get?_delete, Edit.settles?]
    split <;> rfl
  | clear => rfl

/-- After a history a URI reads what the last edit that settles it says. -/
theorem get?_applyAll (s : DocumentStore) (edits : List Edit) (uri : String) :
    (s.applyAll edits).get? uri =
      (edits.reverse.findSome? (·.settles? uri)).getD (s.get? uri) := by
  induction edits generalizing s with
  | nil => rfl
  | cons e edits ih =>
    have hstep : s.applyAll (e :: edits) = (s.apply e).applyAll edits := rfl
    rw [hstep, ih, get?_apply, List.reverse_cons, List.findSome?_append]
    cases edits.reverse.findSome? (·.settles? uri) with
    | some found => rfl
    | none => cases he : e.settles? uri <;> simp [he]

/-- Edits that do not settle a URI leave it alone. -/
theorem get?_applyAll_of_untouched {s : DocumentStore} {edits : List Edit} {uri : String}
    (h : ∀ e ∈ edits, e.settles? uri = none) : (s.applyAll edits).get? uri = s.get? uri := by
  have hnone : edits.reverse.findSome? (·.settles? uri) = none := by
    rw [List.findSome?_eq_none_iff]
    exact fun e he => h e (List.mem_reverse.1 he)
  rw [get?_applyAll, hnone]
  rfl

/-! ### The documents of a history -/

/-- The document that an edit puts in. -/
def Edit.document? : Edit → Option Document
  | .set d => some d
  | .delete _ | .clear => none

/-- The documents that stand in a store at some time in a history. -/
def documentsOf (s : DocumentStore) (edits : List Edit) : List Document :=
  s.documents ++ edits.filterMap Edit.document?

theorem mem_documents_of_get? {s : DocumentStore} {uri : String} {d : Document}
    (h : s.get? uri = some d) : d ∈ s.documents :=
  List.mem_of_find?_eq_some h

/-- What is read after an edit that settles it was put in by the edit. -/
theorem document?_of_settles? {e : Edit} {uri : String} {d : Document}
    (h : e.settles? uri = some (some d)) : e.document? = some d := by
  cases e with
  | set d' =>
    simp only [Edit.settles?] at h
    split at h
    · cases h
      rfl
    · cases h
  | delete u =>
    simp only [Edit.settles?] at h
    split at h <;> cases h
  | clear => cases h

theorem mem_documentsOf_of_get? {s : DocumentStore} {edits : List Edit} {uri : String}
    {d : Document} (h : (s.applyAll edits).get? uri = some d) : d ∈ s.documentsOf edits := by
  rw [get?_applyAll] at h
  rw [documentsOf, List.mem_append]
  cases hlast : edits.reverse.findSome? (·.settles? uri) with
  | none =>
    rw [hlast] at h
    exact .inl (mem_documents_of_get? h)
  | some found =>
    rw [hlast] at h
    obtain rfl : found = some d := h
    obtain ⟨e, he, hsettles⟩ := List.exists_of_findSome?_eq_some hlast
    exact .inr (List.mem_filterMap.2 ⟨e, List.mem_reverse.1 he, document?_of_settles? hsettles⟩)

/-! ### Versions that tell texts apart -/

/-- No URI has two texts under one version. -/
def VersionsTell (ds : List Document) : Prop :=
  ∀ a ∈ ds, ∀ b ∈ ds, a.uri = b.uri → a.version = b.version → a.source = b.source

instance (ds : List Document) : Decidable (VersionsTell ds) :=
  inferInstanceAs (Decidable (∀ a ∈ ds, ∀ b ∈ ds, _))

theorem VersionsTell.eq {ds : List Document} (h : VersionsTell ds) {a b : Document} (ha : a ∈ ds)
    (hb : b ∈ ds) (huri : a.uri = b.uri) (hversion : a.version = b.version) : a = b := by
  have hsource : a.source = b.source := h a ha b hb huri hversion
  obtain ⟨uri, source, version⟩ := a
  cases huri
  cases hversion
  cases hsource
  rfl

end RubyOutline.DocumentStore
