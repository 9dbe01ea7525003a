/-
RubyOutline/Proofs/DocumentFile.lean

Documents read from files.  Loading gives the text of what stands at the resolved path, or fails for
a reason that has to do with the file alone (`DocumentFile.loadAt_cases`).  So the resolved path is
all that matters of a path; and as URIs tell resolved paths apart, the documents of one file system
under one URI are one document (`DocumentFile.eq_of_loadAt`).
-/
import RubyOutline.DocumentFile
import RubyOutline.Proofs.Path

namespace RubyOutline.DocumentFile

variable {before after fs : FileSystem} {path : Path} {limit : Option SizeLimit} {d : Document}

/-- How loading ends. -/
theorem loadAt_cases (before after : FileSystem) (path : Path) (limit : Option SizeLimit) :
    (∃ e, loadAt before after path limit = .error (.file e)) ∨
    (∃ size limit', loadAt before after path limit =
      .error (.tooLarge (path.resolve before.here) size limit')) ∨
    (∃ state bytes, status before (path.resolve before.here) = .ok state ∧
      after.read (path.resolve before.here) = .ok bytes ∧
      loadAt before after path limit = .ok
        ⟨(path.resolve before.here).uri, .ofString (FileSystem.textOf bytes), state.modified⟩) := by
  unfold loadAt
  by_cases hnull : path.hasNull
  · exact .inl ⟨.nullCharacter, by rw [if_pos hnull]; rfl⟩
  rw [if_neg hnull]
  simp only [bind, Except.bind]
  cases hstatus : status before (path.resolve before.here) with
  | error e =>
    left
    rw [status] at hstatus
    split at hstatus <;> cases hstatus
    exact ⟨_, rfl⟩
  | ok state =>
    dsimp only
    cases hsize : checkSize (path.resolve before.here) state.size limit with
    | error e =>
      right; left
      cases limit with
      | none => cases hsize
      | some limit =>
        rw [checkSize] at hsize
        split at hsize <;> cases hsize
        exact ⟨_, _, rfl⟩
    | ok _ =>
      dsimp only
      cases hread : after.read (path.resolve before.here) with
      | error e => exact .inl ⟨e, rfl⟩
      | ok bytes => exact .inr (.inr ⟨state, bytes, rfl, rfl, rfl⟩)

/-- What it takes to load a document. -/
theorem exists_of_loadAt (h : loadAt before after path limit = .ok d) :
    ∃ state bytes, status before (path.resolve before.here) = .ok state ∧
      after.read (path.resolve before.here) = .ok bytes ∧
      d = ⟨(path.resolve before.here).uri, .ofString (FileSystem.textOf bytes), state.modified⟩ := by
  rcases loadAt_cases before after path limit with
    ⟨e, he⟩ | ⟨size, limit', he⟩ | ⟨state, bytes, hstatus, hread, hd⟩
  · cases h.symm.trans he
  · cases h.symm.trans he
  · exact ⟨state, bytes, hstatus, hread, Except.ok.inj (h.symm.trans hd)⟩

/-- A document that cannot be loaded is no matter of versions. -/
theorem loadAt_ne_superseded (before after : FileSystem) (path : Path) (limit : Option SizeLimit)
    (uri : String) (expected : Int) (actual : Option Int) :
    loadAt before after path limit ≠ .error (.superseded uri expected actual) := by
  intro h
  rcases loadAt_cases before after path limit with
    ⟨e, he⟩ | ⟨size, limit', he⟩ | ⟨state, bytes, _, _, hd⟩
  · cases h.symm.trans he
  · cases h.symm.trans he
  · cases h.symm.trans hd

/-- Documents of one file system under one URI are one document. -/
theorem eq_of_loadAt {p q : Path} {d e : Document} (hhere : ∀ s ∈ fs.here, Path.IsName s)
    (hp : ∀ s ∈ p.parts, Path.IsName s) (hq : ∀ s ∈ q.parts, Path.IsName s)
    (hd : loadAt fs fs p limit = .ok d) (he : loadAt fs fs q limit = .ok e)
    (huri : d.uri = e.uri) : d = e := by
  obtain ⟨state, bytes, hstatus, hread, rfl⟩ := exists_of_loadAt hd
  obtain ⟨state', bytes', hstatus', hread', rfl⟩ := exists_of_loadAt he
  have hresolved := Path.uri_resolve_inj hhere hp hq huri
  rw [hresolved] at hstatus hread ⊢
  cases hstatus.symm.trans hstatus'
  cases hread.symm.trans hread'
  rfl

end RubyOutline.DocumentFile
