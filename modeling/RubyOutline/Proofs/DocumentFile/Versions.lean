/-
RubyOutline/Proofs/DocumentFile/Versions.lean

Whether the version of a file's document tells its text.  A load takes two turns: it looks at the
status of the file, and later it reads the file and stores a document (`FileLoads.advance`).  Files
are written to at any time, and every write gives its file a time that no file had before at the
same place (`TimesFresh`), so that times tell the contents of a place apart.

Runs are logs of turns and writes.  From the log alone it can be told what the files are at any time
(`filesAfter`), and how far a load has come in it, and with which files it has ended
(`FileLoads.standsAt_run`).  A load that nobody has disturbed between its turns stores the text of
the one file whose time it has taken for the version (`FileLoads.exists_of_undisturbed`), and so
documents of such loads differ in their versions if they differ in their texts
(`FileLoads.versions_tell`).  A write between the two turns puts the new text under the old version.
-/
import Mathlib.Data.List.Induction
import Mathlib.Data.List.Nodup
import Mathlib.Logic.Function.Basic
import RubyOutline.DocumentStore
import RubyOutline.Proofs.DocumentFile

namespace RubyOutline

/-! ### Files at their places -/

namespace FileSystem

variable {fs : FileSystem} {path : Path} {file : File} {place : List String}

theorem lookup_filter_of_ne {written : List String} (h : place ≠ written)
    (files : List (List String × File)) :
    (files.filter (·.1 != written)).lookup place = files.lookup place := by
  induction files with
  | nil => rfl
  | cons entry files ih =>
    obtain ⟨parts, file⟩ := entry
    by_cases hparts : parts = written
    · rw [List.filter_cons_of_neg (by simp [hparts]), ih, List.lookup_cons, hparts,
        beq_eq_false_iff_ne.2 h]
    · rw [List.filter_cons_of_pos (by simpa using hparts), List.lookup_cons, List.lookup_cons, ih]

theorem file?_write (fs : FileSystem) (path : Path) (file : File) (place : List String) :
    (fs.write path file).file? place =
      if place = path.resolveParts fs.here then some file else fs.file? place := by
  rw [write, file?, List.lookup_cons]
  by_cases hplace : place = path.resolveParts fs.here
  · rw [if_pos hplace, beq_iff_eq.2 hplace]
  · rw [if_neg hplace, beq_eq_false_iff_ne.2 hplace, file?]
    exact lookup_filter_of_ne hplace fs.files

/-- The file that was found, if it was one. -/
def Found.file? : Found → Option File
  | .file file => some file
  | .folder => none

theorem file?_of_stat_go (names : List String) {found : Found}
    (h : stat.go fs path place names = .ok found) : fs.file? (place ++ names) = found.file? := by
  induction names generalizing place with
  | nil =>
    rw [stat.go] at h
    rw [List.append_nil]
    split at h
    · cases h
      assumption
    · split at h
      · cases h
        assumption
      · cases h
  | cons name names ih =>
    rw [stat.go] at h
    split at h
    · cases h
    · split at h
      · cases h
      · split at h
        · cases h
        · rw [List.append_cons]
          exact ih h

/-- What is found at a resolved path is the file at its place, or there is none. -/
theorem file?_of_stat {found : Found} (h : fs.stat path = .ok found) :
    fs.file? path.parts = found.file? := by
  rw [stat] at h
  split at h
  · cases h
  · split at h
    · cases h
    · exact file?_of_stat_go path.parts h

/-- Bytes that are read are those of the file at the place. -/
theorem exists_file_of_read {bytes : List UInt8} (h : fs.read path = .ok bytes) :
    ∃ file, fs.file? path.parts = some file ∧ file.bytes = bytes := by
  rw [read] at h
  cases hstat : fs.stat path with
  | error e =>
    rw [hstat] at h
    cases h
  | ok found =>
    rw [hstat] at h
    cases found with
    | file file =>
      cases h
      exact ⟨file, file?_of_stat hstat, rfl⟩
    | folder => cases h

end FileSystem

/-! ### Loads of unchanged files -/

namespace DocumentFile

variable {before after : FileSystem} {path : Path} {limit : Option SizeLimit} {d : Document}

/-- If the file at the place is the same at both looks, its time goes with its text. -/
theorem exists_file_of_loadAt (h : loadAt before after path limit = .ok d)
    (hsame : before.file? (path.resolveParts before.here) =
      after.file? (path.resolveParts before.here)) :
    ∃ file, after.file? (path.resolveParts before.here) = some file ∧
      d = ⟨(path.resolve before.here).uri, .ofString (FileSystem.textOf file.bytes),
        file.modified⟩ := by
  obtain ⟨state, bytes, hstatus, hread, rfl⟩ := exists_of_loadAt h
  obtain ⟨file, hfile, rfl⟩ := FileSystem.exists_file_of_read hread
  refine ⟨file, hfile, ?_⟩
  rw [status] at hstatus
  split at hstatus
  case h_1 seen hstat =>
    cases hstatus
    cases (FileSystem.file?_of_stat hstat).symm.trans (hsame.trans hfile)
    rfl
  case h_2 hstat =>
    -- where a file stands there is no folder
    cases (FileSystem.file?_of_stat hstat).symm.trans (hsame.trans hfile)
  case h_3 => cases hstatus

/-- What it takes to load a document, a home put in the place of a tilde. -/
theorem exists_of_load (h : load before after path limit = .ok (.ok d)) :
    ∃ expanded, before.expandHome path = .ok expanded ∧
      loadAt before after expanded limit = .ok d := by
  rw [load] at h
  cases hexpanded : before.expandHome path with
  | error e =>
    rw [hexpanded] at h
    cases h
  | ok expanded =>
    rw [hexpanded] at h
    exact ⟨expanded, rfl, Except.ok.inj h⟩

end DocumentFile

/-! ### Files after a log -/

/-- What happens to files that are loaded: they are written to, and loads take their turns. -/
inductive FileEvent (ι : Type)
  | write (path : Path) (file : File)
  | turn (load : ι)

variable {ι : Type}

/-- The files after the writes of a log. -/
def filesAfter (fs : FileSystem) (log : List (FileEvent ι)) : FileSystem :=
  log.foldl
    (fun fs event =>
      match event with
      | .write path file => fs.write path file
      | .turn _ => fs)
    fs

/-- The files that have stood at a place, the first of them from the start. -/
def filesAt (fs : FileSystem) (log : List (FileEvent ι)) (place : List String) :
    List File :=
  (fs.file? place).toList ++ log.filterMap fun
    | .write path file => if path.resolveParts fs.here = place then some file else none
    | .turn _ => none

/-- Every write gives its file a time that no file at the same place had before. -/
def TimesFresh (fs : FileSystem) (log : List (FileEvent ι)) : Prop :=
  ∀ place, ((filesAt fs log place).map (·.modified)).Nodup

theorem filesAfter_append (fs : FileSystem) (log rest : List (FileEvent ι)) :
    filesAfter fs (log ++ rest) = filesAfter (filesAfter fs log) rest := List.foldl_append

theorem here_filesAfter (fs : FileSystem) (log : List (FileEvent ι)) :
    (filesAfter fs log).here = fs.here := by
  induction log generalizing fs with
  | nil => rfl
  | cons event log ih => cases event <;> exact ih _

theorem expandHome_filesAfter (fs : FileSystem) (log : List (FileEvent ι)) (path : Path) :
    (filesAfter fs log).expandHome path = fs.expandHome path := by
  induction log generalizing fs with
  | nil => rfl
  | cons event log ih => cases event <;> exact ih _

/-- What stands at a place after a log is one of the files of the place. -/
theorem mem_filesAt {fs : FileSystem} {log : List (FileEvent ι)} {place : List String} {file : File}
    (h : (filesAfter fs log).file? place = some file) : file ∈ filesAt fs log place := by
  induction log using List.reverseRecOn with
  | nil =>
    rw [filesAt, List.filterMap_nil, List.append_nil, Option.mem_toList]
    exact h
  | append_singleton log event ih =>
    rw [filesAfter_append] at h
    rw [filesAt, List.filterMap_append, ← List.append_assoc, ← filesAt]
    cases event with
    | write path written =>
      have hwrite : ((filesAfter fs log).write path written).file? place = some file := h
      rw [FileSystem.file?_write, here_filesAfter] at hwrite
      split at hwrite
      case isTrue hplace =>
        cases hwrite
        refine List.mem_append_right _ ?_
        simp [hplace]
      case isFalse => exact List.mem_append_left _ (ih hwrite)
    | turn i => exact List.mem_append_left _ (ih h)

theorem filesAt_subset {fs : FileSystem} {log rest : List (FileEvent ι)} {place : List String}
    {file : File} (h : file ∈ filesAt fs log place) : file ∈ filesAt fs (log ++ rest) place := by
  rw [filesAt, List.filterMap_append, ← List.append_assoc]
  exact List.mem_append_left _ h

/-- Writes to other places leave a place as it is. -/
theorem file?_filesAfter_of_forall_ne {fs : FileSystem} {log : List (FileEvent ι)}
    {place : List String}
    (h : ∀ path file, .write path file ∈ log → path.resolveParts fs.here ≠ place) :
    (filesAfter fs log).file? place = fs.file? place := by
  induction log generalizing fs with
  | nil => rfl
  | cons event log ih =>
    cases event with
    | write path file =>
      have hrest : (filesAfter (fs.write path file) log).file? place =
          (fs.write path file).file? place :=
        ih fun path' file' hmem => h path' file' (List.mem_cons_of_mem _ hmem)
      have hne := h path file List.mem_cons_self
      show (filesAfter (fs.write path file) log).file? place = _
      rw [hrest, FileSystem.file?_write, if_neg hne.symm]
    | turn i => exact ih fun path file hmem => h path file (List.mem_cons_of_mem _ hmem)

/-! ### Loads and writes -/

/-- Files of one file system that are loaded into one store. -/
structure FileLoads (ι : Type) where
  path : ι → String
  limit : ι → Option SizeLimit

/-- How far a load has come. -/
inductive LoadStage
  | called
  /-- The load has looked at the status of its file, among the files as they were. -/
  | looked (before : FileSystem)
  | ended (result : Except HomeError (Except OutlineError Document))

structure LoadState (ι : Type) where
  files : FileSystem
  store : DocumentStore
  stage : ι → LoadStage

namespace FileLoads

/-- The next turn of a load, with what it makes of the store. -/
def advance (c : FileLoads ι) (i : ι) (files : FileSystem) (store : DocumentStore) :
    LoadStage → DocumentStore × LoadStage
  | .called => (store, .looked files)
  | .looked before =>
    let result := DocumentFile.load before files (.ofString (c.path i)) (c.limit i)
    (match result with
      | .ok (.ok d) => store.set d
      | _ => store,
     .ended result)
  | .ended result => (store, .ended result)

section Runs

variable [DecidableEq ι] (c : FileLoads ι)

def step (s : LoadState ι) : FileEvent ι → LoadState ι
  | .write path file => { s with files := s.files.write path file }
  | .turn i =>
    { s with
      store := (c.advance i s.files s.store (s.stage i)).1
      stage := Function.update s.stage i (c.advance i s.files s.store (s.stage i)).2 }

/-- Turns and writes, one after the other. -/
def run (s : LoadState ι) (log : List (FileEvent ι)) : LoadState ι := log.foldl c.step s

/-- All loads have been called, and none has looked at its file yet. -/
def start (fs : FileSystem) (store : DocumentStore) : LoadState ι := ⟨fs, store, fun _ => .called⟩

/-- A load has stored a document. -/
def Stores (s : LoadState ι) (i : ι) (d : Document) : Prop := s.stage i = .ended (.ok (.ok d))

def isTurn (i : ι) : FileEvent ι → Bool
  | .write .. => false
  | .turn j => j = i

/-- What happens between the first two turns of a load. -/
def between (log : List (FileEvent ι)) (i : ι) : List (FileEvent ι) :=
  (log.dropWhile (!isTurn i ·)).tail.takeWhile (!isTurn i ·)

/-- Between its two looks at the file of a load, nobody writes to the file's place. -/
def Undisturbed (fs : FileSystem) (log : List (FileEvent ι)) (i : ι) : Prop :=
  ∀ path file expanded, .write path file ∈ between log i →
    fs.expandHome (.ofString (c.path i)) = .ok expanded →
    path.resolveParts fs.here ≠ expanded.resolveParts fs.here

end Runs

variable (c : FileLoads ι) (fs : FileSystem)

/-! ### How far a load has come -/

/-- Where a load stands after a log, as the log tells it. -/
inductive StandsAt (i : ι) (log : List (FileEvent ι)) : LoadStage → Prop
  | called (h : .turn i ∉ log) : StandsAt i log .called
  | looked {before mid : List (FileEvent ι)} (hlog : log = before ++ .turn i :: mid)
      (hbefore : .turn i ∉ before) (hmid : .turn i ∉ mid) :
      StandsAt i log (.looked (filesAfter fs before))
  | ended {before mid after : List (FileEvent ι)}
      (hlog : log = before ++ .turn i :: mid ++ .turn i :: after)
      (hbefore : .turn i ∉ before) (hmid : .turn i ∉ mid) :
      StandsAt i log (.ended (DocumentFile.load (filesAfter fs before)
        (filesAfter fs (before ++ .turn i :: mid)) (.ofString (c.path i)) (c.limit i)))

variable {c fs} {i : ι} {log : List (FileEvent ι)} {stage : LoadStage}

/-- What is not a load's own turn leaves it where it stands. -/
theorem StandsAt.concat {event : FileEvent ι} (h : c.StandsAt fs i log stage)
    (hevent : event ≠ .turn i) : c.StandsAt fs i (log ++ [event]) stage := by
  have hnot : ∀ {part : List (FileEvent ι)}, .turn i ∉ part → .turn i ∉ part ++ [event] :=
    fun hpart hmem => (List.mem_append.1 hmem).elim hpart fun hlast =>
      hevent (List.mem_singleton.1 hlast).symm
  cases h with
  | called hlog => exact .called (hnot hlog)
  | @looked before mid hlog hbefore hmid =>
    have hlog' : log ++ [event] = before ++ .turn i :: (mid ++ [event]) := by
      rw [hlog, List.append_assoc, List.cons_append]
    exact .looked hlog' hbefore (hnot hmid)
  | @ended before mid after hlog hbefore hmid =>
    have hlog' : log ++ [event] = before ++ .turn i :: mid ++ .turn i :: (after ++ [event]) := by
      rw [hlog, List.append_assoc, List.cons_append]
    exact .ended hlog' hbefore hmid

/-- A load's own turn takes it one step further. -/
theorem StandsAt.advance (store : DocumentStore) (h : c.StandsAt fs i log stage) :
    c.StandsAt fs i (log ++ [.turn i]) (c.advance i (filesAfter fs log) store stage).2 := by
  cases h with
  | called hlog => exact .looked rfl hlog List.not_mem_nil
  | looked hlog hbefore hmid =>
    subst hlog
    exact .ended rfl hbefore hmid
  | @ended before mid after hlog hbefore hmid =>
    have hlog' : log ++ [.turn i] =
        before ++ .turn i :: mid ++ .turn i :: (after ++ [.turn i]) := by
      rw [hlog, List.append_assoc, List.cons_append]
    exact .ended hlog' hbefore hmid

/-- With which files a load has ended. -/
theorem StandsAt.exists_of_ended {result : Except HomeError (Except OutlineError Document)}
    (h : c.StandsAt fs i log (.ended result)) :
    ∃ before mid after, log = before ++ .turn i :: mid ++ .turn i :: after ∧
      .turn i ∉ before ∧ .turn i ∉ mid ∧
      DocumentFile.load (filesAfter fs before) (filesAfter fs (before ++ .turn i :: mid))
        (.ofString (c.path i)) (c.limit i) = result := by
  generalize hstage : LoadStage.ended result = stage at h
  cases h with
  | ended hlog hbefore hmid =>
    cases hstage
    exact ⟨_, _, _, hlog, hbefore, hmid, rfl⟩
  | _ => cases hstage

/-- What a turn stores is what the load has ended with. -/
theorem get?_advance {files : FileSystem} {store : DocumentStore} {uri : String} {d : Document}
    (h : (c.advance i files store stage).1.get? uri = some d) :
    store.get? uri = some d ∨ (c.advance i files store stage).2 = .ended (.ok (.ok d)) := by
  cases stage with
  | looked before =>
    rw [FileLoads.advance] at h ⊢
    dsimp only at h ⊢
    split at h
    case h_1 d' hload =>
      rw [DocumentStore.get?_set] at h
      split at h
      · cases h
        exact .inr (congrArg _ hload)
      · exact .inl h
    case h_2 => exact .inl h
  | _ => exact .inl h

variable [DecidableEq ι] {s : LoadState ι} {j : ι} {d : Document}

theorem stage_turn_self :
    (c.step s (.turn i)).stage i = (c.advance i s.files s.store (s.stage i)).2 :=
  Function.update_self i _ _

theorem stage_turn_of_ne (h : i ≠ j) : (c.step s (.turn j)).stage i = s.stage i :=
  Function.update_of_ne h _ _

theorem run_concat (s : LoadState ι) (log : List (FileEvent ι)) (event : FileEvent ι) :
    c.run s (log ++ [event]) = c.step (c.run s log) event := by
  rw [run, List.foldl_append]
  rfl

theorem files_run (store : DocumentStore) (log : List (FileEvent ι)) :
    (c.run (start fs store) log).files = filesAfter fs log := by
  induction log using List.reverseRecOn with
  | nil => rfl
  | append_singleton log event ih =>
    rw [run_concat, filesAfter_append, ← ih]
    cases event <;> rfl

theorem standsAt_run (store : DocumentStore) (i : ι) (log : List (FileEvent ι)) :
    c.StandsAt fs i log ((c.run (start fs store) log).stage i) := by
  induction log using List.reverseRecOn with
  | nil => exact .called List.not_mem_nil
  | append_singleton log event ih =>
    rw [run_concat]
    cases event with
    | write path file =>
      refine StandsAt.concat ih ?_
      simp
    | turn j =>
      by_cases hj : i = j
      · subst hj
        rw [stage_turn_self, files_run]
        exact ih.advance _
      · rw [stage_turn_of_ne hj]
        refine ih.concat ?_
        simpa using Ne.symm hj

/-! ### Documents that loads have stored -/

theorem isTurn_eq_false {part : List (FileEvent ι)} (h : .turn i ∉ part) :
    ∀ event ∈ part, (!isTurn i event) = true := by
  intro event hevent
  cases event with
  | write path file => rfl
  | turn j =>
    rw [isTurn, Bool.not_eq_true', decide_eq_false_iff_not]
    rintro rfl
    exact h hevent

theorem between_eq {before mid after : List (FileEvent ι)} (hbefore : .turn i ∉ before)
    (hmid : .turn i ∉ mid) : between (before ++ .turn i :: mid ++ .turn i :: after) i = mid := by
  have hturn : ¬ (!isTurn i (.turn i)) = true := by simp [isTurn]
  rw [between, List.append_assoc, List.cons_append,
    List.dropWhile_append_of_pos (isTurn_eq_false hbefore),
    List.dropWhile_cons_of_neg (p := (!isTurn i ·)) hturn, List.tail_cons,
    List.takeWhile_append_of_pos (isTurn_eq_false hmid),
    List.takeWhile_cons_of_neg (p := (!isTurn i ·)) hturn, List.append_nil]

/-- An undisturbed load stores the text of a file that has stood at the place, under its time. -/
theorem exists_of_undisturbed {store : DocumentStore}
    (h : Stores (c.run (start fs store) log) i d) (hi : c.Undisturbed fs log i) :
    ∃ expanded file, fs.expandHome (.ofString (c.path i)) = .ok expanded ∧
      file ∈ filesAt fs log (expanded.resolveParts fs.here) ∧
      d = ⟨(expanded.resolve fs.here).uri, .ofString (FileSystem.textOf file.bytes),
        file.modified⟩ := by
  have hstands : c.StandsAt fs i log (.ended (.ok (.ok d))) := h ▸ standsAt_run store i log
  obtain ⟨before, mid, after, hlog, hbefore, hmid, hresult⟩ := hstands.exists_of_ended
  obtain ⟨expanded, hexpanded, hload⟩ := DocumentFile.exists_of_load hresult
  rw [expandHome_filesAfter] at hexpanded
  have hwrites : ∀ path file, .write path file ∈ FileEvent.turn i :: mid →
      path.resolveParts (filesAfter fs before).here ≠ expanded.resolveParts fs.here := by
    intro path file hmem
    rw [here_filesAfter]
    rcases List.mem_cons.1 hmem with heq | hmem
    · cases heq
    · refine hi path file expanded ?_ hexpanded
      rw [hlog, between_eq hbefore hmid]
      exact hmem
  have hsame := file?_filesAfter_of_forall_ne hwrites
  rw [← filesAfter_append] at hsame
  obtain ⟨file, hfile, rfl⟩ := DocumentFile.exists_file_of_loadAt hload
    (by rw [here_filesAfter, hsame])
  rw [here_filesAfter] at hfile ⊢
  refine ⟨expanded, file, hexpanded, ?_, rfl⟩
  rw [hlog]
  exact filesAt_subset (mem_filesAt hfile)

theorem Stores.step (event : FileEvent ι) (h : Stores s i d) : Stores (c.step s event) i d := by
  cases event with
  | write path file => exact h
  | turn j =>
    by_cases hj : i = j
    · subst hj
      rw [Stores, stage_turn_self, h]
      rfl
    · rw [Stores, stage_turn_of_ne hj]
      exact h

/-- What stands in the store was there at the start, or a load has stored it. -/
theorem get?_store_run {store : DocumentStore} {uri : String}
    (h : (c.run (start fs store) log).store.get? uri = some d) :
    store.get? uri = some d ∨ ∃ i, Stores (c.run (start fs store) log) i d := by
  induction log using List.reverseRecOn with
  | nil => exact .inl h
  | append_singleton log event ih =>
    rw [run_concat] at h ⊢
    have hold : (c.run (start fs store) log).store.get? uri = some d →
        store.get? uri = some d ∨ ∃ i, Stores (c.step (c.run (start fs store) log) event) i d :=
      fun h => (ih h).imp_right fun ⟨i, hi⟩ => ⟨i, hi.step event⟩
    cases event with
    | write path file => exact hold h
    | turn j =>
      rcases get?_advance h with h | h
      · exact hold h
      · refine .inr ⟨j, ?_⟩
        rw [Stores, stage_turn_self]
        exact h

/-- **The versions of undisturbed loads tell texts apart.**  Whatever the order of writes and turns,
documents that such loads have stored under one URI and one version have one text; and whatever the
store reads was there at the start, or a load has stored it. -/
theorem versions_tell (c : FileLoads ι) (fs : FileSystem) (store : DocumentStore)
    (log : List (FileEvent ι)) (hhere : ∀ s ∈ fs.here, Path.IsName s) (hfresh : TimesFresh fs log) :
    (∀ i j d e, Stores (c.run (start fs store) log) i d → Stores (c.run (start fs store) log) j e →
      c.Undisturbed fs log i → c.Undisturbed fs log j →
      d.uri = e.uri → d.version = e.version → d.source = e.source) ∧
    ∀ uri d, (c.run (start fs store) log).store.get? uri = some d →
      store.get? uri = some d ∨ ∃ i, Stores (c.run (start fs store) log) i d := by
  refine ⟨fun i j d e hd he hi hj huri hversion => ?_, fun uri d h => get?_store_run h⟩
  obtain ⟨p, f, hp, hf, rfl⟩ := exists_of_undisturbed hd hi
  obtain ⟨q, g, hq, hg, rfl⟩ := exists_of_undisturbed he hj
  -- one URI is one place, and there the times tell the files apart
  have hnames : ∀ k expanded, fs.expandHome (.ofString (c.path k)) = .ok expanded →
      ∀ name ∈ expanded.parts, Path.IsName name := fun k expanded h =>
    Path.isName_of_mem_expandHome (fun name hname => Path.isName_of_mem_ofString hname) h
  have hplace : p.resolveParts fs.here = q.resolveParts fs.here :=
    congrArg Path.parts (Path.uri_resolve_inj hhere (hnames i p hp) (hnames j q hq) huri)
  rw [hplace] at hf
  obtain rfl : f = g := List.inj_on_of_nodup_map (hfresh _) hf hg hversion
  rfl

/-- A working folder with the file `a.rb`, in which stands an A. -/
def letterA : FileSystem := { here := ["work"], files := [(["work", "a.rb"], ⟨[0x41], 1⟩)] }

/-- A B in the place of the A. -/
def writeB : FileEvent (Fin 2) := .write (.ofString "a.rb") ⟨[0x42], 2⟩

/-- Two loads of `a.rb`. -/
def rereads : FileLoads (Fin 2) := ⟨fun _ => "a.rb", fun _ => none⟩

theorem timesFresh_writeB : TimesFresh letterA [writeB] := by
  intro place
  by_cases hplace : place = ["work", "a.rb"]
  · subst hplace
    decide
  · have hstart : letterA.file? place = none := by
      rw [letterA, FileSystem.file?, List.lookup_cons, beq_eq_false_iff_ne.2 hplace]
      rfl
    have hwritten : Path.resolveParts letterA.here (.ofString "a.rb") ≠ place := Ne.symm hplace
    rw [filesAt, hstart, writeB]
    simp [hwritten]

/-- Both loads come before the write. -/
theorem versions_tell_beforeWrite :
    let log : List (FileEvent (Fin 2)) := [.turn 0, .turn 1, .turn 0, .turn 1, writeB]
    ∃ d e, Stores (rereads.run (start letterA .empty) log) 0 d ∧
      Stores (rereads.run (start letterA .empty) log) 1 e ∧
      d.uri = e.uri ∧ d.version = e.version ∧ d.source = e.source := by
  intro log
  have hfresh : TimesFresh letterA log := fun place => timesFresh_writeB place
  have hquiet : ∀ i, rereads.Undisturbed letterA log i := by
    intro i path file expanded hmem
    have hbetween : between log i = [.turn (1 - i)] := by
      match i with
      | 0 => rfl
      | 1 => rfl
    rw [hbetween, List.mem_singleton] at hmem
    cases hmem
  have htell := (versions_tell rereads letterA .empty log (by decide) hfresh).1 0 1
    ⟨"file:///work/a.rb", .ofString "A", 1⟩ ⟨"file:///work/a.rb", .ofString "A", 1⟩ rfl rfl
    (hquiet 0) (hquiet 1) rfl rfl
  exact ⟨_, _, rfl, rfl, rfl, rfl, htell⟩

/-- The write comes between the two turns of the second load, and so the B is stored under the time
of the A. -/
theorem two_texts_writeBetween :
    let log : List (FileEvent (Fin 2)) := [.turn 0, .turn 0, .turn 1, writeB, .turn 1]
    TimesFresh letterA log ∧
    ∃ d e, Stores (rereads.run (start letterA .empty) log) 0 d ∧
      Stores (rereads.run (start letterA .empty) log) 1 e ∧
      d.uri = e.uri ∧ d.version = e.version ∧ d.source ≠ e.source :=
  ⟨fun place => timesFresh_writeB place, ⟨"file:///work/a.rb", .ofString "A", 1⟩,
    ⟨"file:///work/a.rb", .ofString "B", 1⟩, rfl, rfl, rfl, rfl, by decide⟩

end FileLoads

end RubyOutline
