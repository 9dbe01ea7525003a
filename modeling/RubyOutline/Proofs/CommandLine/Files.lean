/-
RubyOutline/Proofs/CommandLine/Files.lean

The `outline` command treats its files independently.  All files of a run are read into one store,
but what the store holds makes no difference: a file's document is put there under its URI right
before it is outlined, and nobody else edits the store of a run (`Outliner.handle_set_alone`).  So
what becomes of a file is what becomes of it alone (`soleReport?`), and a run makes a list of these
(`outlineFiles_eq`).  A run can end early only at a path that begins with a tilde and the name of
nobody, and then it prints nothing about the files after it (`outline_tildeBeforeOther`).

Of these lists, listings are printed one by one, and entries written into one object.  Two files
with one URI are one file, so an entry that is written over has been the same
(`eq_of_entryOfFile`).
-/
import RubyOutline.Proofs.CommandLine.Printed
import RubyOutline.Proofs.Conversion.Evaluation
import RubyOutline.Proofs.DocumentFile
import RubyOutline.Proofs.Outliner.Supersession

namespace RubyOutline

/-! ### The store of a run -/

/-- The outline of a document that nobody edits. -/
def Outliner.outlineAlone (o : Outliner) (d : Document) :
    Grammar → Except OutlineError DocumentOutline
  | .unavailable reason => .error (.noGrammar reason)
  | .available parse => .ok (o.outline d (parse d.source))

theorem Outliner.document_of_outlineAlone {o : Outliner} {d : Document} {grammar : Grammar}
    {outline : DocumentOutline} (h : o.outlineAlone d grammar = .ok outline) :
    outline.document = d := by
  cases grammar with
  | unavailable reason => cases h
  | available parse =>
    obtain rfl := Except.ok.inj h
    rfl

/-- With nobody else around a document that has just been stored is outlined, whatever else is in
the store. -/
theorem Outliner.handle_set_alone (o : Outliner) (grammar : Grammar) (store : DocumentStore)
    (d : Document) :
    o.handle grammar (store.set d) d.uri [] = (o.outlineAlone d grammar, store.set d) := by
  rw [handle_set]
  cases grammar with
  | unavailable reason => rfl
  | available parse =>
    have hcurrent : (store.set d).version? d.uri = some d.version := by
      rw [DocumentStore.version?, DocumentStore.get?_set, if_pos rfl]
      rfl
    have hfinish : finish (store.set d) (o.outline d (parse d.source)) =
        .ok (o.outline d (parse d.source)) := if_pos hcurrent
    exact congrArg (·, store.set d) hfinish

namespace CommandLine

variable {grammarFor : Document → Grammar} {ready : Ready} {fs : FileSystem}
variable {file : String} {files : List String}

/-! ### One file -/

/-- The report of a file once its home has been put in. -/
def reportAt (grammarFor : Document → Grammar) (ready : Ready) (fs : FileSystem)
    (file : String) (expanded : Path) : FileReport :=
  match DocumentFile.loadAt fs fs expanded (some ready.sizeLimit) with
  | .error e => ⟨.ofString file, none, .error e⟩
  | .ok d => ⟨.ofString file, some d, ready.outliner.outlineAlone d (grammarFor d)⟩

/-- The report of a file, unless it asks for a home that is not there. -/
def soleReport? (grammarFor : Document → Grammar) (ready : Ready) (fs : FileSystem)
    (file : String) : Option FileReport :=
  (fs.expandHome (.ofString file)).toOption.map (reportAt grammarFor ready fs file)

theorem soleReport?_eq {expanded : Path} (h : fs.expandHome (.ofString file) = .ok expanded) :
    soleReport? grammarFor ready fs file =
      some (reportAt grammarFor ready fs file expanded) := by
  rw [soleReport?, h]
  rfl

theorem exists_of_soleReport? {report : FileReport}
    (h : soleReport? grammarFor ready fs file = some report) :
    ∃ expanded, fs.expandHome (.ofString file) = .ok expanded ∧
      report = reportAt grammarFor ready fs file expanded := by
  rw [soleReport?] at h
  cases hhome : fs.expandHome (.ofString file) with
  | error e =>
    rw [hhome] at h
    cases h
  | ok expanded =>
    rw [hhome] at h
    exact ⟨expanded, rfl, (Option.some.inj h).symm⟩

/-- What the store holds makes no difference for a file. -/
theorem outlineFile_eq (grammarFor : Document → Grammar) (ready : Ready) {expanded : Path}
    (h : fs.expandHome (.ofString file) = .ok expanded) (store : DocumentStore) :
    ∃ store', outlineFile (m := Id) grammarFor ready fs store file =
      .ok (reportAt grammarFor ready fs file expanded, store') := by
  have hload : DocumentFile.load fs fs (.ofString file)
      (some ready.sizeLimit) =
        .ok (DocumentFile.loadAt fs fs expanded
          (some ready.sizeLimit)) := by
    rw [DocumentFile.load, h]
    rfl
  unfold outlineFile reportAt
  dsimp only
  rw [hload]
  cases DocumentFile.loadAt fs fs expanded (some ready.sizeLimit) with
  | error e => exact ⟨store, rfl⟩
  | ok d =>
    refine ⟨store.set d, ?_⟩
    simp only [Outliner.handle_set_alone]
    rfl

/-- **What becomes of the files of a run is what becomes of each of them alone.** -/
theorem outlineFiles_eq (grammarFor : Document → Grammar) (ready : Ready)
    (h : ∀ file ∈ files, ∃ expanded, fs.expandHome (.ofString file) = .ok expanded)
    (store : DocumentStore) :
    outlineFiles (m := Id) grammarFor ready fs store files =
      (files.filterMap (soleReport? grammarFor ready fs), none) := by
  induction files generalizing store with
  | nil => rfl
  | cons file files ih =>
    obtain ⟨⟨expanded, hfile⟩, hfiles⟩ := List.forall_mem_cons.1 h
    -- the next file finds another store, which makes no difference for it
    obtain ⟨store', houtline⟩ := outlineFile_eq grammarFor ready hfile store
    rw [outlineFiles, List.filterMap_cons_some (soleReport?_eq hfile)]
    have hrest := ih hfiles store'
    simp only [houtline, hrest, bind]
    rfl

/-! ### Entries -/

/-- The entry of a file in the object that a run writes. -/
def entryOf (r : FileReport) : Option (String × Value) :=
  match r.result with
  | .ok o => some (o.document.uri, .list (Symbol.toLspAll o.symbols))
  | .error _ => none

theorem outlineEntry_eq (r : FileReport) :
    r.outlineEntry = (entryOf r).map fun (k, v) => (.string k, v) := by
  rw [FileReport.outlineEntry, entryOf]
  cases r.result <;> rfl

theorem succeeded_iff (r : FileReport) : r.succeeded ↔ (entryOf r).isSome := by
  rw [FileReport.succeeded, entryOf]
  cases r.result with
  | error e => simp [Except.isOk, Except.toBool]
  | ok o => simp [Except.isOk, Except.toBool]

def entryOfFile (grammarFor : Document → Grammar) (ready : Ready) (fs : FileSystem)
    (file : String) : Option (String × Value) :=
  (soleReport? grammarFor ready fs file).bind entryOf

theorem exists_of_entryOf_reportAt {expanded : Path} {entry : String × Value}
    (h : entryOf (reportAt grammarFor ready fs file expanded) = some entry) :
    ∃ d o, DocumentFile.loadAt fs fs expanded
        (some ready.sizeLimit) = .ok d ∧
      ready.outliner.outlineAlone d (grammarFor d) = .ok o ∧
      entry = (d.uri, .list (Symbol.toLspAll o.symbols)) := by
  rw [reportAt] at h
  split at h
  · cases h
  · rename_i d hload
    rw [entryOf] at h
    dsimp only at h
    cases houtline : ready.outliner.outlineAlone d (grammarFor d) with
    | error e =>
      rw [houtline] at h
      cases h
    | ok o =>
      rw [houtline] at h
      have hdocument : o.document = d := Outliner.document_of_outlineAlone houtline
      refine ⟨d, o, hload, houtline, ?_⟩
      rw [← Option.some.inj h, hdocument]

/-- An entry is made of the outline of a document, under the URI of that document. -/
theorem exists_of_entryOfFile {entry : String × Value}
    (h : entryOfFile grammarFor ready fs file = some entry) :
    ∃ expanded d o, fs.expandHome (.ofString file) = .ok expanded ∧
      DocumentFile.loadAt fs fs expanded (some ready.sizeLimit) = .ok d ∧
      ready.outliner.outlineAlone d (grammarFor d) = .ok o ∧
      entry = (d.uri, .list (Symbol.toLspAll o.symbols)) := by
  obtain ⟨report, hreport, hentry⟩ := Option.bind_eq_some_iff.1 h
  obtain ⟨expanded, hhome, rfl⟩ := exists_of_soleReport? hreport
  obtain ⟨d, o, hload, houtline, hentry⟩ := exists_of_entryOf_reportAt hentry
  exact ⟨expanded, d, o, hhome, hload, houtline, hentry⟩

/-- The key of an entry is the URI of the file, once its home has been put in. -/
theorem key_of_entryOfFile {path : Path} {entry : String × Value}
    (hpath : fs.expandHome (.ofString file) = .ok path)
    (h : entryOfFile grammarFor ready fs file = some entry) :
    entry.1 = (path.resolve fs.here).uri := by
  obtain ⟨path', d, o, hpath', hload, -, rfl⟩ := exists_of_entryOfFile h
  cases hpath.symm.trans hpath'
  obtain ⟨state, bytes, -, -, rfl⟩ := DocumentFile.exists_of_loadAt hload
  rfl

/-- Files with one URI have one entry. -/
theorem eq_of_entryOfFile {file' : String} {entry entry' : String × Value}
    (hhere : ∀ s ∈ fs.here, Path.IsName s)
    (h : entryOfFile grammarFor ready fs file = some entry)
    (h' : entryOfFile grammarFor ready fs file' = some entry') (hkey : entry.1 = entry'.1) :
    entry = entry' := by
  obtain ⟨p, d, o, hp, hd, ho, rfl⟩ := exists_of_entryOfFile h
  obtain ⟨q, e, o', hq, he, ho', rfl⟩ := exists_of_entryOfFile h'
  have hnames : ∀ {file : String} {p : Path}, fs.expandHome (.ofString file) = .ok p →
      ∀ s ∈ p.parts, Path.IsName s := fun hp =>
    Path.isName_of_mem_expandHome (fun _ => Path.isName_of_mem_ofString) hp
  -- one document, so it has been outlined with one grammar
  obtain rfl := DocumentFile.eq_of_loadAt hhere (hnames hp) (hnames hq) hd he hkey
  cases ho.symm.trans ho'
  rfl

/-! ### Whole runs -/

variable {given : Surroundings} {config : Option String}

/-- The report of a run over files whose homes are known. -/
theorem run_outline_eq (grammarFor : Document → Grammar)
    (hsetUp : setUp given config = .ok ready)
    (hhomes : ∀ file ∈ files, ∃ expanded, given.fs.expandHome (.ofString file) = .ok expanded)
    (format : OutputFormat) :
    Command.run (m := Id) grammarFor given (.outline files config format) =
      reportFiles ready format (files.filterMap (soleReport? grammarFor ready given.fs)) none := by
  have hfiles := outlineFiles_eq grammarFor ready hhomes .empty
  rw [Command.run, hsetUp]
  simp only [hfiles, bind]
  rfl

/-- The exit code of a run says whether all its files have entries. -/
theorem exitCode_reportFiles (format : OutputFormat)
    (hhomes : ∀ file ∈ files, ∃ expanded, fs.expandHome (.ofString file) = .ok expanded) :
    (reportFiles ready format (files.filterMap (soleReport? grammarFor ready fs))
      none).exitCode =
        if ∀ file ∈ files, (entryOfFile grammarFor ready fs file).isSome then 0 else 1 := by
  have hall : (files.filterMap (soleReport? grammarFor ready fs)).all (·.succeeded) = true ↔
      ∀ file ∈ files, (entryOfFile grammarFor ready fs file).isSome := by
    rw [List.all_eq_true]
    constructor
    · intro h file hfile
      obtain ⟨expanded, hhome⟩ := hhomes file hfile
      rw [entryOfFile, soleReport?_eq hhome]
      exact (succeeded_iff _).1 (h _ (List.mem_filterMap.2 ⟨file, hfile, soleReport?_eq hhome⟩))
    · intro h report hmem
      obtain ⟨file, hfile, hreport⟩ := List.mem_filterMap.1 hmem
      have hentry := h file hfile
      rw [entryOfFile, hreport] at hentry
      exact (succeeded_iff report).2 hentry
  simp only [reportFiles, Option.isNone_none, Bool.true_and]
  exact if_congr hall rfl rfl

theorem exitCode_reportFiles_sole (format : OutputFormat)
    (hhome : ∃ expanded, fs.expandHome (.ofString file) = .ok expanded) :
    (reportFiles ready format ([file].filterMap (soleReport? grammarFor ready fs))
      none).exitCode = 0 ↔ (entryOfFile grammarFor ready fs file).isSome := by
  rw [exitCode_reportFiles format fun f hf => List.mem_singleton.1 hf ▸ hhome]
  cases hentry : entryOfFile grammarFor ready fs file with
  | none => simp [hentry]
  | some entry => simp [hentry]

/-- The listings of a run, file by file. -/
theorem printed_tree_filterMap (report? : String → Option FileReport) (files : List String) :
    printed .tree (files.filterMap report?) false =
      String.join (files.map fun file => printed .tree ([file].filterMap report?) false) := by
  induction files with
  | nil => exact Text.withoutEscapes_empty
  | cons file files ih =>
    rw [show file :: files = [file] ++ files from rfl, List.filterMap_append, printed_tree_append,
      ih, List.map_append, String.join_append]
    simp

/-- The object of a run is made of the entries of its files. -/
theorem printed_json_filterMap (files : List String) :
    printed .json (files.filterMap (soleReport? grammarFor ready fs)) false =
      (Value.ofEntries ((files.filterMap (entryOfFile grammarFor ready fs)).map
        fun (k, v) => (.string k, v))).toIndentedJson ++ "\n" := by
  have hentries : (files.filterMap (soleReport? grammarFor ready fs)).filterMap
      (·.outlineEntry) = (files.filterMap (entryOfFile grammarFor ready fs)).map
        fun (k, v) => (.string k, v) := by
    rw [List.filterMap_filterMap, List.map_filterMap]
    refine List.filterMap_congr fun file _ => ?_
    rw [entryOfFile]
    cases soleReport? grammarFor ready fs file with
    | none => rfl
    | some report => exact outlineEntry_eq report
  rw [← hentries]
  rfl

theorem printed_json_sole (file : String) :
    printed .json ([file].filterMap (soleReport? grammarFor ready fs)) false =
      (Value.object (entryOfFile grammarFor ready fs file).toList).toIndentedJson ++ "\n" := by
  rw [printed_json_filterMap]
  cases hentry : entryOfFile grammarFor ready fs file with
  | none =>
    rw [List.filterMap_cons_none hentry]
    rfl
  | some entry =>
    rw [List.filterMap_cons_some hentry]
    rfl

/-- **Files are outlined independently.**  If the command can be set up and no home is asked for
that is not there, then the listings of a run are those of its files one after the other, each as in
a run of its own; the object of a run has the entry of every file that has one in a run of its own,
under the URI of the file and in the order in which the URIs come first; and a run fails exactly if
one of its files fails in a run of its own. -/
theorem outline_files (grammarFor : Document → Grammar) (given : Surroundings)
    (config : Option String) (files : List String)
    (hsetUp : ∃ ready, setUp given config = .ok ready)
    (hhomes : ∀ file ∈ files, ∃ path, given.fs.expandHome (.ofString file) = .ok path)
    (hhere : ∀ name ∈ given.fs.here, Path.IsName name) :
    let run (files : List String) (format : OutputFormat) : Report :=
      Command.run (m := Id) grammarFor given (.outline files config format)
    (run files .tree).stdout = String.join (files.map fun file => (run [file] .tree).stdout) ∧
    (∃ (entryAt : String → Option (String × Value)) (entries : List (String × Value)),
      (∀ file ∈ files,
        (run [file] .json).stdout = (Value.object (entryAt file).toList).toIndentedJson ++ "\n" ∧
        ((run [file] .json).exitCode = 0 ↔ (entryAt file).isSome) ∧
        ∀ path entry, given.fs.expandHome (.ofString file) = .ok path → entryAt file = some entry →
          entry.1 = (path.resolve given.fs.here).uri) ∧
      (run files .json).stdout = (Value.object entries).toIndentedJson ++ "\n" ∧
      entries.map (·.1) = ((files.filterMap entryAt).map (·.1)).eraseDups ∧
      ∀ entry, entry ∈ entries ↔ entry ∈ files.filterMap entryAt) ∧
    ∀ format, (run files format).exitCode =
      if ∀ file ∈ files, (run [file] format).exitCode = 0 then 0 else 1 := by
  intro run
  obtain ⟨ready, hsetUp⟩ := hsetUp
  have hrun : ∀ format, run files format =
      reportFiles ready format (files.filterMap (soleReport? grammarFor ready given.fs)) none :=
    run_outline_eq grammarFor hsetUp hhomes
  have hsole : ∀ file ∈ files, ∀ format, run [file] format =
      reportFiles ready format ([file].filterMap (soleReport? grammarFor ready given.fs)) none := by
    intro file hfile
    exact run_outline_eq grammarFor hsetUp fun f hf => hhomes f (List.mem_singleton.1 hf ▸ hfile)
  have hexit : ∀ file ∈ files, ∀ format, (run [file] format).exitCode = 0 ↔
      (entryOfFile grammarFor ready given.fs file).isSome := by
    intro file hfile format
    rw [hsole file hfile]
    exact exitCode_reportFiles_sole format (hhomes file hfile)
  refine ⟨?_, ?_, fun format => ?_⟩
  · -- listings
    rw [hrun]
    show printed .tree _ false = _
    rw [printed_tree_filterMap]
    refine congrArg String.join (List.map_congr_left fun file hfile => ?_)
    rw [hsole file hfile]
    rfl
  · -- entries
    have hagree : ∀ a ∈ files.filterMap (entryOfFile grammarFor ready given.fs),
        ∀ b ∈ files.filterMap (entryOfFile grammarFor ready given.fs), a.1 = b.1 → a = b := by
      intro a ha b hb hkey
      obtain ⟨file, -, ha⟩ := List.mem_filterMap.1 ha
      obtain ⟨file', -, hb⟩ := List.mem_filterMap.1 hb
      exact eq_of_entryOfFile hhere ha hb hkey
    obtain ⟨entries, hentries, hkeys, hmem⟩ := Value.exists_ofEntries hagree
    refine ⟨entryOfFile grammarFor ready given.fs, entries,
      fun file hfile => ⟨?_, hexit file hfile _, fun path entry => key_of_entryOfFile⟩,
      ?_, hkeys, hmem⟩
    · rw [hsole file hfile]
      exact printed_json_sole file
    · rw [hrun]
      show printed .json _ false = _
      rw [printed_json_filterMap, hentries]
  · -- exit codes
    rw [hrun]
    show (reportFiles ready format _ none).exitCode = _
    rw [exitCode_reportFiles format hhomes]
    refine if_congr ?_ rfl rfl
    exact forall₂_congr fun file hfile => (hexit file hfile format).symm

/-- A folder with two files, the name of one of which begins with a tilde. -/
def tildeFolder : Surroundings where
  env := []
  fs := {
    here := ["work"]
    files := [(["work", "~nosuchuser_zz"], ⟨[], 7⟩), (["work", "b.rb"], ⟨[0x62], 8⟩)] }
  time := fun _ => ""

/-- A grammar that reads every source as a program without anything in it. -/
def emptyProgram (_ : Document) : Grammar :=
  .available fun s =>
    ⟨0, ⟨"program", ⟨0, ⟨0, 0⟩, s.bytes.size, ⟨0, s.bytes.size⟩⟩, true, false, false, none⟩, []⟩

/-- A file under two spellings, and one that is not there. -/
theorem outline_files_twoSpellings :
    let run (files : List String) (format : OutputFormat) : Report :=
      Command.run (m := Id) emptyProgram tildeFolder (.outline files none format)
    let files := ["b.rb", "missing.rb", "./b.rb"]
    (run files .tree).stdout = String.join (files.map fun file => (run [file] .tree).stdout) ∧
    (run files .json).exitCode =
      if ∀ file ∈ files, (run [file] .json).exitCode = 0 then 0 else 1 := by
  intro run files
  have hsetUp : ∃ ready, setUp tildeFolder none = .ok ready := ⟨_, rfl⟩
  have hhomes : ∀ file ∈ files, ∃ path, tildeFolder.fs.expandHome (.ofString file) = .ok path := by
    simp only [files, List.forall_mem_cons]
    exact ⟨⟨_, rfl⟩, ⟨_, rfl⟩, ⟨_, rfl⟩, by simp⟩
  have hhere : ∀ name ∈ tildeFolder.fs.here, Path.IsName name := by decide
  obtain ⟨htree, -, hexit⟩ := outline_files emptyProgram tildeFolder none files hsetUp hhomes hhere
  exact ⟨htree, hexit .json⟩

/-- Both files are there, and neither path begins with a tilde as it is written.  But the first one
asks for the home of nobody, which nothing catches, and the second one is not outlined any more. -/
theorem outline_tildeBeforeOther :
    let run (files : List String) : Report :=
      Command.run (m := Id) emptyProgram tildeFolder (.outline files none .tree)
    (Command.outline ["./~nosuchuser_zz", "b.rb"] none .tree).check tildeFolder.fs = .ok () ∧
    (run ["b.rb"]).stdout = "b.rb:\n" ∧ (run ["b.rb"]).exitCode = 0 ∧
    (run ["./~nosuchuser_zz", "b.rb"]).stdout = "" ∧
    (run ["./~nosuchuser_zz", "b.rb"]).crash = some (.home ⟨"nosuchuser_zz"⟩) := by
  intro run
  have hnothing : (run ["./~nosuchuser_zz", "b.rb"]).stdout = Text.withoutEscapes "" := by rfl
  refine ⟨by rfl, ?_, by rfl, hnothing.trans Text.withoutEscapes_empty, by rfl⟩
  let ready : Ready := ⟨{}, .rails, none⟩
  let d : Document := ⟨"file:///work/b.rb", .ofString "b", 8⟩
  let root : ParseNode :=
    ⟨0, ⟨"program", ⟨0, ⟨0, 0⟩, 1, ⟨0, 1⟩⟩, true, false, false, none⟩, []⟩
  let outlined := ready.outliner.outline d root
  have hsymbols : outlined.symbols = [] := by
    have hids : root.DistinctIds := by decide
    simp only [outlined, Outliner.outline]
    rw [Converter.outline_convertTree_eq _ _ 2 hids (by decide)]
    decide
  have hreport : soleReport? emptyProgram ready tildeFolder.fs "b.rb" =
      some ⟨.ofString "b.rb", some d, .ok outlined⟩ := by rfl
  have hlisting : FileReport.listing ⟨.ofString "b.rb", some d, .ok outlined⟩ = "b.rb:\n" := by
    rw [FileReport.listing]
    simp only [hsymbols]
    rfl
  have hsetUp : setUp tildeFolder none = .ok ready := by rfl
  have hhomes : ∀ file ∈ ["b.rb"], ∃ path,
      tildeFolder.fs.expandHome (.ofString file) = .ok path := by
    rw [List.forall_mem_singleton]
    exact ⟨_, rfl⟩
  have hrun := run_outline_eq emptyProgram hsetUp hhomes .tree
  show (Command.run (m := Id) emptyProgram tildeFolder _).stdout = _
  rw [hrun, List.filterMap_cons_some hreport]
  show Text.withoutEscapes (String.join [FileReport.listing _]) = _
  rw [hlisting, Text.withoutEscapes]
  simp [Text.dropEscapes]

end CommandLine

end RubyOutline
