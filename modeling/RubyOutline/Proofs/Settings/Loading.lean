/-
RubyOutline/Proofs/Settings/Loading.lean

In which errors the loading of a settings file can end, if the file is there.  Commands catch some
errors and report them (`LoadError.isReported`); any other ends the program.

`FailsWith` follows errors through a computation step by step.  So read, the environment has one way
to fail (`Environment.failsWith_entries`), and as long as no key is taken for an option, what is
given has none of its own (`Given.ofEntries_eq`).  From there on everything is reported
(`Settings.failsWith_accept`).  Between the reader and that point stands the step that asks the root
for its entries, and a key that is no text gets past all reports there
(`Settings.load_reports_iff`).  A command crashes on it (`Settings.run_outline_of_load_error`).
-/
import RubyOutline.CommandLine.Run

namespace RubyOutline

/-! ### Computations and their errors -/

/-- All errors in which a computation can end are of a kind. -/
def FailsWith {ε α : Type} (P : ε → Prop) (x : Except ε α) : Prop := ∀ e, x = .error e → P e

namespace FailsWith

variable {ε α β σ : Type} {P : ε → Prop}

theorem ok (a : α) : FailsWith P (.ok a : Except ε α) := fun _ h => by cases h

theorem error {e : ε} (he : P e) : FailsWith P (.error e : Except ε α) := fun _ h => by
  cases h
  exact he

theorem bind {x : Except ε α} {f : α → Except ε β} (hx : FailsWith P x)
    (hf : ∀ a, FailsWith P (f a)) : FailsWith P (x >>= f) := by
  cases x with
  | error e => exact error (hx e rfl)
  | ok a => exact hf a

theorem mapM {f : α → Except ε β} (hf : ∀ a, FailsWith P (f a)) (as : List α) :
    FailsWith P (as.mapM f) := by
  induction as with
  | nil => exact ok []
  | cons a as ih =>
    rw [List.mapM_cons]
    exact (hf a).bind fun b => ih.bind fun bs => ok (b :: bs)

theorem foldlM {f : σ → α → Except ε σ} (hf : ∀ s a, FailsWith P (f s a)) (as : List α) (s : σ) :
    FailsWith P (as.foldlM f s) := by
  induction as generalizing s with
  | nil => exact ok s
  | cons a as ih =>
    rw [List.foldlM_cons]
    exact (hf s a).bind ih

end FailsWith

theorem exists_of_any_toOption {ε α : Type} {x : Except ε α} {p : α → Bool}
    (h : x.toOption.any p = true) : ∃ a, x = .ok a ∧ p a = true := by
  cases x with
  | error e => cases h
  | ok a => exact ⟨a, rfl, h⟩

/-! ### The environment -/

/-- A variable should hold JSON and does not. -/
def EnvironmentError.IsNotJson (e : EnvironmentError) : Prop := ∃ name, e = .notJson name

namespace Environment

open EnvironmentError

theorem failsWith_json (name text : String) : FailsWith IsNotJson (json name text) := by
  rw [json]
  split
  · exact .ok _
  · exact .error ⟨name, rfl⟩

theorem failsWith_fieldsOf (o : EnvironmentOptions) (fields : List (String × Bool))
    (sectionName : String) (vars : Environment) :
    FailsWith IsNotJson (fieldsOf o fields sectionName vars) := by
  rw [fieldsOf]
  split
  · exact .ok []
  · refine .foldlM (fun entries (name, text) => ?_) vars []
    dsimp only
    split
    · exact .ok entries
    · split
      · exact (failsWith_json name text).bind fun value => .ok _
      · exact .ok _

theorem failsWith_sectionValue (o : EnvironmentOptions) (vars : Environment) (key : String)
    (fields : List (String × Bool)) : FailsWith IsNotJson (sectionValue o vars key fields) := by
  rw [sectionValue]
  split
  case h_1 text _ =>
    split
    · exact .ok _
    · refine (failsWith_json _ text).bind fun v => ?_
      split
      · exact .ok none
      · exact (failsWith_fieldsOf o fields _ vars).bind fun single => .ok _
      · exact .ok (some v)
  case h_2 => exact (failsWith_fieldsOf o fields _ vars).bind fun single => .ok _

theorem failsWith_entries (o : EnvironmentOptions) (vars : Environment) :
    FailsWith IsNotJson (entries o vars) := by
  refine FailsWith.bind ?_ fun found => .ok _
  exact .mapM (fun (key, fields) => (failsWith_sectionValue o vars key fields).bind
    fun v => .ok (key, v)) _

end Environment

/-! ### What is given -/

namespace Given

/-- A key that is taken for an option, or cannot be given at all. -/
def isParameter : Value → Bool
  | .string name => name = reservedKey || optionKeys.contains name
  | _ => false

variable {entries : List (Value × Value)}

theorem lookup?_eq_none (hplain : ∀ e ∈ entries, isParameter e.1 = false) {key : String}
    (hkey : isParameter (.string key) = true) : Value.lookup? key entries = none := by
  rw [Value.lookup?, List.findSome?_eq_none_iff]
  rintro ⟨k, v⟩ he
  cases k with
  | string name =>
    refine if_neg fun h => ?_
    have hname := hplain _ he
    rw [beq_iff_eq.1 h, hkey] at hname
    cases hname
  | _ => rfl

/-- Without options there are no files with variables. -/
theorem ofEntries_eq (hplain : ∀ e ∈ entries, isParameter e.1 = false) :
    ∃ options given, ofEntries entries = .ok ⟨options, [], given⟩ := by
  rw [ofEntries, lookup?_eq_none hplain (by decide), fileOption, optionsOf, startOption, option?,
    option?, lookup?_eq_none hplain (by decide), lookup?_eq_none hplain (by decide)]
  exact ⟨_, _, rfl⟩

end Given

/-! ### Reported errors -/

namespace Settings

variable (env : Environment) (fs : FileSystem)

theorem failsWith_ofEntries {entries : List (Value × Value)}
    (hplain : ∀ e ∈ entries, Given.isParameter e.1 = false) :
    FailsWith EnvironmentError.IsNotJson (ofEntries env fs entries) := by
  obtain ⟨options, given, hgiven⟩ := Given.ofEntries_eq hplain
  rw [ofEntries, hgiven]
  show FailsWith _ (do
    let above ← Environment.entries options (Environment.normalize options env)
    let below ← Given.fileEntries options []
    return check (Value.overlayEntries below (Value.overlayEntries above given)))
  refine (Environment.failsWith_entries options _).bind fun above => ?_
  refine FailsWith.bind ?_ fun below => .ok _
  exact (Environment.failsWith_entries options _).bind fun found => .ok _

theorem failsWith_accept (path : Option Path) {entries : List (Value × Value)}
    (hplain : ∀ e ∈ entries, Given.isParameter e.1 = false) :
    FailsWith (LoadError.isReported ·) (accept env fs path entries) := by
  have hfails := failsWith_ofEntries env fs hplain
  rw [accept]
  split
  case h_1 e h =>
    obtain ⟨name, rfl⟩ := hfails e h
    exact .error rfl
  case h_2 => exact .error rfl
  case h_3 settings _ => exact .ok settings

/-! ### Loading -/

/-- The keys of a mapping at the root are texts. -/
def hasTextKeys : Value → Bool
  | .map entries => entries.all fun e => isTextKey e.1
  | _ => true

/-- No key of a mapping at the root is taken for an option. -/
def hasPlainKeys : Value → Bool
  | .map entries => entries.all fun e => !Given.isParameter e.1
  | _ => true

/-- Loading with any reader of values in the place of the one for YAML. -/
def loadBy (read : List UInt8 → Except LoadError Value) :
    Option Path → Except LoadError Settings
  | none => accept env fs none []
  | some path =>
    match fs.follow path.toString with
    | .error (.nameTooLong path) => .error (.file (.nameTooLong path))
    | .error _ => .error (.missing path)
    | .ok .folder => .error (.file (.isFolder path))
    | .ok (.file file) => do accept env fs path (← entriesOf (← read file.bytes))

theorem loadBy_valueOfBytes : loadBy env fs valueOfBytes = load env fs := by
  funext path
  cases path <;> rfl

theorem loadBy_eq (read : List UInt8 → Except LoadError Value) {path : Path} {file : File}
    (hfile : fs.follow path.toString = .ok (.file file)) :
    loadBy env fs read (some path) =
      (read file.bytes >>= fun value => entriesOf value >>= accept env fs (some path)) := by
  rw [loadBy, hfile]

theorem entriesOf_eq_keyType {value : Value} (h : hasTextKeys value = false) :
    entriesOf value = .error .keyType := by
  cases value with
  | map entries =>
    rw [entriesOf, if_neg]
    rw [hasTextKeys] at h
    rw [h]
    exact Bool.false_ne_true
  | _ => cases h

/-- With texts for keys, all that can go wrong after reading is reported. -/
theorem failsWith_accept_entriesOf (path : Option Path) {value : Value}
    (htext : hasTextKeys value = true) (hplain : hasPlainKeys value = true) :
    FailsWith (LoadError.isReported ·) (entriesOf value >>= accept env fs path) := by
  cases value with
  | null => exact failsWith_accept env fs path (List.forall_mem_nil _)
  | map entries =>
    have hentries : entriesOf (.map entries) = .ok entries := if_pos htext
    rw [hentries]
    refine failsWith_accept env fs path fun e he => ?_
    simpa using List.all_eq_true.1 hplain e he
  | _ => exact .error rfl

/-- What the `outline` command makes of an error of loading: one that is reported it tells its
caller, and by any other one it is ended.  Nothing is outlined either way. -/
theorem run_outline_of_load_error {m : Type → Type} [Monad m]
    (grammarFor : Document → m Grammar) (time : String → String) (files : List String)
    (config : String) (format : CommandLine.OutputFormat) {e : LoadError}
    (h : load env fs (some (Path.ofString config)) = .error e) :
    CommandLine.Command.run grammarFor ⟨env, fs, time⟩ (.outline files (some config) format) =
      pure (if e.isReported then CommandLine.failureReport e.message
        else CommandLine.crashReport (.load e)) := by
  have hloaded : CommandLine.loadSettings ⟨env, fs, time⟩ (some config) =
      .error (if e.isReported then CommandLine.failureReport e.message
        else CommandLine.crashReport (.load e)) := by
    rw [CommandLine.loadSettings, Option.map_some, h]
    rfl
  rw [CommandLine.Command.run, CommandLine.setUp, hloaded]
  rfl

/-- Loading fails only in errors that are reported, exactly if no key at the root is other than a
text. -/
theorem failsWith_loadBy_iff (read : List UInt8 → Except LoadError Value) {path : Path}
    {file : File} (hfile : fs.follow path.toString = .ok (.file file))
    (hread : FailsWith (LoadError.isReported ·) (read file.bytes))
    (hplain : ∀ value, read file.bytes = .ok value → hasPlainKeys value = true) :
    FailsWith (LoadError.isReported ·) (loadBy env fs read (some path)) ↔
      ∀ value, read file.bytes = .ok value → hasTextKeys value = true := by
  rw [loadBy_eq env fs read hfile]
  cases hvalue : read file.bytes with
  | error e => exact iff_of_true (.error (hread e hvalue)) fun value h => by cases h
  | ok value =>
    show FailsWith _ (entriesOf value >>= accept env fs (some path)) ↔ _
    cases htext : hasTextKeys value with
    | false =>
      -- the one error that is not reported
      rw [entriesOf_eq_keyType htext]
      refine iff_of_false (fun h => Bool.false_ne_true (h .keyType rfl)) fun h => ?_
      rw [h value rfl] at htext
      cases htext
    | true =>
      refine iff_of_true (failsWith_accept_entriesOf env fs _ htext (hplain value hvalue)) ?_
      intro value' h
      cases h
      exact htext

/-- **Loading reports whatever is wrong with a settings file that is there, exactly if no key at its
root is other than a text.**  An error that is reported the `outline` command tells its caller, and
an error that is not ends it.  The reader may be any one that gives a value or an error that is
reported, and no key may be taken for an option. -/
theorem load_reports_iff (read : List UInt8 → Except LoadError Value) {path : Path} {file : File}
    (hfile : fs.follow path.toString = .ok (.file file))
    (hread : FailsWith (LoadError.isReported ·) (read file.bytes))
    (hplain : ∀ value, read file.bytes = .ok value → hasPlainKeys value = true) :
    (FailsWith (LoadError.isReported ·) (loadBy env fs read (some path)) ↔
      ∀ value, read file.bytes = .ok value → hasTextKeys value = true) ∧
    ∀ {m : Type → Type} [Monad m] (grammarFor : Document → m Grammar) (time : String → String)
      (files : List String) (config : String) (format : CommandLine.OutputFormat) (e : LoadError),
      load env fs (some (Path.ofString config)) = .error e →
        let run := CommandLine.Command.run grammarFor ⟨env, fs, time⟩
          (.outline files (some config) format)
        (e.isReported = true → run = pure (CommandLine.failureReport e.message)) ∧
          (e.isReported = false → run = pure (CommandLine.crashReport (.load e))) := by
  refine ⟨failsWith_loadBy_iff env fs read hfile hread hplain, ?_⟩
  intro m _ grammarFor time files config format e h run
  have hrun : run = pure (if e.isReported then CommandLine.failureReport e.message
      else CommandLine.crashReport (.load e)) :=
    run_outline_of_load_error env fs grammarFor time files config format h
  constructor
  · intro hreported
    rw [hrun, if_pos hreported]
  · intro hreported
    rw [hrun, hreported, if_neg Bool.false_ne_true]

/-- A working folder with a settings file in it. -/
def oneFile (text : String) : FileSystem :=
  { here := [], files := [(["c.yaml"], ⟨text.toUTF8.toList, 0⟩)] }

/-- A section that is no mapping is reported. -/
theorem load_reports_sectionOfNumber :
    (load [] (oneFile "server: 5\n") (some (.ofString "c.yaml"))).isOk = false ∧
      FailsWith (LoadError.isReported ·)
        (load [] (oneFile "server: 5\n") (some (.ofString "c.yaml"))) := by
  obtain ⟨value, hvalue, hkeys⟩ := exists_of_any_toOption
    (x := valueOfBytes "server: 5\n".toUTF8.toList)
    (p := fun value => hasTextKeys value && hasPlainKeys value) (by decide +kernel)
  obtain ⟨htext, hplain⟩ := (Bool.and_eq_true _ _).mp hkeys
  refine ⟨by decide +kernel, ?_⟩
  rw [← loadBy_valueOfBytes]
  refine (load_reports_iff [] (oneFile "server: 5\n") valueOfBytes rfl ?_ ?_).1.2 ?_
  · show FailsWith _ (valueOfBytes "server: 5\n".toUTF8.toList)
    rw [hvalue]
    exact .ok value
  · intro value' h
    cases hvalue.symm.trans h
    exact hplain
  · intro value' h
    cases hvalue.symm.trans h
    exact htext

/-- A number for a key is not reported, and ends the `outline` command. -/
theorem load_keyOfNumber :
    (oneFile "1: x\n").follow (Path.ofString "c.yaml").toString =
        .ok (.file ⟨"1: x\n".toUTF8.toList, 0⟩) ∧
      load [] (oneFile "1: x\n") (some (.ofString "c.yaml")) = .error .keyType ∧
      ¬ FailsWith (LoadError.isReported ·)
        (load [] (oneFile "1: x\n") (some (.ofString "c.yaml"))) ∧
      ∀ (grammarFor : Document → Grammar) (time : String → String) (files : List String)
        (format : CommandLine.OutputFormat),
        CommandLine.Command.run (m := Id) grammarFor ⟨[], oneFile "1: x\n", time⟩
            (.outline files (some "c.yaml") format) =
          CommandLine.crashReport (.load .keyType) := by
  obtain ⟨value, hvalue, hkeys⟩ := exists_of_any_toOption
    (x := valueOfBytes "1: x\n".toUTF8.toList)
    (p := fun value => !hasTextKeys value) (by decide +kernel)
  have hfile : (oneFile "1: x\n").follow (Path.ofString "c.yaml").toString =
      .ok (.file ⟨"1: x\n".toUTF8.toList, 0⟩) := rfl
  have hload : load [] (oneFile "1: x\n") (some (.ofString "c.yaml")) = .error .keyType := by
    rw [← loadBy_valueOfBytes, loadBy_eq _ _ _ hfile]
    show (valueOfBytes "1: x\n".toUTF8.toList >>= _) = _
    rw [hvalue]
    show entriesOf value >>= _ = _
    rw [entriesOf_eq_keyType (by simpa using hkeys)]
    rfl
  refine ⟨hfile, hload, fun h => Bool.false_ne_true (h .keyType hload), ?_⟩
  intro grammarFor time files format
  exact run_outline_of_load_error (m := Id) [] _ grammarFor time files "c.yaml" format hload

end Settings

end RubyOutline
