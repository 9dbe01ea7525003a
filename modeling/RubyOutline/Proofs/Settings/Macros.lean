/-
RubyOutline/Proofs/Settings/Macros.lean

The macro table of checked settings.  A check that is accepted has accepted all its parts
(`Checked.seq_eq_accepted_iff`, `Check.fieldOr_names_eq_accepted`), so extra and disabled callbacks
are the names written down, without the white space around them, and none of them is empty.  But a
name in the settings may hold a surrogate and the name of a macro may not.  So there is a table
exactly if all extra names are strings (`MacroSettings.buildTable_eq_accepted`,
`MacroSettings.buildTable_eq_rejected`).

The table of the settings is the default one after two changes, so what its history says about it
holds here too: `MacroTable.callbacks_followHistory` states it for tables and for settings.
-/
import RubyOutline.Proofs.CommandLine.Printed
import RubyOutline.Proofs.MacroTable.History
import RubyOutline.Proofs.Settings.Loading

namespace RubyOutline

/-! ### Accepted values -/

namespace Checked

variable {α β : Type}

theorem map_eq_accepted_iff {f : α → β} {x : Checked α} {b : β} :
    f <$> x = accepted b ↔ ∃ a, x = accepted a ∧ f a = b := by
  show map f x = accepted b ↔ _
  cases x <;> simp [map]

theorem seq_eq_accepted_iff {f : Checked (α → β)} {x : Checked α} {b : β} :
    f <*> x = accepted b ↔ ∃ g a, f = accepted g ∧ x = accepted a ∧ g a = b := by
  show both f x = accepted b ↔ _
  cases f <;> cases x <;> simp [both]

theorem andThen_eq_accepted_iff {x : Checked α} {f : α → Checked β} {b : β} :
    x.andThen f = accepted b ↔ ∃ a, x = accepted a ∧ f a = accepted b := by
  cases x <;> simp [andThen]

theorem under_eq_accepted_iff {step : Step} {x : Checked α} {a : α} :
    x.under step = accepted a ↔ x = accepted a := by
  cases x <;> simp [under]

theorem inTurn_map_accepted {f : β → Checked α} {g : β → α} {bs : List β}
    (h : ∀ b ∈ bs, f b = accepted (g b)) : inTurn (bs.map f) = accepted (bs.map g) := by
  induction bs with
  | nil => rfl
  | cons b bs ih =>
    rw [List.forall_mem_cons] at h
    rw [List.map_cons, inTurn, h.1, ih h.2]
    rfl

/-- If checks can be rejected in one way only, then it does not matter which of them is the first
that is. -/
theorem inTurn_map_rejected {f : β → Checked α} {issues : List Issue} {bs : List β}
    (h : ∀ b ∈ bs, (∃ a, f b = accepted a) ∨ f b = rejected issues)
    (hrejected : ∃ b ∈ bs, f b = rejected issues) : inTurn (bs.map f) = rejected issues := by
  induction bs with
  | nil =>
    obtain ⟨b, hb, -⟩ := hrejected
    cases hb
  | cons b bs ih =>
    obtain ⟨hb, hbs⟩ := List.forall_mem_cons.1 h
    rw [List.map_cons, inTurn]
    rcases hb with ⟨a, ha⟩ | hb
    · have hlater : ∃ b ∈ bs, f b = rejected issues := by
        obtain ⟨b', hmem, hb'⟩ := hrejected
        rcases List.mem_cons.1 hmem with rfl | hmem
        · cases ha.symm.trans hb'
        · exact ⟨b', hmem, hb'⟩
      rw [ha, ih hbs hlater]
      rfl
    · rw [hb]
      rfl

end Checked

open Checked

/-- Accepted names are the texts of the field, stripped, and none is blank. -/
theorem Check.fieldOr_names_eq_accepted {entries : List (Value × Value)} {key : String}
    {names : List AnyText} (h : Check.fieldOr entries key [] Check.names = accepted names) :
    ∃ raw, Check.fieldOr entries key [] (Check.listOf Check.text) = accepted raw ∧
      names = raw.map AnyText.strip ∧ .string "" ∉ names := by
  rw [fieldOr] at h
  rw [fieldOr]
  cases hv : Value.lookup? key entries with
  | none =>
    rw [hv] at h
    cases h
    exact ⟨[], rfl, rfl, List.not_mem_nil⟩
  | some v =>
    rw [hv] at h
    obtain ⟨raw, hraw, hnames⟩ := andThen_eq_accepted_iff.1 (under_eq_accepted_iff.1 h)
    dsimp only at hnames
    split at hnames
    · cases hnames
    case isFalse hblank =>
      cases hnames
      exact ⟨raw, under_eq_accepted_iff.2 hraw, rfl, by simpa using hblank⟩

/-! ### Macros -/

/-- A macro that was checked has a name. -/
theorem CallbackMacro.name_ne_of_check {v : Value} {m : CallbackMacro}
    (h : CallbackMacro.check v = accepted m) : m.name ≠ "" := by
  cases v with
  | map entries =>
    obtain ⟨_, _, hblock, -, rfl⟩ := seq_eq_accepted_iff.1 h
    obtain ⟨_, _, harguments, -, rfl⟩ := seq_eq_accepted_iff.1 hblock
    obtain ⟨_, _, hfamily, -, rfl⟩ := seq_eq_accepted_iff.1 harguments
    obtain ⟨name, hname, rfl⟩ := map_eq_accepted_iff.1 hfamily
    rw [Check.required] at hname
    split at hname
    · cases hname
    · obtain ⟨s, -, hs⟩ := andThen_eq_accepted_iff.1 (under_eq_accepted_iff.1 hname)
      split at hs
      · cases hs
      case isFalse hne =>
        cases hs
        exact hne
  | _ => cases h

/-- The macro of an extra callback. -/
def CallbackMacro.custom (name : String) : CallbackMacro := ⟨name, .custom, true, true⟩

/-- A macro of which no more is given than a name is checked by checking the name. -/
theorem CallbackMacro.check_named (v : Value) :
    CallbackMacro.check (.object [("name", v)]) =
      ((Check.nonemptyString v).under (.key "name")).map .custom := by
  show Checked.both (Checked.both (Checked.both (Checked.map _
    ((Check.nonemptyString v).under _)) _) _) _ = _
  cases Check.nonemptyString v <;> rfl

theorem CallbackMacro.check_name {name : String} (h : name ≠ "") :
    CallbackMacro.check (.object [("name", .string name)]) = accepted (.custom name) := by
  have hname : Check.nonemptyString (.string name) = accepted name := if_neg h
  rw [check_named, hname]
  rfl

/-- What is wrong with a macro whose name holds a surrogate. -/
def CallbackMacro.brokenName : List Issue := [⟨[.key "name"], .stringUnicode⟩]

theorem CallbackMacro.check_brokenName {codes : Text.Codes}
    (h : codes.any Text.isSurrogate = true) :
    CallbackMacro.check (.object [("name", .brokenString codes)]) = rejected brokenName := by
  have hname : Check.nonemptyString (.brokenString codes) = issue .stringUnicode := by
    rw [Check.nonemptyString, Check.string, Check.text, AnyText.ofCodes_of_any h]
    rfl
  rw [check_named, hname]
  rfl

/-! ### The table of the settings -/

namespace MacroSettings

open MacroTable

variable {s : MacroSettings}

/-- There is a table if all extra names are strings. -/
theorem buildTable_eq_accepted (hblank : .string "" ∉ s.extraCallbacks)
    (hstrings : ∀ name ∈ s.extraCallbacks, name.isString = true) :
    s.buildTable =
      accepted (s.tableWith ((AnyText.strings s.extraCallbacks).map CallbackMacro.custom)) := by
  have hmade : ∀ name ∈ AnyText.strings s.extraCallbacks,
      extraMacro (.string name) = accepted (.custom name) := by
    intro name hname
    refine CallbackMacro.check_name fun hempty => hblank ?_
    rw [← hempty]
    exact AnyText.mem_strings.1 hname
  have hextras : s.extraCallbacks = (AnyText.strings s.extraCallbacks).map .string :=
    AnyText.eq_map_strings hstrings
  rw [buildTable, hextras, List.map_map, AnyText.strings_map,
    inTurn_map_accepted (f := extraMacro ∘ .string) hmade]
  rfl

/-- There is none if one of them is not. -/
theorem buildTable_eq_rejected (hblank : .string "" ∉ s.extraCallbacks)
    (hbroken : ∃ name ∈ s.extraCallbacks, name.isString = false) :
    s.buildTable = rejected CallbackMacro.brokenName := by
  have hcases : ∀ name ∈ s.extraCallbacks, (∃ m, extraMacro name = accepted m) ∨
      extraMacro name = rejected CallbackMacro.brokenName := by
    intro name hname
    cases name with
    | string name =>
      exact .inl ⟨_, CallbackMacro.check_name fun hempty => hblank (hempty ▸ hname)⟩
    | broken codes h => exact .inr (CallbackMacro.check_brokenName h)
  have hrejected : ∃ name ∈ s.extraCallbacks,
      extraMacro name = rejected CallbackMacro.brokenName := by
    obtain ⟨name, hmem, hname⟩ := hbroken
    cases name with
    | string name => cases hname
    | broken codes h => exact ⟨_, hmem, CallbackMacro.check_brokenName h⟩
  rw [buildTable, inTurn_map_rejected hcases hrejected]
  rfl

/-- What some extra and some disabled names make of the default table. -/
structure Makes (extras disabled : List AnyText) (table : MacroTable) : Prop where
  callback? : ∀ method, table.callback? method =
    if .string method ∈ disabled then none
    else if .string method ∈ extras then some (.custom method)
    else rails.callback? method
  /-- What is left of the default table stands first, and after it the new names in the order in
  which they are first mentioned. -/
  names : table.callbacks.map (·.name) =
    (rails.callbacks.map (·.name)).filter (.string · ∉ disabled) ++
      (AnyText.strings extras).eraseDups.filter fun name =>
        name ∉ rails.callbacks.map (·.name) ∧ .string name ∉ disabled

/-- The callbacks of the table, as the last of two changes leaves them. -/
theorem callbacks_tableWith (s : MacroSettings) (macros : List CallbackMacro) :
    (s.tableWith macros).callbacks =
      touch (macros.foldl insertCallback rails.callbacks)
        (.drop (AnyText.strings s.disabledCallbacks)) := rfl

theorem findSome?_settles_custom (names : List String) (method : String) :
    ((names.map CallbackMacro.custom).map Touch.put).findSome? (·.settles? method) =
      if method ∈ names then some (some (.custom method)) else none := by
  induction names with
  | nil => rfl
  | cons name names ih =>
    rw [List.map_cons, List.map_cons, List.findSome?_cons, ih]
    by_cases hname : name = method
    · simp [Touch.settles?, CallbackMacro.custom, hname]
    · simp [Touch.settles?, CallbackMacro.custom, hname, Ne.symm hname]

theorem callback?_tableWith (s : MacroSettings) (names : List String) (method : String) :
    (s.tableWith (names.map CallbackMacro.custom)).callback? method =
      if .string method ∈ s.disabledCallbacks then none
      else if method ∈ names then some (.custom method)
      else rails.callback? method := by
  have hextras : ((names.map CallbackMacro.custom).foldl insertCallback
      rails.callbacks).find? (·.name == method) =
        if method ∈ names then some (.custom method) else rails.callback? method := by
    rw [show insertCallback = fun callbacks m => touch callbacks (.put m) from rfl,
      ← List.foldl_map, find?_foldl_touch, ← List.map_reverse, ← List.map_reverse,
      findSome?_settles_custom, callback?]
    simp only [List.mem_reverse]
    split <;> rfl
  rw [callback?, callbacks_tableWith, find?_touch, hextras, Touch.settles?]
  simp only [AnyText.mem_strings]
  split <;> rfl

/-- Macros put in one by one bring the new names among them, in the order of first mention. -/
theorem map_name_foldl_insertCallback (callbacks macros : List CallbackMacro) :
    (macros.foldl insertCallback callbacks).map (·.name) =
      callbacks.map (·.name) ++
        (macros.map (·.name)).eraseDups.filter (· ∉ callbacks.map (·.name)) := by
  induction macros using List.reverseRecOn with
  | nil => simp
  | append_singleton macros m ih =>
    rw [List.foldl_append, List.foldl_cons, List.foldl_nil, map_name_insertCallback, ih,
      List.map_append, List.map_singleton, Value.eraseDups_concat]
    by_cases hold : m.name ∈ callbacks.map (·.name)
    · rw [if_pos (List.mem_append_left _ hold)]
      split
      · rfl
      · rw [List.filter_append, List.filter_cons_of_neg (by simpa using hold), List.filter_nil,
          List.append_nil]
    · by_cases hnew : m.name ∈ macros.map (·.name)
      · rw [if_pos hnew, if_pos]
        exact List.mem_append_right _
          (List.mem_filter.2 ⟨List.mem_eraseDups.2 hnew, decide_eq_true hold⟩)
      · rw [if_neg hnew, if_neg, List.filter_append, List.filter_cons_of_pos (by simpa using hold),
          List.filter_nil, List.append_assoc]
        rw [List.mem_append, List.mem_filter, List.mem_eraseDups]
        exact fun h => h.elim hold fun h => hnew h.1

theorem map_name_tableWith (s : MacroSettings) (names : List String) :
    (s.tableWith (names.map CallbackMacro.custom)).callbacks.map (·.name) =
      (rails.callbacks.map (·.name)).filter (.string · ∉ s.disabledCallbacks) ++
        names.eraseDups.filter fun name =>
          name ∉ rails.callbacks.map (·.name) ∧ .string name ∉ s.disabledCallbacks := by
  have hdrop : ∀ callbacks : List CallbackMacro,
      (touch callbacks (.drop (AnyText.strings s.disabledCallbacks))).map (·.name) =
        (callbacks.map (·.name)).filter (.string · ∉ s.disabledCallbacks) := by
    intro callbacks
    rw [touch, List.filter_map]
    congr 2
    funext c
    simp [AnyText.mem_strings]
  have hcustom : (names.map CallbackMacro.custom).map (·.name) = names := by
    rw [List.map_map]
    exact List.map_id _
  rw [callbacks_tableWith, hdrop, map_name_foldl_insertCallback, hcustom, List.filter_append,
    List.filter_filter]
  congr 2
  funext name
  rw [Bool.decide_and, Bool.and_comm]

/-- The table of checked settings, if its names allow for one. -/
theorem makes_of_check {v : Value} {s : MacroSettings} (h : MacroSettings.check v = accepted s) :
    ∃ entries extras disabled, v = .map entries ∧
      Check.fieldOr entries "extra_callbacks" [] (Check.listOf Check.text) = accepted extras ∧
      Check.fieldOr entries "disabled_callbacks" [] (Check.listOf Check.text) =
        accepted disabled ∧
      ((∀ name ∈ extras, name.isString = true) → ∃ table, s.buildTable = accepted table ∧
        Makes (extras.map AnyText.strip) (disabled.map AnyText.strip) table) ∧
      ((∃ name ∈ extras, name.isString = false) →
        s.buildTable = rejected CallbackMacro.brokenName) := by
  cases v with
  | map entries =>
    obtain ⟨_, _, h₁, -, rfl⟩ := seq_eq_accepted_iff.1 h
    obtain ⟨_, _, h₂, hdisabled, rfl⟩ := seq_eq_accepted_iff.1 h₁
    obtain ⟨_, _, h₃, hextras, rfl⟩ := seq_eq_accepted_iff.1 h₂
    obtain ⟨_, _, h₄, -, rfl⟩ := seq_eq_accepted_iff.1 h₃
    obtain ⟨_, -, rfl⟩ := map_eq_accepted_iff.1 h₄
    obtain ⟨extras, hrawExtras, rfl, hblank⟩ := Check.fieldOr_names_eq_accepted hextras
    obtain ⟨disabled, hrawDisabled, rfl, -⟩ := Check.fieldOr_names_eq_accepted hdisabled
    refine ⟨entries, extras, disabled, rfl, hrawExtras, hrawDisabled, fun hstrings => ?_,
      fun hbroken => ?_⟩
    · refine ⟨_, buildTable_eq_accepted hblank ?_, fun method => ?_, map_name_tableWith _ _⟩
      · rw [List.forall_mem_map]
        simpa using hstrings
      · rw [callback?_tableWith]
        simp only [AnyText.mem_strings]
    · obtain ⟨name, hmem, hname⟩ := hbroken
      refine buildTable_eq_rejected hblank ⟨name.strip, List.mem_map_of_mem hmem, ?_⟩
      rw [AnyText.isString_strip, hname]
  | _ => cases h

end MacroSettings

/-! ### Tables and settings -/

namespace MacroTable

/-- The macros that a change puts in have been checked. -/
def Change.PutsChecked : Change → Prop
  | .withCallbacks macros => ∀ m ∈ macros, ∃ v, CallbackMacro.check v = accepted m
  | .withoutCallbacks _ => True

theorem Change.PutsChecked.putsNamed {change : Change} (h : change.PutsChecked) :
    change.PutsNamed := by
  cases change with
  | withCallbacks macros =>
    intro m hm
    obtain ⟨v, hv⟩ := h m hm
    exact CallbackMacro.name_ne_of_check hv
  | withoutCallbacks names => trivial

theorem nodup_map_name_rails : (rails.callbacks.map (·.name)).Nodup := by decide

theorem name_ne_of_mem_rails : ∀ c ∈ rails.callbacks, c.name ≠ "" := by decide

/-- **A macro table follows its history.**  However the empty table or the default one is changed by
macros put in and names taken out, the last mention of a method decides what the table says about
it, its keys are different names that are not empty, each the name of its own macro, and they stand
in the order in which they came in.  So does the table of checked settings, for which a disabled
name beats an extra one, and that the default, if there is one: exactly if none of the extra names
holds a surrogate. -/
theorem callbacks_followHistory (start : MacroTable) (changes : List Change) (v : Value)
    (s : MacroSettings) :
    (start ∈ [empty, rails] → (∀ change ∈ changes, change.PutsChecked) →
      Follows start changes (start.changeAll changes)
        (changes.foldl Mapping.change start.mapping)) ∧
    (MacroSettings.check v = accepted s →
      ∃ entries extras disabled, v = .map entries ∧
        Check.fieldOr entries "extra_callbacks" [] (Check.listOf Check.text) = accepted extras ∧
        Check.fieldOr entries "disabled_callbacks" [] (Check.listOf Check.text) =
          accepted disabled ∧
        ((∀ name ∈ extras, name.isString = true) → ∃ table, s.buildTable = accepted table ∧
          MacroSettings.Makes (extras.map AnyText.strip) (disabled.map AnyText.strip) table) ∧
        ((∃ name ∈ extras, name.isString = false) →
          s.buildTable = rejected CallbackMacro.brokenName)) := by
  refine ⟨fun hstart hchecked => ?_, fun h => MacroSettings.makes_of_check h⟩
  have hnamed : ∀ change ∈ changes, change.PutsNamed :=
    fun change hchange => (hchecked change hchange).putsNamed
  rcases List.mem_cons.1 hstart with rfl | hstart
  · exact follows_changeAll empty changes .nil (fun c hc => by cases hc) hnamed
  · obtain rfl := List.mem_singleton.1 hstart
    exact follows_changeAll rails changes nodup_map_name_rails name_ne_of_mem_rails hnamed

/-- A macro that is replaced keeps its place, and one that comes back goes to the end.  Settings may
have a name on both lists. -/
theorem callbacks_followHistory_audit :
    Follows empty
      [.withCallbacks [.custom "audit", .custom "log"], .withoutCallbacks ["audit"],
        .withCallbacks [.custom "audit", .custom "log"]]
      { empty with callbacks := [.custom "log", .custom "audit"] }
      [("log", .custom "log"), ("audit", .custom "audit")] ∧
    ∃ s table, MacroSettings.check (.object
        [("extra_callbacks", .strings [" audit ", "log", "audit"]),
          ("disabled_callbacks", .strings ["log", "after_save"])]) = accepted s ∧
      s.buildTable = accepted table ∧
      MacroSettings.Makes [.string "audit", .string "log", .string "audit"]
        [.string "log", .string "after_save"] table := by
  have hputs : (Change.withCallbacks [.custom "audit", .custom "log"]).PutsChecked := by
    intro m hm
    simp only [List.mem_cons, List.not_mem_nil, or_false] at hm
    rcases hm with rfl | rfl
    · exact ⟨_, CallbackMacro.check_name (by decide)⟩
    · exact ⟨_, CallbackMacro.check_name (by decide)⟩
  constructor
  · refine (callbacks_followHistory empty [_, _, _] .null {}).1 List.mem_cons_self
      fun change hchange => ?_
    simp only [List.mem_cons, List.not_mem_nil, or_false] at hchange
    rcases hchange with rfl | rfl | rfl
    · exact hputs
    · trivial
    · exact hputs
  · have hcheck : MacroSettings.check (.object
        [("extra_callbacks", .strings [" audit ", "log", "audit"]),
          ("disabled_callbacks", .strings ["log", "after_save"])]) =
        accepted { extraCallbacks := [.string "audit", .string "log", .string "audit"],
                   disabledCallbacks := [.string "log", .string "after_save"] } := rfl
    obtain ⟨entries, extras, disabled, hv, hextras, hdisabled, hmakes, -⟩ :=
      (callbacks_followHistory empty [] _ _).2 hcheck
    cases hv
    cases hextras
    cases hdisabled
    obtain ⟨table, htable, hmakes⟩ := hmakes (by decide)
    exact ⟨_, table, hcheck, htable, hmakes⟩

/-- A settings file with an extra callback that is half of a surrogate pair. -/
def loneSurrogate : CommandLine.Surroundings where
  env := []
  fs := Settings.oneFile "dsl:\n  extra_callbacks: [\"\\ud800\"]\n"
  time := fun _ => ""

/-- Settings are accepted that have no table, and a command that loads them is ended by it. -/
theorem buildTable_loneSurrogate :
    (∃ s, MacroSettings.check
        (.object [("extra_callbacks", .list [.brokenString [0xD800]])]) = accepted s ∧
      s.buildTable = rejected CallbackMacro.brokenName) ∧
    ∀ (grammarFor : Document → Grammar) (files : List String) (format : CommandLine.OutputFormat),
      (CommandLine.Command.run (m := Id) grammarFor loneSurrogate
        (.outline files (some "c.yaml") format)).crash =
          some (.table CallbackMacro.brokenName) := by
  refine ⟨⟨{ extraCallbacks := [.broken [0xD800] (by decide)] }, rfl, rfl⟩, ?_⟩
  intro grammarFor files format
  have hsetUp : CommandLine.setUp loneSurrogate (some "c.yaml") =
      .error (CommandLine.crashReport (.table CallbackMacro.brokenName)) := by decide +kernel
  rw [CommandLine.Command.run, hsetUp]
  rfl

end MacroTable

end RubyOutline
