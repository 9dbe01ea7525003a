/-
RubyOutline/MacroTable.lean

The class-level macros an outline recognises: which methods declare tests, which are lifecycle
callbacks, which declare attributes.  The table is data.  Its callbacks are kept in the order of
insertion: replacing a callback leaves it in its place, and one that was removed goes to the end
when it comes back.
-/

namespace RubyOutline

/-- The area of a web framework that a lifecycle callback belongs to. -/
inductive CallbackFamily
  | model
  | controller
  | job
  | custom
deriving DecidableEq, Repr, Inhabited

namespace CallbackFamily

def all : List CallbackFamily := [.model, .controller, .job, .custom]

def label : CallbackFamily → String
  | .model => "model"
  | .controller => "controller"
  | .job => "job"
  | .custom => "custom"

end CallbackFamily

/-- A lifecycle callback and the call shapes it takes. -/
structure CallbackMacro where
  name : String
  family : CallbackFamily := .custom
  acceptsArguments : Bool := true
  acceptsBlock : Bool := true
deriving DecidableEq, Repr, Inhabited

structure MacroTable where
  testAliases : List String
  testBaseSuffix : String
  /-- Each under its own name.  A table put together by hand in which a callback stands under a key
  that is not its name is none of these. -/
  callbacks : List CallbackMacro
  attributeMacros : List String
deriving DecidableEq, Repr, Inhabited

namespace MacroTable

/-- The table without callbacks. -/
def empty : MacroTable where
  testAliases := ["test", "it"]
  testBaseSuffix := "TestCase"
  callbacks := []
  attributeMacros := ["attr_reader", "attr_writer", "attr_accessor"]

def isTestAlias (t : MacroTable) (method : String) : Bool :=
  t.testAliases.contains method

/-- Whether a superclass names a base class of tests: it ends in the suffix, which must not be
empty. -/
def isTestBase (t : MacroTable) : Option String → Bool
  | none => false
  | some superclass =>
    superclass != "" && t.testBaseSuffix != "" &&
      t.testBaseSuffix.toList.isSuffixOf superclass.toList

def callback? (t : MacroTable) (method : String) : Option CallbackMacro :=
  t.callbacks.find? (·.name == method)

def isAttributeMacro (t : MacroTable) (method : String) : Bool :=
  t.attributeMacros.contains method

/-- A list of callbacks with one more: in the place of its namesake, or at the end. -/
def insertCallback (callbacks : List CallbackMacro) (m : CallbackMacro) : List CallbackMacro :=
  if callbacks.any (·.name == m.name) then
    callbacks.map fun c => if c.name == m.name then m else c
  else
    callbacks ++ [m]

/-- The table with callbacks added or replaced. -/
def withCallbacks (t : MacroTable) (ms : List CallbackMacro) : MacroTable :=
  { t with callbacks := ms.foldl insertCallback t.callbacks }

/-- The table without the named callbacks. -/
def withoutCallbacks (t : MacroTable) (names : List String) : MacroTable :=
  { t with callbacks := t.callbacks.filter fun c => !names.contains c.name }

/-! ### The default table -/

def modelCallbacks : List String :=
  ["after_commit", "after_create", "after_create_commit", "after_destroy", "after_destroy_commit",
   "after_find", "after_initialize", "after_rollback", "after_save", "after_save_commit",
   "after_touch", "after_update", "after_update_commit", "after_validation", "around_create",
   "around_destroy", "around_save", "around_update", "before_create", "before_destroy",
   "before_save", "before_update", "before_validation"]

def controllerCallbacks : List String :=
  ["after_action", "append_after_action", "append_around_action", "append_before_action",
   "around_action", "before_action", "prepend_after_action", "prepend_around_action",
   "prepend_before_action", "skip_after_action", "skip_around_action", "skip_before_action"]

def jobCallbacks : List String :=
  ["after_enqueue", "after_perform", "around_enqueue", "around_perform", "before_enqueue",
   "before_perform"]

def ofFamily (family : CallbackFamily) (names : List String) : List CallbackMacro :=
  names.map fun name => ⟨name, family, true, true⟩

/-- The callbacks of Rails, and the test aliases of Minitest. -/
def rails : MacroTable :=
  { empty with
    callbacks := ofFamily .model modelCallbacks ++ ofFamily .controller controllerCallbacks ++
      ofFamily .job jobCallbacks }

end MacroTable

end RubyOutline
