/-
RubyOutline/Settings/Checked.lean

Settings out of unchecked values.  All sections and all their fields are looked at, in the order
of their declaration, and after them the keys of the root that name no section.  Keys of a section
that mean nothing are passed over.
-/
import RubyOutline.Checked
import RubyOutline.Path
import RubyOutline.Settings

namespace RubyOutline

open Checked

namespace Check

/-- An integer between two bounds. -/
def bounded (low high : Nat) (v : Value) : Checked (Bounded low high) :=
  (int v).andThen fun n =>
    if _ : n < low then issue .greaterThanEqual
    else if _ : high < n then issue .lessThanEqual
    else accepted ⟨n.toNat, by omega, by omega⟩

/-- Names of macros.  White space around a name is taken off, and a name must not be blank. -/
def names (v : Value) : Checked (List AnyText) :=
  (listOf text v).andThen fun names =>
    let stripped := names.map AnyText.strip
    if stripped.contains (.string "") then issue .valueError else accepted stripped

/-- The text of a path without the parts that say nothing. -/
def pathText : AnyText → AnyText
  | .string s => (Path.ofString s).toString
  | .broken cs _ =>
    let slash := '/'.toNat
    let parts := (cs.splitOn slash).filter fun part => part != [] && part != ['.'.toNat]
    .ofCodes (List.replicate (Path.rootOf (cs.map Char.ofNat)) slash ++ [slash].intercalate parts)

/-- The text of a path, or none. -/
def path : Value → Checked (Option AnyText)
  | .null => accepted none
  | .string s => accepted (some (pathText s))
  | .brokenString cs => accepted (some (pathText (.ofCodes cs)))
  | _ => issue .pathType

end Check

def ServerSettings.check : Value → Checked ServerSettings :=
  let defaults : ServerSettings := {}
  Check.fields fun entries =>
    ServerSettings.mk <$>
      Check.fieldOr entries "transport" defaults.transport
        (Check.word .literalError Transport.all Transport.label)
      <*> Check.fieldOr entries "host" defaults.host Check.text
      <*> Check.fieldOr entries "port" defaults.port (Check.bounded _ _)

def ParserSettings.check : Value → Checked ParserSettings :=
  Check.fields fun entries =>
    ParserSettings.mk <$>
      Check.fieldOr entries "position_encoding" .utf16
        (Check.word .literalError PositionEncoding.all PositionEncoding.label)
      <*> Check.fieldOr entries "max_file_size_kb" defaultFileSizeKb (Check.bounded _ _)

def MacroSettings.check : Value → Checked MacroSettings :=
  let defaults : MacroSettings := {}
  Check.fields fun entries =>
    MacroSettings.mk <$>
      Check.fieldOr entries "test_aliases" defaults.testAliases Check.names
      <*> Check.fieldOr entries "test_base_suffix" defaults.testBaseSuffix Check.text
      <*> Check.fieldOr entries "extra_callbacks" defaults.extraCallbacks Check.names
      <*> Check.fieldOr entries "disabled_callbacks" defaults.disabledCallbacks Check.names
      <*> Check.fieldOr entries "attribute_macros" defaults.attributeMacros Check.names

def LogSettings.check : Value → Checked LogSettings :=
  let defaults : LogSettings := {}
  Check.fields fun entries =>
    LogSettings.mk <$>
      Check.fieldOr entries "level" defaults.level
        (Check.word .literalError LogLevel.all LogLevel.label)
      <*> Check.fieldOr entries "format" defaults.format
        (Check.word .literalError LogFormat.all LogFormat.label)
      <*> Check.fieldOr entries "file" defaults.file Check.path
      <*> Check.fieldOr entries "rotation" defaults.rotation Check.text
      <*> Check.fieldOr entries "retention" defaults.retention Check.text

namespace Settings

/-- The sections and their fields, and whether a field holds a list. -/
def sections : List (String × List (String × Bool)) :=
  [("server", [("transport", false), ("host", false), ("port", false)]),
   ("parser", [("position_encoding", false), ("max_file_size_kb", false)]),
   ("dsl", [("test_aliases", true), ("test_base_suffix", false), ("extra_callbacks", true),
      ("disabled_callbacks", true), ("attribute_macros", true)]),
   ("logging", [("level", false), ("format", false), ("file", false), ("rotation", false),
      ("retention", false)])]

def isSection (key : String) : Bool := sections.any (·.1 == key)

/-- Refuses every key that names no section. -/
def checkKeys (entries : List (Value × Value)) : Checked Unit :=
  match (Value.stringEntries entries).filter fun (key, _) => !isSection key with
  | [] => accepted ()
  | strangers => rejected (strangers.map fun (key, _) => ⟨[.key key], .extraForbidden⟩)

def isBroken : Value → Bool
  | .brokenString _ => true
  | _ => false

/-- Settings of the entries of a map.  A key that is no string cannot be shown, and then nothing
else is. -/
def check (entries : List (Value × Value)) : Checked Settings :=
  if entries.any fun (key, _) => isBroken key then issue .stringUnicode
  else
    (fun server parser macros logging _ => ⟨server, parser, macros, logging⟩) <$>
      Check.fieldOr entries "server" {} ServerSettings.check
      <*> Check.fieldOr entries "parser" {} ParserSettings.check
      <*> Check.fieldOr entries "dsl" {} MacroSettings.check
      <*> Check.fieldOr entries "logging" {} LogSettings.check
      <*> checkKeys entries

end Settings

end RubyOutline
