/-
RubyOutline/CommandLine/Report.lean

What a run leaves behind, and the ways in which it can end before it has begun.

A mistake in calling and an error that a command expects are told to the caller in a message.  An
error that nothing catches is neither: it ends the run where it stands, and what has been written
until then stays written.
-/
import RubyOutline.CommandLine
import RubyOutline.Log
import RubyOutline.Settings.File

namespace RubyOutline.CommandLine

/-- An error that nothing catches. -/
inductive Crash
  /-- A path of the command line that cannot even be looked up. -/
  | path (error : FileError)
  | load (error : LoadError)
  | logging (error : LogError)
  /-- Macro settings without a table. -/
  | table (issues : List Issue)
  | home (error : HomeError)
deriving DecidableEq, Repr

def Crash.message : Crash → String
  | .path e => e.message
  | .load e => e.message
  | .logging e => e.message
  | .table issues => LoadError.issuesText issues
  | .home e => e.message

structure Report where
  stdout : String := ""
  /-- A message for whoever made a mistake in calling or in a settings file. -/
  complaint : Option String := none
  /-- What has ended the run before its end. -/
  crash : Option Crash := none
  logging : LogSettings := {}
  /-- The log file, if there is one. -/
  logFile : Option Path := none
  /-- The records that are written. -/
  log : List LogRecord := []
  exitCode : Nat
deriving DecidableEq, Repr

def usageReport (e : UsageError) : Report := { complaint := some e.message, exitCode := 2 }

def failureReport (message : String) : Report := { complaint := some message, exitCode := 1 }

def crashReport (c : Crash) : Report := { crash := some c, exitCode := 1 }

end RubyOutline.CommandLine
