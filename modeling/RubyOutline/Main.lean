/-
RubyOutline/Main.lean

The program.  It shows the library the part of the file system and of the environment that a
command names, and writes what the library answers: results on standard output, the log, complaints
and uncaught errors on standard error.

The grammar stays outside.  Where a source is to be parsed, the program reads its tree from
standard input, one JSON line for each source.  `serve` reads the calls of tools there, one JSON
line `{"tool", "args", "tree"}` for each, and answers each with a line.
-/
import RubyOutline.CommandLine.Run
import RubyOutline.ParseNode.Rows
import RubyOutline.Service.Tool

namespace RubyOutline.Main

open CommandLine

/-! ### What the library is shown -/

/-- The time of a file's last modification, in nanoseconds. -/
def modified (info : IO.FS.Metadata) : Int :=
  info.modified.sec * 1000000000 + info.modified.nsec.toNat

/-- A file system with what stands at a path. -/
def look (fs : FileSystem) (path : Path) : IO FileSystem := do
  let place := (← IO.currentDir) / path.toString
  if ← place.isDir then return fs.makeFolder path
  if ← place.pathExists then
    let bytes ← IO.FS.readBinFile place
    return fs.write path ⟨bytes.toList, modified (← place.metadata)⟩
  return fs

/-- A path and all paths on the way to it. -/
def wayTo (path : Path) : List Path :=
  (List.range (path.parts.length + 1)).map fun n => { path with parts := path.parts.take n }

/-- The paths that a command names. -/
def paths : Command → List String
  | .outline files config _ => files ++ config.toList
  | .serve config _ => config.toList
  | _ => []

/-- The file system as far as it matters for some paths. -/
def fileSystem (texts : List String) : IO FileSystem := do
  let here := (Path.ofString (← IO.currentDir).toString).parts
  let homes := (← IO.getEnv "HOME").toList.map fun home => ("", home)
  let fs : FileSystem := { here, homes }
  let paths := texts.map fun text => Path.ofString text
  let expanded := paths.filterMap fun path => (fs.expandHome path).toOption
  ((paths ++ expanded).flatMap wayTo).foldlM look fs

/-- The variables that can hold settings. -/
def variableNames : List String :=
  Settings.sections.flatMap fun (name, fields) =>
    let name := "DOCSYM_" ++ Text.uppercase name
    name :: fields.map fun (field, _) => name ++ "__" ++ Text.uppercase field

def environment : IO Environment :=
  variableNames.filterMapM fun name => do
    return (← IO.getEnv name).map (name, ·)

/-- The tree that the next line of standard input writes. -/
def grammarFor (d : Document) : IO Grammar := do
  let line ← (← IO.getStdin).getLine
  match (Value.ofJson? line).bind ParseNode.ofValue? with
  | some tree => return .available fun _ => tree
  | none => return .unavailable s!"no tree for {d.uri}"

/-! ### What the library answers -/

/-- The time shown in the log: seconds and thousandths since some fixed moment. -/
def timeText : IO String := do
  let ms ← IO.monoMsNow
  return s!"{ms / 1000}.{(String.ofList (Nat.toDigits 10 (1000 + ms % 1000))).drop 1}"

/-- A record as it is written. -/
def logText (settings : LogSettings) (time : String) (r : LogRecord) : String :=
  if settings.format = .json then r.toValue.toJson else s!"{time} {r.text}"

/-- Adds text to the log file, and makes its folder if need be. -/
def appendLog (path : Path) (text : String) : IO Unit := do
  let place := (← IO.currentDir) / path.toString
  if let some folder := place.parent then IO.FS.createDirAll folder
  IO.FS.withFile place .append fun file => file.putStr text

def writeLog (report : Report) : IO Unit := do
  let time ← timeText
  let text := String.join (report.log.map fun r => logText report.logging time r ++ "\n")
  (← IO.getStderr).putStr text
  if let some path := report.logFile then appendLog path text

/-- Writes a report and answers its exit code. -/
def finish (report : Report) : IO UInt32 := do
  writeLog report
  (← IO.getStdout).putStr report.stdout
  let err ← IO.getStderr
  if let some complaint := report.complaint then err.putStrLn ("Error: " ++ complaint)
  if let some crash := report.crash then err.putStrLn ("Uncaught error: " ++ crash.message)
  return report.exitCode.toUInt32

/-! ### Tools -/

/-- The answer to the call of a tool. -/
def answerCall (s : Service) (v : Value) : IO (Value × Service) := do
  let arguments := match v.get? "args" with
    | some (.map entries) => entries
    | _ => []
  let tool := match v.get? "tool" with
    | some (.string tool) => tool
    | _ => ""
  match ToolCall.ofArguments tool arguments with
  | .error e => return (.object [("error", .string e.message)], s)
  | .ok call =>
    let fs ← match call with
      | .documentSymbols path => fileSystem [path]
      | .outlineSource _ => fileSystem []
    let grammar := match (v.get? "tree").bind ParseNode.ofValue? with
      | some tree => Grammar.available fun _ => tree
      | none => .unavailable "no tree"
    match s.call grammar fs call with
    | .error e => return (.object [("error", .string e.message)], s)
    | .ok (response, s) => return (response.toRecord, s)

/-- Answers calls until the input ends. -/
partial def serve (s : Service) : IO Unit := do
  let line ← (← IO.getStdin).getLine
  if line.isEmpty then return
  let (answer, s) ← answerCall s ((Value.ofJson? line).getD .null)
  let out ← IO.getStdout
  out.putStrLn answer.toJson
  out.flush
  serve s

/-- Starts the server, if a command asks for it and its settings are in order. -/
def serveIfAsked (given : Surroundings) (command : Command) : IO Unit := do
  if let .serve config _ := command then
    if let .ok ready := setUp given config then
      if let .accepted service := Service.start ready.settings then serve service

end RubyOutline.Main

open RubyOutline in
def main (args : List String) : IO UInt32 := do
  let command := CommandLine.Command.parse args
  let fs ← Main.fileSystem (command.toOption.elim [] Main.paths)
  let time ← Main.timeText
  let given : CommandLine.Surroundings := { env := ← Main.environment, fs, time := fun _ => time }
  let code ← Main.finish (← CommandLine.run Main.grammarFor given args)
  if code = 0 then command.toOption.forM (Main.serveIfAsked given)
  return code
