/-
RubyOutline/DocumentFile.lean

Documents read from files.  A file's document stands under the file's URI, and its version is the
time of the file's last modification.  Reading takes two steps, a look at the file's status and
then the reading of its bytes, and the file may be written to in between; so both steps are given
a file system of their own.
-/
import RubyOutline.Outliner

namespace RubyOutline.DocumentFile

/-- What the status of a file says. -/
structure Status where
  size : Nat
  modified : Int
deriving DecidableEq, Repr

/-- The status of what stands at a resolved path.  A folder counts as small. -/
def status (fs : FileSystem) (path : Path) : Except OutlineError Status :=
  match fs.stat path with
  | .ok (.file file) => .ok ⟨file.bytes.length, file.modified⟩
  | .ok .folder => .ok ⟨0, 0⟩
  | .error e => .error (.file e)

/-- Refuses a file that is larger than the limit. -/
def checkSize (path : Path) (size : Nat) : (limit : Option SizeLimit) → Except OutlineError Unit
  | none => .ok ()
  | some limit =>
    if limit.isExceededBy size then .error (.tooLarge path (size / 1024) limit) else .ok ()

/-- The document of the file at a path that begins with no tilde. -/
def loadAt (before after : FileSystem) (path : Path) (limit : Option SizeLimit) :
    Except OutlineError Document := do
  if path.hasNull then throw (.file .nullCharacter)
  let resolved := path.resolve before.here
  let status ← status before resolved
  checkSize resolved status.size limit
  match after.read resolved with
  | .ok bytes =>
    return ⟨resolved.uri, .ofString (FileSystem.textOf bytes), status.modified⟩
  | .error e => .error (.file e)

/-- The document of the file at a path, its status taken from one file system and its text from
another.  A tilde that stands for nobody's home is an error of its own kind, which callers do not
answer like the others. -/
def load (before after : FileSystem) (path : Path) (limit : Option SizeLimit) :
    Except HomeError (Except OutlineError Document) :=
  (before.expandHome path).map fun path => loadAt before after path limit

end RubyOutline.DocumentFile
