/-
RubyOutline/FileSystem.lean

A file system without links, as a value: the working folder, files with their bytes and times of
modification, folders, and the homes of users.  Every folder above something that exists exists
too.  Names are strings; files with other bytes for a name are left out.

A path can be looked up in three ways.  `FileSystem.stat` takes a resolved path.
`FileSystem.follow` goes through the parts of a path as it is written, and then a `..` needs the
folder it goes back from.  `FileSystem.checkAppend` asks for a file that may still have to be made,
together with the folders above it.  `FileSystem.expandHome` puts a home in the place of a tilde at
the front.
-/
import RubyOutline.Path
import RubyOutline.Text.Line
import RubyOutline.Text.Quoted

namespace RubyOutline

/-- A regular file. -/
structure File where
  bytes : List UInt8
  /-- In nanoseconds. -/
  modified : Int
deriving DecidableEq, Repr, Inhabited

structure FileSystem where
  /-- The parts of the working folder. -/
  here : List String
  files : List (List String × File) := []
  folders : List (List String) := []
  /-- The paths of homes by user.  The empty name is the present user. -/
  homes : List (String × String) := []
deriving Repr, Inhabited

/-- Why a path does not lead to what it should. -/
inductive FileError
  | missing (path : Path)
  | isFolder (path : Path)
  | throughFile (path : Path)
  | exists (path : Path)
  | nameTooLong (path : Path)
  | nullCharacter
deriving DecidableEq, Repr

namespace FileError

def message : FileError → String
  | .missing path => "[Errno 2] No such file or directory: " ++ Text.quoted path.toString
  | .exists path => "[Errno 17] File exists: " ++ Text.quoted path.toString
  | .throughFile path => "[Errno 20] Not a directory: " ++ Text.quoted path.toString
  | .isFolder path => "[Errno 21] Is a directory: " ++ Text.quoted path.toString
  | .nameTooLong path => "[Errno 36] File name too long: " ++ Text.quoted path.toString
  | .nullCharacter => "embedded null byte"

end FileError

/-- A tilde in front of a path that stands for nobody's home. -/
structure HomeError where
  user : String
deriving DecidableEq, Repr

def HomeError.message (_ : HomeError) : String := "Could not determine home directory."

namespace FileSystem

/-- What stands at a place. -/
inductive Found
  | file (file : File)
  | folder
deriving DecidableEq, Repr

def file? (fs : FileSystem) (parts : List String) : Option File :=
  fs.files.lookup parts

def isFolder (fs : FileSystem) (parts : List String) : Bool :=
  parts.isPrefixOf fs.here || fs.folders.any parts.isPrefixOf ||
    fs.files.any fun (name, _) => parts.isPrefixOf name && parts != name

/-- Writes a file over whatever file stands there. -/
def write (fs : FileSystem) (path : Path) (file : File) : FileSystem :=
  let parts := path.resolveParts fs.here
  { fs with files := (parts, file) :: fs.files.filter (·.1 != parts) }

def makeFolder (fs : FileSystem) (path : Path) : FileSystem :=
  { fs with folders := path.resolveParts fs.here :: fs.folders }

/-- The longest name of a file or folder, in bytes. -/
def longestName : Nat := 255

/-- The longest path that can be looked up, in bytes. -/
def longestPath : Nat := 4095

/-- A name that no file or folder can have for its length. -/
def isTooLong (name : String) : Bool := longestName < name.utf8ByteSize

/-- A path that cannot be looked up for its length. -/
def isPathTooLong (text : String) : Bool := longestPath < text.utf8ByteSize

/-- What a resolved path names. -/
def stat (fs : FileSystem) (path : Path) : Except FileError Found :=
  if path.hasNull then .error .nullCharacter
  else if isPathTooLong path.toString then .error (.nameTooLong path)
  else go [] path.parts
where
  go (place : List String) : List String → Except FileError Found
    | [] =>
      match fs.file? place with
      | some file => .ok (.file file)
      | none => if fs.isFolder place then .ok .folder else .error (.missing path)
    | name :: rest =>
      if (fs.file? place).isSome then .error (.throughFile path)
      else if !fs.isFolder place then .error (.missing path)
      else if isTooLong name then .error (.nameTooLong path)
      else go (place ++ [name]) rest

/-- The bytes of the file that a resolved path names. -/
def read (fs : FileSystem) (path : Path) : Except FileError (List UInt8) := do
  match ← fs.stat path with
  | .file file => return file.bytes
  | .folder => throw (.isFolder path)

/-- The text of a file: damaged bytes replaced, line ends made uniform. -/
def textOf (bytes : List UInt8) : String :=
  String.ofList (Text.uniformLineEnds (Utf8.decode bytes))

/-- The place reached from a folder through parts as they are written. -/
def followFrom (fs : FileSystem) (path : Path) (place : List String) :
    List String → Except FileError (List String)
  | [] => .ok place
  | part :: rest =>
    if (fs.file? place).isSome then .error (.throughFile path)
    else if !fs.isFolder place then .error (.missing path)
    else if isTooLong part then .error (.nameTooLong path)
    else followFrom fs path (if part = ".." then place.dropLast else place ++ [part]) rest

/-- A text ends in a way that asks for a folder: with a slash or the part `.`. -/
def asksForFolder (text : String) : Bool :=
  let last := (text.toList.splitOn '/').getLastD []
  last = [] || last = ['.']

/-- What a path names as it is written. -/
def follow (fs : FileSystem) (text : String) : Except FileError Found := do
  let path := Path.ofString text
  if path.hasNull then throw .nullCharacter
  if text = "" then throw (.missing path)
  if isPathTooLong text then throw (.nameTooLong path)
  let place ← fs.followFrom path (if path.isAbsolute then [] else fs.here) path.parts
  match fs.file? place with
  | some file => if asksForFolder text then throw (.throughFile path) else return .file file
  | none => if fs.isFolder place then return .folder else throw (.missing path)

/-- Looks whether text can be added to the file at an absolute path.  The file and the folders
above it are made if they are missing, from the top down. -/
def checkAppend (fs : FileSystem) (path : Path) : Except FileError Unit :=
  go [] path.parts
where
  /-- A path on the way can be made. -/
  checkNew (place : Path) : Except FileError Unit :=
    if place.hasNull then .error .nullCharacter
    else if isPathTooLong place.toString || (place.parts.getLast?).any isTooLong then
      .error (.nameTooLong place)
    else .ok ()
  go (above : List String) : List String → Except FileError Unit
    | [] => .error (.isFolder path)
    | [_] => do
      checkNew path
      if fs.isFolder path.parts then throw (.isFolder path)
    | name :: next :: rest => do
      let here := above ++ [name]
      let place : Path := { path with parts := here }
      if (fs.file? here).isSome then
        let below : Path := { path with parts := here ++ [next] }
        if rest.isEmpty then throw (.exists place)
        else if below.hasNull then throw .nullCharacter
        else throw (.throughFile below)
      if !fs.isFolder here then checkNew place
      go here (next :: rest)

/-! ### Homes -/

/-- A path with the home of a user in the place of a tilde and the user's name at its front.  A
home that begins with a tilde itself is none. -/
def expandHome (fs : FileSystem) (path : Path) : Except HomeError Path :=
  match path.root, path.parts with
  | 0, first :: rest =>
    match first.toList with
    | '~' :: user =>
      let user := String.ofList user
      if user.toList.contains '\x00' then .ok path
      else
        match fs.homes.lookup user with
        | none => .error ⟨user⟩
        | some home =>
          if home.toList.head? = some '~' then .error ⟨user⟩
          else
            let home := Path.ofString (if home.toList.all (· == '/') then "/" else home)
            .ok { home with parts := home.parts ++ rest }
    | _ => .ok path
  | _, _ => .ok path

end FileSystem

end RubyOutline
