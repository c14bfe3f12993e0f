import EmulatorOutput.Files.Path

/-!
# Access to files

What a program asks of a file system, and the answers that are refusals. `Files m` says that
computations in `m` have such access.
-/

namespace EmulatorOutput

/-- Why a file system refused. -/
inductive FileError where
  | notFound
  | alreadyExists
  | notFolder
  | isFolder
  | nameTooLong
  | noSpace
  /-- A path with a character that no path may have. -/
  | badPath
  /-- The content is no text. -/
  | notText
  | other (text : String)
  deriving DecidableEq, Repr

namespace FileError

def message : FileError → String
  | .notFound => "No such file or directory (os error 2)"
  | .alreadyExists => "File exists (os error 17)"
  | .notFolder => "Not a directory (os error 20)"
  | .isFolder => "Is a directory (os error 21)"
  | .nameTooLong => "File name too long (os error 36)"
  | .noSpace => "No space left on device (os error 28)"
  | .badPath => "file name contained an unexpected NUL byte"
  | .notText => "stream did not contain valid UTF-8"
  | .other text => text

end FileError

/-- Access to a file system. -/
class Files (m : Type → Type) where
  read : String → m (Except FileError ByteArray)
  /-- Creates a file, or replaces the content of one. -/
  write : String → ByteArray → m (Except FileError Unit)
  /-- Creates a folder in a folder that is there. -/
  createFolder : String → m (Except FileError Unit)
  isFolder : String → m Bool
  /-- Whether a path leads to a file or a folder. -/
  isPresent : String → m Bool

instance {m : Type → Type} {ε : Type} [Monad m] [Files m] : Files (ExceptT ε m) where
  read path := ExceptT.lift (Files.read path)
  write path content := ExceptT.lift (Files.write path content)
  createFolder path := ExceptT.lift (Files.createFolder path)
  isFolder path := ExceptT.lift (Files.isFolder path)
  isPresent path := ExceptT.lift (Files.isPresent path)

namespace Files

variable {m : Type → Type} [Monad m] [Files m]

/-- The content of a file of text. -/
def readText (path : String) : m (Except FileError String) := do
  match ← read path with
  | .error e => return .error e
  | .ok content =>
    match String.fromUTF8? content with
    | some text => return .ok text
    | none => return .error .notText

/-- Creates a folder unless it is there. -/
def ensureFolder (path : String) : m (Except FileError Unit) := do
  match ← createFolder path with
  | .ok () => return .ok ()
  | .error e => if ← isFolder path then return .ok () else return .error e

/-- Creates a folder and those around it where they are missing, given all their paths, the
innermost first. -/
def ensureAll : List String → m (Except FileError Unit)
  | [] => return .ok ()
  | path :: around => do
    match ← ensureFolder path with
    | .error .notFound =>
      match ← ensureAll around with
      | .ok () => ensureFolder path
      | .error e => return .error e
    | answer => return answer

/-- Creates a folder and those around it where they are missing. -/
def createFolders (path : String) : m (Except FileError Unit) := ensureAll (Path.ancestors path)

/-- The first path of several that leads anywhere. -/
def firstPresent : List String → m (Option String)
  | [] => return none
  | path :: rest => do
    if ← isPresent path then return some path else firstPresent rest

end Files

end EmulatorOutput
