import EmulatorOutput.Files.Access
import EmulatorOutput.Settings.Document

/-!
# Settings files

Settings are loaded from a file and saved to one. Saving creates the folders around the file;
settings that cannot be written, or whose writing breaks off, leave the file system as it is.
-/

namespace EmulatorOutput.Settings

/-- Why settings could not be loaded or saved. -/
inductive StoreError where
  | inaccessible (path : String) (cause : FileError)
  | malformed (path : String)
  /-- The settings hold a number that no document can hold. -/
  | unwritable
  deriving DecidableEq, Repr

namespace StoreError

def message : StoreError → String
  | .inaccessible path cause => s!"Failed to access config file '{path}': {cause.message}"
  | .malformed path => s!"Failed to parse config file '{path}'"
  | .unwritable => "Failed to serialize config: number out of range"

end StoreError

variable {m : Type → Type} [Monad m] [Files m]

def load (path : String) : m (Except StoreError Settings) := do
  match ← Files.readText path with
  | .error e => return .error (.inaccessible path e)
  | .ok text =>
    match parse text with
    | some s => return .ok s
    | none => return .error (.malformed path)

/-- Loads settings from the first place that has any, or gives the defaults. -/
def loadDefault (places : List String) : m (Except StoreError Settings) := do
  match ← Files.firstPresent places with
  | some path => load path
  | none => return .ok {}

/-- Writes the text of settings to a file, in a folder that is created if need be. -/
def store (path text : String) : m (Except StoreError Unit) := do
  let folder := (Path.parent? path).getD ""
  match ← Files.createFolders folder with
  | .error e => return .error (.inaccessible folder e)
  | .ok () =>
    match ← Files.write path text.toUTF8 with
    | .error e => return .error (.inaccessible path e)
    | .ok () => return .ok ()

def save (path : String) (s : Settings) : ExceptT Fault m (Except StoreError Unit) :=
  if s.isWritable then
    match s.render with
    | .ok text => store path text
    | .error f => throw f
  else return .error .unwritable

end EmulatorOutput.Settings
