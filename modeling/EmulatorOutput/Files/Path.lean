/-!
# Paths

A path is text whose parts are separated by slashes. Empty parts and single dots mean nothing,
except that a slash at the front makes a path absolute and a dot at the front is kept.
-/

namespace EmulatorOutput.Path

/-- The parts of a path as they are written. -/
def parts (path : String) : List String := path.splitOn "/"

/-- A part that leads nowhere. -/
def isIdle (part : String) : Bool := part == "" || part == "."

/-- Drops empty parts at the end, but not the first part. -/
def trimSlashes : List String → List String
  | [] => []
  | first :: rest => first :: (rest.reverse.dropWhile (· == "")).reverse

def ofParts : List String → String
  | [""] => "/"
  | parts => String.intercalate "/" parts

/-- The paths that end with one of the parts of a path, the longest first. The parts are given
from the last on. Idle parts end no path, but for the first part. -/
def endings : List String → List String
  | [] => []
  | part :: before =>
    if isIdle part && !before.isEmpty then endings before
    else ofParts (part :: before).reverse :: endings before

/-- The paths of the folders around a path, the innermost first. -/
def around (path : String) : List String := (endings (parts path).reverse).tail

/-- The path of the folder that a path is in, unless it names the root or nothing. What is named
by a single part is in the folder without a name. -/
def parent? (path : String) : Option String :=
  match endings (parts path).reverse with
  | [] => none
  | [only] => if only == "/" then none else some ""
  | _ :: folder :: _ => some folder

/-- A path and the paths of the folders around it, the innermost first. -/
def ancestors (path : String) : List String := if path.isEmpty then [] else path :: around path

end EmulatorOutput.Path
