import EmulatorOutput.Files.Access

/-!
# Trees of files

A file system as a value. Nodes are numbered; a folder lists the numbers of its entries under
their names and knows the folder around it. What is written to the output device is collected. A
path is followed name by name, and all its names but the last have to be there.
-/

namespace EmulatorOutput

/-- What a node of a tree is. -/
inductive Node where
  | file (content : ByteArray)
  /-- The root is the folder around itself. -/
  | folder (around : Nat) (entries : List (String × Nat))
  /-- Takes any content and keeps none. -/
  | void
  /-- Takes no content. -/
  | full
  /-- Puts out what is written to it. -/
  | output

/-- A tree of files with a folder to work in. -/
structure FileTree where
  /-- The nodes by their numbers, the root first. -/
  nodes : Array Node := #[.folder 0 []]
  /-- Where paths begin that are not absolute. -/
  working : Nat := 0
  shown : ByteArray := ByteArray.empty

/-- Where a path leads. -/
inductive Target where
  | existing (node : Nat)
  /-- To a name that nothing in a folder has. -/
  | free (folder : Nat) (name : String)
  deriving DecidableEq, Repr

namespace FileTree

def longestName : Nat := 255

def longestPath : Nat := 4095

/-- The parts of a path, if it is one that can be followed at all. -/
def partsOf (path : String) : Except FileError (List String) :=
  if path.isEmpty then .error .notFound
  else if path.contains '\x00' then .error .badPath
  else if longestPath < path.utf8ByteSize then .error .nameTooLong
  else .ok (Path.parts path)

/-- Follows one name from a node, which has to be a folder. -/
def step (t : FileTree) (n : Nat) (name : String) : Except FileError Target :=
  match t.nodes[n]? with
  | some (.folder around entries) =>
    if Path.isIdle name then .ok (.existing n)
    else if name = ".." then .ok (.existing around)
    else if longestName < name.utf8ByteSize then .error .nameTooLong
    else
      match entries.lookup name with
      | some m => .ok (.existing m)
      | none => .ok (.free n name)
  | some _ => .error .notFolder
  | none => .error .notFound

/-- Follows names from a node. Only the last of them may be free. -/
def walk (t : FileTree) (n : Nat) : List String → Except FileError Target
  | [] => .ok (.existing n)
  | name :: rest =>
    match t.step n name with
    | .error e => .error e
    | .ok (.existing m) => walk t m rest
    | .ok (.free folder last) =>
      if rest.isEmpty then .ok (.free folder last) else .error .notFound

def follow (t : FileTree) : List String → Except FileError Target
  | "" :: rest => t.walk 0 rest
  | parts => t.walk t.working parts

/-- What a path leads to, if there is anything. -/
def find (t : FileTree) (path : String) : Except FileError Node := do
  match ← t.follow (← partsOf path) with
  | .free _ _ => throw .notFound
  | .existing n =>
    match t.nodes[n]? with
    | some node => return node
    | none => throw .notFound

/-- Adds a node under a free name. -/
def add (t : FileTree) (folder : Nat) (name : String) (node : Node) : FileTree :=
  let number := t.nodes.size
  { t with
    nodes := (t.nodes.modify folder fun
      | .folder around entries => .folder around ((name, number) :: entries)
      | other => other).push node }

def putOut (t : FileTree) (bytes : ByteArray) : FileTree := { t with shown := t.shown ++ bytes }

/-- The nodes that are there from the start: devices, and the open streams of the program under
their numbers. Nothing comes in, and what is written to the stream of errors is not kept. -/
def devices : Array Node :=
  #[.folder 0 [("dev", 1), ("proc", 6)],
    .folder 0 [("null", 2), ("full", 3), ("stdin", 2), ("stdout", 4), ("stderr", 2), ("fd", 5)],
    .void, .full, .output,
    .folder 7 [("0", 2), ("1", 4), ("2", 2)],
    .folder 0 [("self", 7)],
    .folder 6 [("fd", 5)]]

def rootFolders : List String :=
  ["bin", "boot", "etc", "home", "lib", "media", "mnt", "opt", "root", "run", "sbin", "srv", "sys",
    "tmp", "usr", "var"]

/-- A tree as a program finds it: devices and empty folders. -/
def standard : FileTree :=
  rootFolders.foldl (fun t name => t.add 0 name (.folder 0 [])) { nodes := devices }

/-- The content of a file. Devices hold nothing. -/
def read (t : FileTree) (path : String) : Except FileError ByteArray := do
  match ← t.find path with
  | .file content => return content
  | .folder _ _ => throw .isFolder
  | .void | .full | .output => return ByteArray.empty

/-- The parts that are followed to write to a path. No file has a slash after its name: such a
path is refused as the folder before the name would be, whatever has that name. -/
def writeParts (parts : List String) : List String :=
  let named := Path.trimSlashes parts
  let last := named.getLastD ""
  if named.length < parts.length ∧ ¬ Path.isIdle last ∧ last ≠ ".." then
    named.dropLast ++ ["."]
  else parts

/-- Creates a file or replaces its content. -/
def write (t : FileTree) (path : String) (content : ByteArray) : Except FileError FileTree := do
  match ← t.follow (writeParts (← partsOf path)) with
  | .free folder name => return t.add folder name (.file content)
  | .existing n =>
    match t.nodes[n]? with
    | some (.file _) => return { t with nodes := t.nodes.setIfInBounds n (.file content) }
    | some (.folder _ _) => throw .isFolder
    | some .void => return t
    | some .full => if content.isEmpty then return t else throw .noSpace
    | some .output => return t.putOut content
    | none => throw .notFound

def createFolder (t : FileTree) (path : String) : Except FileError FileTree := do
  match ← t.follow (Path.trimSlashes (← partsOf path)) with
  | .free folder name => return t.add folder name (.folder folder [])
  | .existing _ => throw .alreadyExists

/-- Whether a path leads to a folder. -/
def isFolder (t : FileTree) (path : String) : Bool :=
  match t.find path with
  | .ok (.folder _ _) => true
  | _ => false

def isPresent (t : FileTree) (path : String) : Bool := (t.find path).isOk

/-- Goes to work in the folder that a path leads to. -/
def workIn (t : FileTree) (path : String) : Except FileError FileTree := do
  match ← t.follow (← partsOf path) with
  | .existing n => return { t with working := n }
  | .free _ _ => throw .notFound

/-- Keeps a changed tree, or the old one where the change was refused. -/
def change (f : FileTree → Except FileError FileTree) : StateM FileTree (Except FileError Unit) :=
  fun t =>
    match f t with
    | .ok t => (.ok (), t)
    | .error e => (.error e, t)

instance : Files (StateM FileTree) where
  read path := return (← get).read path
  write path content := change (·.write path content)
  createFolder path := change (·.createFolder path)
  isFolder path := return (← get).isFolder path
  isPresent path := return (← get).isPresent path

end FileTree

end EmulatorOutput
