import EmulatorOutput.CommandLine.Program

/-!
# The executable

Runs the program on the operating system's files, streams and clock.
-/

namespace EmulatorOutput

open CommandLine (Host Journal Program.execute)

/-- The refusal that an error of the operating system stands for. -/
def fileErrorOf (e : IO.Error) : FileError :=
  match e with
  | .noFileOrDirectory .. => .notFound
  | .alreadyExists .. => .alreadyExists
  | .inappropriateType _ 20 _ => .notFolder
  | .inappropriateType _ 21 _ => .isFolder
  | .resourceExhausted _ 28 _ => .noSpace
  | e => .other (toString e)

/-- The outcome of an action on files. -/
def refusing {α : Type} (action : IO α) : IO (Except FileError α) := do
  try
    return .ok (← action)
  catch e =>
    return .error (fileErrorOf e)

def succeeds {α : Type} (action : IO α) : IO Bool := do
  try
    let _ ← action
    return true
  catch _ =>
    return false

def appendLines (path : String) (lines : List String) : IO Unit :=
  IO.FS.withFile path .append fun h => lines.forM h.putStrLn

instance : Host IO where
  read path := refusing (IO.FS.readBinFile path)
  write path content := refusing (IO.FS.writeBinFile path content)
  createFolder path := refusing (IO.FS.createDir path)
  isFolder path := succeeds (IO.FS.realPath (path ++ "/."))
  isPresent path := succeeds (IO.FS.realPath path)
  print text := do
    IO.print text
    (← IO.getStdout).flush
  complain text := IO.eprintln text
  keep j notices := do
    let lines := (Notice.atLeast j.least notices).map Notice.line
    match j.file with
    | some path => appendLines path lines
    | none => lines.forM fun line => IO.eprintln line
  rest time := do
    let now ← IO.monoNanosNow
    if time ≤ now then return now
    else
      IO.sleep (UInt32.ofNat ((time - now + 999999) / 1000000))
      return max time (← IO.monoNanosNow)

/-- The file beside the executable, and the one among the user's own. -/
def settingsPlaces : IO (List String) := do
  let program := toString (← IO.appPath)
  let beside := (Path.parent? program).map fun folder => folder ++ "/emuout.toml"
  let user ← (do
    match ← IO.getEnv "XDG_CONFIG_HOME" with
    | some folder => if folder.startsWith "/" then return some folder else home
    | none => home)
  return beside.toList ++ (user.map fun folder => folder ++ "/emuout/config.toml").toList
where
  home : IO (Option String) := do
    return (← IO.getEnv "HOME").map fun folder => folder ++ "/.config"

/-- The code that stands for an end without one. -/
def codeOfCutOff : Nat := 134

end EmulatorOutput

/-- Runs the program with the arguments it is given. -/
def main (args : List String) : IO UInt32 := do
  let code ← EmulatorOutput.CommandLine.Program.execute (m := IO) args
    (← EmulatorOutput.settingsPlaces)
  return UInt32.ofNat (code.getD EmulatorOutput.codeOfCutOff)
