import EmulatorOutput.CommandLine.Grammar
import EmulatorOutput.Notice
import EmulatorOutput.Settings.Document

/-!
# The arguments of the program

The commands, their switches, and the switches that every command takes. A switch that is given
before and after the name of a command counts as it is given after.
-/

namespace EmulatorOutput.CommandLine

open Picture (PixelFormat)
open Settings (Scaling)

/-- What a run does differently from the settings. -/
structure RunOptions where
  /-- The number of frames after which to stop. -/
  frames : Option UInt64 := none
  rate : Option UInt32 := none
  noAudio : Bool := false
  noVideo : Bool := false
  mono : Bool := false
  /-- Whether periods are not held for their play time. -/
  freeRun : Bool := false
  pcmFile : Option String := none
  scale : Option Scaling := none
  format : Option PixelFormat := none
  deriving DecidableEq, Repr

/-- What the program is asked to do. -/
inductive Command where
  /-- Runs the test pattern. -/
  | run (options : RunOptions)
  /-- Shows what follows from the settings. -/
  | info
  /-- Prints sample settings, or writes them to a file. -/
  | config (output : Option String)
  deriving DecidableEq, Repr

/-- What every command takes. -/
structure Globals where
  verbosity : Nat := 0
  quiet : Bool := false
  log : Option String := none
  /-- The file that settings are loaded from. -/
  config : Option String := none
  deriving DecidableEq, Repr

namespace Globals

/-- What is given before a command and what is given after it, together. -/
def within (outer inner : Globals) : Globals where
  verbosity := if inner.verbosity = 0 then outer.verbosity else inner.verbosity
  quiet := inner.quiet || outer.quiet
  log := inner.log.or outer.log
  config := inner.config.or outer.config

/-- The lightest notices that are asked for. -/
def level? (g : Globals) : Option Level :=
  if g.quiet then some .error
  else
    match g.verbosity with
    | 0 => none
    | 1 => some .debug
    | _ => some .trace

end Globals

/-- The arguments of the program. -/
structure Arguments extends Globals where
  command : Option Command := none
  deriving DecidableEq, Repr

/-! ## Values -/

def digitsOnly? (cs : List Char) : Option Nat :=
  if cs.isEmpty || !cs.all Char.isDigit then none
  else some (cs.foldl (fun n c => 10 * n + (c.toNat - '0'.toNat)) 0)

/-- A number, which a plus sign may precede. -/
def natural? (s : String) : Option Nat :=
  match s.toList with
  | '+' :: cs => digitsOnly? cs
  | cs => digitsOnly? cs

/-- A number, which a sign may precede. -/
def integer? (s : String) : Option Int :=
  match s.toList with
  | '-' :: cs => (digitsOnly? cs).map fun n => -Int.ofNat n
  | _ => (natural? s).map Int.ofNat

def frameCount (s : String) : Except UsageError UInt64 :=
  match natural? s with
  | some n => if n < UInt64.size then .ok (UInt64.ofNat n) else .error (.valueValidation "frames" s)
  | none => .error (.valueValidation "frames" s)

def frameRate (s : String) : Except UsageError UInt32 :=
  match integer? s with
  | some n =>
    if 0 ≤ n ∧ n.toNat < UInt32.size then .ok (UInt32.ofNat n.toNat)
    else .error (.valueValidation "fps" s)
  | none => .error (.valueValidation "fps" s)

def path (switch s : String) : Except UsageError String :=
  if s.isEmpty then .error (.invalidValue switch s) else .ok s

def scaling (s : String) : Except UsageError Scaling :=
  match Settings.scalingNames.lookup s with
  | some k => .ok k
  | none => .error (.invalidValue "scale" s)

def pixelFormat (s : String) : Except UsageError PixelFormat :=
  match PixelFormat.ofLabel? s with
  | some f => .ok f
  | none => .error (.valueValidation "format" s)

/-! ## Switches -/

def countLimit : Nat := 255

def globalSwitches {α : Type} : List (Switch (Globals × α)) :=
  [{ long := "verbose", short := some 'v',
     use := .count fun (g, x) =>
       ({ g with verbosity := min (g.verbosity + 1) countLimit }, x) },
   { long := "quiet", short := some 'q', use := .flag fun (g, x) => ({ g with quiet := true }, x) },
   { long := "log",
     use := .value fun s (g, x) => do return ({ g with log := some (← path "log" s) }, x) },
   { long := "config", short := some 'c',
     use := .value fun s (g, x) => do return ({ g with config := some (← path "config" s) }, x) },
   { long := "help", short := some 'h', use := .answer .displayHelp }]

def rootGrammar : Grammar (Globals × Unit) where
  switches := { long := "version", short := some 'V', use := .answer .displayVersion } ::
    globalSwitches
  subcommands := ["run", "info", "config", Grammar.helpName]

def runGrammar : Grammar (Globals × RunOptions) where
  switches :=
    let flag (name : String) (set : RunOptions → RunOptions) : Switch (Globals × RunOptions) :=
      { long := name, use := .flag fun (g, o) => (g, set o) }
    let value (name : String) (short : Option Char)
        (set : String → RunOptions → Except UsageError RunOptions) :
        Switch (Globals × RunOptions) :=
      { long := name, short, use := .value fun s (g, o) => do return (g, ← set s o) }
    [value "frames" (some 'f') fun s o => do return { o with frames := some (← frameCount s) },
      value "fps" none fun s o => do return { o with rate := some (← frameRate s) },
      flag "no-audio" fun o => { o with noAudio := true },
      flag "no-video" fun o => { o with noVideo := true },
      flag "mono" fun o => { o with mono := true },
      flag "free-run" fun o => { o with freeRun := true },
      value "pcm-out" none fun s o => do return { o with pcmFile := some (← path "pcm-out" s) },
      value "scale" none fun s o => do return { o with scale := some (← scaling s) },
      value "format" none fun s o => do return { o with format := some (← pixelFormat s) }] ++
    globalSwitches

/-- The arguments after a command that takes none of its own. -/
def plainGrammar : Grammar (Globals × Unit) where
  switches := globalSwitches

/-- The arguments of the command that gives sample settings. -/
def configGrammar : Grammar (Globals × Option String) where
  switches :=
    { long := "output", short := some 'o',
      use := .value fun s (g, _) => do return (g, some (← path "output" s)) } :: globalSwitches

/-! ## Reading -/

/-- Reads all arguments of a level that has no subcommands. -/
def Grammar.readAll {α : Type} (g : Grammar (Globals × α)) (own : α) (args : List String) :
    Except UsageError (Globals × α) := do
  let (p, _) ← g.scan false args { state := ({}, own) }
  return (← p.resolve).state

/-- Reads what follows the name of a command. -/
def readCommand (name : String) (args : List String) : Except UsageError (Globals × Command) :=
  match name with
  | "run" => do
    let (g, options) ← runGrammar.readAll {} args
    return (g, .run options)
  | "info" => do
    let (g, _) ← plainGrammar.readAll () args
    return (g, .info)
  | _ => do
    let (g, output) ← configGrammar.readAll none args
    return (g, .config output)

namespace Arguments

/-- Reads arguments, without the name of the program. -/
def parse (args : List String) : Except UsageError Arguments := do
  let (p, subcommand) ← rootGrammar.scan false args { state := ({}, ()) }
  let command ← (match subcommand with
    | none => pure none
    | some (name, rest) => some <$> readCommand name rest)
  let (outer, _) := (← p.resolve).state
  match command with
  | none => return { outer with command := none }
  | some (inner, c) => return { outer.within inner with command := some c }

/-- What is done. Without a command the test pattern is run. -/
def effective (a : Arguments) : Command := a.command.getD (.run {})

end Arguments

end EmulatorOutput.CommandLine
