import EmulatorOutput.CommandLine.Arguments
import EmulatorOutput.Session.Player
import EmulatorOutput.Settings.Derived
import EmulatorOutput.Settings.Sample
import EmulatorOutput.Settings.Store
import EmulatorOutput.Text.Duration

/-!
# The program

Loads the settings, opens the log and carries out a command, in whatever surroundings it is run:
`Host m` says what it needs of them. The code with which it ends is 0 if all went well, 1 if
something was refused, 2 if the arguments were not accepted and 101 if a computation broke off.
A program without the memory it needs is cut off and ends with no code.
-/

namespace EmulatorOutput.CommandLine

open Picture (FrameBuffer Pipeline)
open Session (FrameLimiter Loop Player TestPattern)
open Sound (Allocator Line Stream)

def version : String := "0.1.0"

/-- Which notices are kept, and in which file. -/
structure Journal where
  least : Level
  file : Option String

/-- The surroundings of a running program. -/
class Host (m : Type → Type) extends Files m where
  print : String → m Unit
  /-- Writes a line to the standard error output. -/
  complain : String → m Unit
  keep : Journal → List Notice → m Unit
  /-- Waits for a time and gives the time it is then, in nanoseconds. -/
  rest : Nat → m Nat

instance {m : Type → Type} {ε : Type} [Monad m] [Host m] : Host (ExceptT ε m) where
  print text := ExceptT.lift (Host.print text)
  complain text := ExceptT.lift (Host.complain text)
  keep j notices := ExceptT.lift (Host.keep j notices)
  rest time := ExceptT.lift (Host.rest time)

/-- Why a command did not come to its end. -/
inductive Halt where
  | failed (reason : String)
  | broke (fault : Fault)
  /-- Memory that the program cannot do without was refused. -/
  | starved (size : Nat)

namespace Program

variable {m : Type → Type} [Monad m] [Host m]

/-! ## Showing what follows from the settings -/

/-- The lines on the periods of a set-up that is accepted. -/
def periodLines (s : Sound.Setup) : List (Except Fault String) :=
  [do return s!"  Period:        {s.dataSize} bytes ({← s.periodSamples} samples, "
        ++ s!"{Duration.describe (← s.periodNanos)})\n",
    do return s!"  Buffer:        {← s.bufferSize} bytes, aligned to {s.alignment.toNat}\n",
    do return s!"  Queue depth:   {s.queueDepth.toNat} "
        ++ s!"({← Word.add s.queueDepth.toNat 1} staging buffers)\n",
    return match s.waitLimit with
      | some nanos => s!"  Wait timeout:  {Duration.describe nanos}\n"
      | none => "  Wait timeout:  none\n"]

def soundLines (s : Sound.Setup) : List (Except Fault String) :=
  [return "Audio:\n",
    do return s!"  Format:        {← s.format.describe}\n",
    return s!"  Source:        {s.source.title}\n"] ++
  match s.check with
  | .ok () => periodLines s
  | .error (.failure e) => [return s!"  Invalid:       {e.message}\n"]
  | .error (.fault f) => [throw f]

def pictureLines (s : Picture.Screen) : List String :=
  ["\nVideo:\n", s!"  Source:        {Picture.sourceWidth}x{Picture.sourceHeight}\n",
    s!"  Framebuffer:   {s.width}x{s.height} stride {s.stride} ({s.format.label})\n",
    s!"  Mode:          {s.mode.describe}\n",
    match s.plan with
    | .ok p => s!"  Placement:     {p.width}x{p.height} at x={p.x}\n"
    | .error e => s!"  Invalid:       {e.message}\n"]

/-- All lines. Each is shown before the next is made. -/
def infoLines (s : Settings) (file : Option String) : List (Except Fault String) :=
  [return s!"emuout {version} (callback ABI {Session.callbackVersion})\n\n"] ++
  soundLines s.audio.setup ++ (pictureLines s.video.screen).map .ok ++
  (file.map fun path => .ok s!"\nSettings file: {path}\n").toList

/-- Prints lines until one cannot be made. -/
def printLines : List (Except Fault String) → ExceptT Halt m Unit
  | [] => pure ()
  | .ok text :: rest => do
    Host.print text
    printLines rest
  | .error f :: _ => throw (.broke f)

/-- Shows what follows from the settings. -/
def info (s : Settings) (places : List String) : ExceptT Halt m Unit := do
  let file ← Files.firstPresent places
  printLines (infoLines s file)

/-! ## Sample settings -/

/-- Prints sample settings, or writes them to a file. -/
def config (output : Option String) : ExceptT Halt m Unit := do
  match output with
  | none => Host.print Settings.sample
  | some path =>
    match ← Files.write path Settings.sample.toUTF8 with
    | .ok () => Host.print s!"Sample configuration written to {path}\n"
    | .error e => throw (.failed s!"Failed to write {path}: {e.message}")

/-! ## Running the test pattern -/

def RunOptions.applyTo (o : RunOptions) (s : Settings) : Settings :=
  { s with
    audio := { s.audio with
      enabled := s.audio.enabled && !o.noAudio
      sourceLayout := if o.mono then .mono else s.audio.sourceLayout
      realtime := s.audio.realtime && !o.freeRun
      pcmFile := o.pcmFile.getD s.audio.pcmFile }
    video := { s.video with
      enabled := s.video.enabled && !o.noVideo
      scale := o.scale.getD s.video.scale
      format := o.format.or s.video.format }
    pace := { targetRate := o.rate.getD s.pace.targetRate } }

/-- Keeps the notices of a computation and goes on with its result. -/
def listen {α : Type} (j : Journal) (x : Logged Fault α) : ExceptT Halt m α := do
  Host.keep j x.notices
  match x.outcome with
  | .ok a => return a
  | .error f => throw (.broke f)

/-- Asks for memory. More than a collection may hold is not even asked for. -/
def reserve (size : Nat) : ExceptT Halt m Unit := do
  if size ≤ Word.maxBytes ∧ ¬ Allocator.standard 0 size 1 then throw (.starved size)

/-- Starts the picture pipeline, if pictures are wanted and it can be started. -/
def openPicture (j : Journal) (s : Settings) :
    ExceptT Halt m (Option (Pipeline FrameBuffer)) := do
  if s.video.enabled then
    let size := (Picture.sourceWidth, Picture.sourceHeight)
    s.video.screen.bufferBytes?.forM (reserve (m := m))
    match ← listen j (s.video.screen.start size).settle with
    | .ok p => return some p
    | .error e =>
      Host.keep j [⟨.error, s!"Video pipeline not started: {e.message}"⟩]
      return none
  else return none

/-- Creates the file that played samples go to, if there is to be one. -/
def createSink (j : Journal) (path : String) : m (Except Failure (Option Sound.Sink)) := do
  if path.isEmpty then return .ok none
  else
    match ← Files.write path ByteArray.empty with
    | .error e => return .error (.io e.message)
    | .ok () =>
      Host.keep j [⟨.info, s!"Writing PCM to {path}"⟩]
      return .ok (some {})

/-- Opens a playback line and a stream over it. -/
def openSound (j : Journal) (s : Settings) : ExceptT Halt m (Except Failure (Stream Line)) := do
  let setup := s.audio.setup
  match ← listen j (Logged.ofExcept setup.check).settle with
  | .error e => return .error e
  | .ok () =>
    match ← createSink j s.audio.pcmFile with
    | .error e => return .error e
    | .ok sink =>
      let line ← listen j (Line.start setup.format s.audio.realtime sink)
      reserve (Sound.StagingPool.tableBytes (setup.queueDepth.toNat + 1))
      listen j (Stream.start Allocator.standard setup line).settle

/-- Passes until the session is over, but at most so many. -/
def play (j : Journal) : Nat → Player → m (Player × Option Fault)
  | 0, p => return (p, none)
  | n + 1, p =>
    if p.isOver then return (p, none)
    else do
      let now ← Host.rest p.clock
      let passed := p.pass now
      Host.keep j passed.notices
      match passed.outcome with
      | .ok p => play j n p
      | .error f => return (p, some f)

/-- The report on a session that has ended. -/
def report (t : Session.Totals) (composited : Option Nat) : String :=
  s!"Frames:     {t.frames} ({t.presented} presented, {t.dropped} dropped)\n" ++
  (match t.audio with
    | some a =>
      s!"Audio:      {a.periodsSubmitted} periods submitted, {a.periodsDropped} dropped, "
        ++ s!"{a.waits} waits\n"
    | none => "") ++
  (match composited with
    | some frames => s!"Video:      {frames} frames composited\n"
    | none => "") ++
  "Stopped.\n"

/-- Runs a session to its end, and writes what it has played. -/
def playOut (j : Journal) (s : Settings) (p : Player) : ExceptT Halt m Player := do
  let (p, fault) ← play (m := m) j Loop.passLimit p
  let now ← Host.rest p.clock
  let (p, notices) := p.finish now
  Host.keep j notices
  if p.line?.isSome && !s.audio.pcmFile.isEmpty then
    let _ ← Files.write s.audio.pcmFile (ByteArray.mk p.played)
  match fault with
  | some f => throw (.broke f)
  | none => return p

/-- Runs the test pattern. -/
def run (j : Journal) (s : Settings) (frames : Option UInt64) : ExceptT Halt m Unit := do
  Host.print s!"emuout {version} - pattern core\n\n"
  let core := TestPattern.create s.audio.sampleRate s.audio.sourceLayout s.audio.tone
  let picture ← openPicture j s
  let limit := frames.map UInt64.toNat
  let loop ← (do
    match ← listen j (Loop.create core picture {} limit).settle with
    | .ok loop => return loop
    | .error e => throw (Halt.failed e.message))
  let loop ← (do
    if s.audio.enabled then
      let (loop, notices) := Loop.attach loop (← openSound j s)
      Host.keep j notices
      return loop
    else return loop)
  Host.print "Running. Press Ctrl+C to stop.\n\n"
  Host.keep j [loop.greeting]
  let p ← playOut j s { loop, limiter := FrameLimiter.ofRate s.pace.targetRate.toNat }
  Host.print (report p.loop.totals (p.loop.picture.map fun q => q.compositor.frames))

/-! ## The whole program -/

def usage : String :=
  "Usage: emuout [OPTIONS] [COMMAND]\n\n"
    ++ "Commands:\n"
    ++ "  run     Run the built-in pattern core through both pipelines\n"
    ++ "  info    Show derived buffer sizes and frame geometry\n"
    ++ "  config  Print a sample settings file\n"
    ++ "  help    Print this message\n"

/-- The journal that arguments and settings ask for. -/
def journal (a : Arguments) (s : Settings) : Journal where
  least := a.level?.getD ((Level.ofLabel? s.logLevel).getD .error)
  file := a.log.or (if s.logFile.isEmpty then none else some s.logFile)

def openJournal (j : Journal) : ExceptT Halt m Unit := do
  match j.file with
  | none => return ()
  | some path =>
    match ← Files.write path ByteArray.empty with
    | .ok () => return ()
    | .error e => throw (.failed s!"Failed to create log file {path}: {e.message}")

/-- Carries out a command. Settings are looked for in the given places unless the arguments name
a file. -/
def carryOut (a : Arguments) (places : List String) : ExceptT Halt m Unit := do
  let loaded ← (match a.config with
    | some path => Settings.load path
    | none => Settings.loadDefault places)
  match loaded with
  | .error e => throw (.failed e.message)
  | .ok s =>
    let j := journal a s
    openJournal j
    match a.effective with
    | .run options => run j (RunOptions.applyTo options s) options.frames
    | .info => info s places
    | .config output => config output

/-- Runs the program with the given arguments, and gives the code with which it ends, if any. -/
def execute (args places : List String) : m (Option Nat) := do
  match Arguments.parse args with
  | .error e =>
    match e with
    | .displayHelp => Host.print usage
    | .displayVersion => Host.print s!"emuout {version}\n"
    | _ => Host.complain s!"error: {e.message}"
    return some e.exitCode
  | .ok a =>
    match ← carryOut a places with
    | .ok () => return some 0
    | .error (.failed reason) =>
      Host.complain s!"Error: {reason}"
      return some 1
    | .error (.broke f) =>
      Host.complain (f.message?.getD "broken off")
      return some 101
    | .error (.starved size) =>
      Host.complain s!"memory allocation of {size} bytes failed"
      return none

end Program

end EmulatorOutput.CommandLine
