import EmulatorOutput.Session.Mailbox
import EmulatorOutput.Session.Turn

/-!
# The control loop

Drives one session. Each pass reads the commands that are there and then, depending on the
state, cycles the core for one frame or waits for a command. The loop ends when the session is
shutting down: by a command, at the frame limit, or because nobody is left who could resume it.
Then the sound sink is closed.
-/

namespace EmulatorOutput.Session

open Sound (Tally)

/-- What a session has counted. -/
structure Totals where
  frames : Nat := 0
  presented : Nat := 0
  dropped : Nat := 0
  samples : Nat := 0
  /-- A 32-bit word. -/
  restarts : Nat := 0
  /-- The sound sink's own counts when it was closed. -/
  audio : Option Tally := none
  deriving DecidableEq, Repr

/-- The sound sink of a session. -/
inductive SoundLink (α : Type) where
  | absent
  | attached (sink : α)
  /-- No longer in use. -/
  | closed (sink : α)

namespace SoundLink

variable {α : Type}

/-- The sink, while it is in use. -/
def active? : SoundLink α → Option α
  | .attached sink => some sink
  | _ => none

def sink? : SoundLink α → Option α
  | .absent => none
  | .attached sink | .closed sink => some sink

/-- Puts back a sink that was in use. -/
def update (l : SoundLink α) : Option α → SoundLink α
  | some sink => .attached sink
  | none => l

end SoundLink

/-- One session: a core, its sinks, and its controller. -/
structure Loop (κ α ν : Type) where
  core : κ
  sound : SoundLink α := .absent
  picture : Option ν
  mailbox : Mailbox := {}
  /-- The number of frames after which the session ends. -/
  frameLimit : Option Nat := none
  phase : Phase := .running
  reported : List Failure.Kind := []
  totals : Totals := {}

namespace Loop

variable {κ α ν : Type} [Core κ] [SoundSink α] [PictureSink ν]

/-- A session without sound, if the core was written for this contract. -/
def create (core : κ) (picture : Option ν) (mailbox : Mailbox) (frameLimit : Option Nat) :
    Logged Stop (Loop κ α ν) :=
  let version := Core.version core
  if version = callbackVersion then do
    if picture.isNone then
      Logged.note .warn "Video disabled for this session"
    return { core, picture, mailbox, frameLimit }
  else
    Logged.stop (.failure (.invalidConfig
      (s!"core {Core.name core} uses callback ABI {version}, "
        ++ s!"expected {callbackVersion}")))

/-- Attaches a sound sink, or goes without if it could not be had. -/
def attach (l : Loop κ α ν) (sink : Except Failure α) : Loop κ α ν × List Notice :=
  match sink with
  | .ok sink => ({ l with sound := .attached sink }, [])
  | .error e => (l, [⟨.error, s!"Audio disabled for this session: {e.message}"⟩])

def soundWanted (l : Loop κ α ν) : Bool := l.sound.active?.isSome

def step (l : Loop κ α ν) : Logged Fault (Loop κ α ν) := do
  let turn : Turn α ν :=
    { sound := l.sound.active?, picture := l.picture, reported := l.reported }
  let (core, actions) ← Core.cycle l.core turn.soundWanted
  let turn ← turn.performAll actions
  return { l with
    core
    sound := l.sound.update turn.sound
    picture := turn.picture
    mailbox := l.mailbox.sendAll turn.sent.reverse
    reported := turn.reported
    totals := { l.totals with
      frames := l.totals.frames + 1
      presented := l.totals.presented + turn.presented
      dropped := l.totals.dropped + turn.dropped
      samples := l.totals.samples + turn.samples } }

/-- The notice of a change of state, if it is one. -/
def changeNotice (before after : Phase) : List Notice :=
  if before = after then []
  else [⟨.debug, s!"Driver state {before.title} -> {after.title}"⟩]

/-- The notice of a restart, if it is one. -/
def restartNotice (l : Loop κ α ν) (c : Command) : List Notice :=
  if l.phase.restarts c then [⟨.info, s!"Restarting {Core.name l.core}"⟩] else []

/-- The session after a command. -/
def handle (l : Loop κ α ν) (c : Command) : Loop κ α ν × List Notice :=
  let phase := l.phase.after c
  let restart := l.phase.restarts c
  ({ l with
      core := if restart then Core.reset l.core else l.core
      phase
      totals.restarts := l.totals.restarts + if restart then 1 else 0 },
    l.restartNotice c ++ changeNotice l.phase phase)

/-- The command asks for a restart that is one too many to be counted. -/
def Overcounts (l : Loop κ α ν) (c : Command) : Prop :=
  l.phase.restarts c = true ∧ UInt32.size ≤ l.totals.restarts + 1

instance (l : Loop κ α ν) (c : Command) : Decidable (l.Overcounts c) :=
  inferInstanceAs (Decidable (_ ∧ _))

/-- Handles a command. The core is reset before the restart is counted, and one that cannot be
counted breaks off. -/
def heed (l : Loop κ α ν) (c : Command) : Logged Fault (Loop κ α ν) :=
  if l.Overcounts c then ⟨.error .addOverflow, l.restartNotice c⟩ else Logged.tell (l.handle c)

/-- Applies the commands that are there, in their order. When the mailbox is closed a session
that is not running is over, as nobody is left to resume it. -/
def poll (l : Loop κ α ν) : Logged Fault (Loop κ α ν) :=
  match _ : l.mailbox.look with
  | (mailbox, .command c) => do
    let l ← heed { l with mailbox } c
    poll { l with mailbox }
  | (mailbox, .empty) => pure { l with mailbox }
  | (mailbox, .closed) =>
    pure { l with mailbox, phase := if l.phase = .running then .running else .shuttingDown }
termination_by l.mailbox.pending
decreasing_by exact Mailbox.pending_look (by assumption)

def await (l : Loop κ α ν) : Logged Fault (Loop κ α ν) :=
  match l.mailbox.wait with
  | (mailbox, .command c) => heed { l with mailbox } c
  | (mailbox, .empty) => pure { l with mailbox }
  | (mailbox, .closed) => do
    Logged.note .warn s!"Command channel closed while {l.phase.title}"
    return { l with mailbox, phase := .shuttingDown }

/-- Does what the state asks for: a frame, a wait, or nothing. -/
def act (l : Loop κ α ν) : Logged Fault (Loop κ α ν) :=
  match l.phase with
  | .running => l.step
  | .paused | .menu => l.await
  | .shuttingDown => pure l

/-- Ends the session if it has reached its limit. -/
def checkLimit (l : Loop κ α ν) : Loop κ α ν × List Notice :=
  match l.frameLimit with
  | some limit =>
    if limit ≤ l.totals.frames then
      ({ l with phase := .shuttingDown }, [⟨.debug, "Frame limit reached"⟩])
    else (l, [])
  | none => (l, [])

def pass (l : Loop κ α ν) : Logged Fault (Loop κ α ν) := do
  let l ← l.poll
  let l ← l.act
  let (l, notices) := l.checkLimit
  Logged.report notices
  return l

/-- Passes until the session is shutting down, but at most so many. -/
def passes : Nat → Loop κ α ν → Logged Fault (Loop κ α ν)
  | 0, l => pure l
  | n + 1, l =>
    if l.phase = .shuttingDown then pure l
    else do
      let l ← l.pass
      passes n l

/-- More passes than any run takes: its frames could not be counted. -/
def passLimit : Nat := Word.limit

/-- Closes the sound sink and keeps its counts. -/
def teardown (l : Loop κ α ν) : Loop κ α ν × List Notice :=
  let (l, notices) : Loop κ α ν × List Notice :=
    match l.sound with
    | .attached sink =>
      let (closed, notices) := SoundSink.close sink
      ({ l with sound := .closed closed, totals.audio := some (SoundSink.tally sink) }, notices)
    | _ => (l, [])
  let t := l.totals
  let farewell : Notice :=
    ⟨.info, s!"Session ended after {t.frames} frames ({t.presented} presented, "
      ++ s!"{t.dropped} dropped, {t.restarts} restarts)"⟩
  (l, notices ++ [farewell])

/-- The notice with which a run begins. -/
def greeting (l : Loop κ α ν) : Notice :=
  let side (on : Bool) := if on then "on" else "off"
  ⟨.info, s!"Driving {Core.name l.core} (audio {side l.soundWanted}, "
    ++ s!"video {side l.picture.isSome})"⟩

/-- Runs the session to its end and tears it down. If it has not ended after so many passes it
is left as it is. -/
def run (n : Nat) (l : Loop κ α ν) : Logged Fault (Loop κ α ν) := do
  Logged.report [l.greeting]
  let l ← l.passes n
  if l.phase = .shuttingDown then
    let (l, notices) := l.teardown
    Logged.report notices
    return l
  else return l

end Loop

end EmulatorOutput.Session
