import EmulatorOutput.Sound.Device
import EmulatorOutput.Sound.Format

/-!
# Playback lines

A software device: a producer puts periods on a queue of limited length, and a voice takes them
off in order, holds each for its play time if it plays in real time, writes it to a sink, counts
it and sends word that its buffer is free. Producer and voice run side by side, so what either
does is cut into steps that the other can come between. A `Line` is the state they share, the
clock included; the voice's next step, where it can take one, is `advance`, `lapse` or `wake`.
-/

namespace EmulatorOutput.Sound

/-- A period on its way through the line. -/
structure Period where
  id : Nat
  data : Array UInt8
  deriving DecidableEq, Repr

/-- What a sink does with a write. -/
inductive WriteAnswer where
  | takesAll
  /-- Takes at most so many bytes. Taking none counts as a failure. -/
  | takes (most : Nat)
  | fails
  /-- The write never returns and the voice is lost. -/
  | crashes
  deriving DecidableEq, Repr

/-- Where played bytes go. -/
structure Sink where
  /-- The answer to each write, by the number of writes before it. -/
  answers : Nat → WriteAnswer := fun _ => .takesAll
  /-- Writes do not return for now. -/
  blocked : Bool := false
  /-- What each write has taken, the latest first. -/
  chunks : List (Array UInt8) := []
  writes : Nat := 0
  flushes : Nat := 0

namespace Sink

def written (s : Sink) : Array UInt8 := s.chunks.reverse.foldl (· ++ ·) #[]

def take (s : Sink) (bytes : Array UInt8) : Sink := { s with chunks := bytes :: s.chunks }

@[simp] theorem written_take (s : Sink) (bytes : Array UInt8) :
    (s.take bytes).written = s.written ++ bytes := by
  simp [written, take]

end Sink

/-- Where the voice is. -/
inductive Voice where
  | idle
  /-- Gave up waiting at an empty queue, and has not yet read the stop flag. -/
  | lapsed
  /-- Has taken a period, and has not yet read the stop flag. -/
  | received (p : Period)
  /-- Holds a period until its play time is over. -/
  | sleeping (p : Period) (wakeAt : Nat)
  /-- Writes a period of which so many bytes are written. -/
  | writing (p : Period) (done : Nat)
  /-- Is through with the sink, and has not yet counted the period. -/
  | played (p : Period)
  /-- Has counted the period, and has not yet sent word. -/
  | counted (p : Period)
  /-- Has left its loop, and has not yet flushed the sink. -/
  | draining
  | exited
  /-- Lost in the middle of a period. -/
  | crashed
  deriving DecidableEq, Repr

/-- A voice that has ended takes no more periods and sends no more word. -/
def Voice.ended : Voice → Bool
  | .exited | .crashed => true
  | _ => false

/-- A bound on the steps from here to the wait for the next period, or to the end. -/
def Voice.work : Voice → Nat
  | .idle => 2
  | .lapsed => 3
  | .received p => p.data.size + 8
  | .sleeping p _ => p.data.size + 7
  | .writing p done => (p.data.size - done) + 6
  | .played _ => 5
  | .counted _ => 4
  | .draining => 1
  | .exited | .crashed => 0

/-- What the voice has counted. -/
structure PlaybackCounts where
  periodsPlayed : Nat := 0
  bytesPlayed : Nat := 0
  /-- Periods begun after the one before had ended. -/
  underruns : Nat := 0
  sinkErrors : Nat := 0
  deriving DecidableEq, Repr

/-- A playback device with its voice. -/
structure Line where
  format : Format
  realtime : Bool
  sink : Option Sink
  /-- Whether the sink is still written to. -/
  sinkInUse : Bool := true
  /-- Nanoseconds since the line was opened. -/
  now : Nat := 0
  /-- Periods the voice has not taken yet, oldest first. -/
  queue : List Period := []
  /-- Whether the producer can still put periods on the queue. -/
  connected : Bool := true
  /-- The flag that tells the voice to stop. -/
  stopping : Bool := false
  voice : Voice := .idle
  /-- When the period before ends or ended. -/
  playedUntil : Option Nat := none
  /-- Free buffers the producer has not heard of yet, oldest first. -/
  released : List Nat := []
  /-- Periods accepted whose release the producer has not heard of. -/
  inFlight : Nat := 0
  counts : PlaybackCounts := {}
  /-- Whether the producer has stopped the line and seen the voice end. -/
  joined : Bool := false

namespace Line

/-- The periods the queue holds at most. -/
def queueCapacity : Nat := 8

def start (format : Format) (realtime : Bool) (sink : Option Sink) : Logged Fault Line := do
  let text ← format.describe
  let pace := if realtime then "real-time" else "free-running"
  Logged.note .info s!"Playback device started: {text} ({pace})"
  return { format, realtime, sink }

/-! ## The voice -/

/-- Loses the voice. What is still queued is lost with it. -/
def loseVoice (l : Line) : Line := { l with queue := [], voice := .crashed }

/-- Fixes when the period ends and holds it until then. It begins when the one before ends; if
that is over it begins now, and the line has run dry. -/
def pace (l : Line) (p : Period) : Line :=
  let late := l.playedUntil.any (· < l.now)
  let start := if late then l.now else l.playedUntil.getD l.now
  let l := { l with counts.underruns := l.counts.underruns + if late then 1 else 0 }
  match l.format.nanosOf p.data.size with
  | .error _ => l.loseVoice
  | .ok nanos =>
    { l with playedUntil := some (start + nanos), voice := .sleeping p (start + nanos) }

/-- Counts a failed write and gives the sink up for good. -/
def loseSink (l : Line) (s : Sink) (p : Period) : Line :=
  { l with
    sink := some s
    sinkInUse := false
    counts.sinkErrors := l.counts.sinkErrors + 1
    voice := .played p }

/-- One write of what is left of a period, or the end of writing if nothing is left or there is
no sink to write to. A blocked sink lets the voice do nothing. -/
def write (l : Line) (p : Period) (done : Nat) : Option Line :=
  match l.sink with
  | none => some { l with voice := .played p }
  | some s =>
    if ¬ l.sinkInUse ∨ p.data.size ≤ done then some { l with voice := .played p }
    else if s.blocked then none
    else
      let answer := s.answers s.writes
      let s := { s with writes := s.writes + 1 }
      let accept (n : Nat) : Line :=
        { l with
          sink := some (s.take (p.data.extract done (done + n)))
          voice := .writing p (done + n) }
      match answer with
      | .takesAll => some (accept (p.data.size - done))
      | .takes most =>
        if most = 0 then some (l.loseSink s p)
        else some (accept (min most (p.data.size - done)))
      | .fails => some (l.loseSink s p)
      | .crashes => some (loseVoice { l with sink := some s })

/-- The next step of the voice, unless it waits for the queue, the clock or the sink. -/
def advance (l : Line) : Option Line :=
  match l.voice with
  | .idle =>
    match l.queue with
    | p :: queue => some { l with queue, voice := .received p }
    | [] => if l.connected then none else some { l with voice := .draining }
  | .lapsed => some { l with voice := if l.stopping then .draining else .idle }
  | .received p =>
    if l.realtime ∧ ¬ l.stopping then some (l.pace p)
    else some { l with voice := .writing p 0 }
  | .sleeping _ _ => none
  | .writing p done => l.write p done
  | .played p =>
    some { l with
      counts.periodsPlayed := l.counts.periodsPlayed + 1
      counts.bytesPlayed := l.counts.bytesPlayed + p.data.size
      voice := .counted p }
  | .counted p => some { l with released := l.released ++ [p.id], voice := .idle }
  | .draining =>
    let flushed := l.sink.map fun s =>
      if l.sinkInUse then { s with flushes := s.flushes + 1 } else s
    some { l with sink := flushed, voice := .exited }
  | .exited | .crashed => none

/-- The voice gives up waiting, as it may at any time while the queue is empty and open. -/
def lapse (l : Line) : Option Line :=
  if l.voice = .idle ∧ l.queue = [] ∧ l.connected then some { l with voice := .lapsed }
  else none

/-- The voice wakes up, at the end of the play time or later. -/
def wake (l : Line) : Option Line :=
  match l.voice with
  | .sleeping p wakeAt =>
    if wakeAt ≤ l.now then some { l with voice := .writing p 0 } else none
  | _ => none

/-! ## The producer -/

/-- Puts a period on the queue, unless the line is stopped, the voice has ended or the queue is
full. -/
def accept (l : Line) (p : Period) : Line × Except Failure Unit :=
  if ¬ l.connected then (l, .error (.deviceError "playback device stopped"))
  else if l.voice.ended then (l, .error (.channelError "playback thread exited"))
  else if queueCapacity ≤ l.queue.length then (l, .error (.deviceError "playback queue full"))
  else ({ l with queue := l.queue ++ [p], inFlight := l.inFlight + 1 }, .ok ())

/-- Hears of the oldest free buffer, if a wait can end at once. -/
def receive (l : Line) : Option (Line × Except Failure WaitOutcome) :=
  if l.inFlight = 0 then some (l, .ok .idle)
  else
    match l.released with
    | id :: released =>
      some ({ l with released, inFlight := l.inFlight - 1 }, .ok (.released id))
    | [] =>
      if l.voice.ended then some (l, .error (.channelError "playback thread exited"))
      else none

/-- Raises the flag that tells the voice to stop. -/
def raiseStop (l : Line) : Line := { l with stopping := true }

/-- Closes the producer's end of the queue. -/
def hangUp (l : Line) : Line := { l with connected := false }

/-- Sees the voice end, and gives up the buffers not heard of. -/
def join (l : Line) : Line × List Notice :=
  let lost : List Notice :=
    if l.voice = .crashed then [⟨.error, "Playback thread panicked"⟩] else []
  ({ l with joined := true, inFlight := 0 },
    lost ++ [⟨.debug, s!"Playback device stopped with {l.inFlight} buffer(s) unreleased"⟩])

def unblock (l : Line) : Line :=
  { l with sink := l.sink.map fun s => { s with blocked := false } }

/-! ## The work left -/

/-- A bound on the steps the voice can take before it waits for the producer. -/
def work (l : Line) : Nat := l.queue.foldr (fun p n => p.data.size + 7 + n) 0 + l.voice.work

/-- Nothing is left to do for a voice that is lost. -/
theorem work_loseVoice {l : Line} (h : 0 < l.voice.work) : l.loseVoice.work < l.work :=
  Nat.lt_of_lt_of_le h (Nat.le_add_left _ _)

theorem work_write {l l' : Line} {p : Period} {done : Nat} (hv : l.voice = .writing p done)
    (h : l.write p done = some l') : l'.work < l.work := by
  unfold write at h
  split at h
  · cases h
    simp [work, Voice.work, hv]
  · split at h
    · cases h
      simp [work, Voice.work, hv]
    · rename_i hlt
      split at h
      · cases h
      · have hd : done < p.data.size := by omega
        simp only at h
        split at h
        · cases h
          simp [work, Voice.work, hv]
          omega
        · split at h
          · cases h
            simp [work, Voice.work, hv, loseSink]
          · cases h
            simp [work, Voice.work, hv]
            omega
        · cases h
          simp [work, Voice.work, hv, loseSink]
        · cases h
          have hleft : 0 < l.voice.work := by simp [hv, Voice.work]
          exact work_loseVoice hleft

theorem work_advance {l l' : Line} (h : l.advance = some l') : l'.work < l.work := by
  unfold advance at h
  split at h
  · rename_i hv
    split at h
    · rename_i p queue hq
      cases h
      simp [work, Voice.work, hv, hq]
      omega
    · split at h
      · cases h
      · cases h
        simp [work, Voice.work, hv]
  · rename_i hv
    cases h
    cases l.stopping <;> simp [work, Voice.work, hv]
  · rename_i p hv
    split at h
    · cases h
      simp only [pace]
      split
      · have hleft : 0 < l.voice.work := by simp [hv, Voice.work]
        exact work_loseVoice hleft
      · simp [work, Voice.work, hv]
    · cases h
      simp [work, Voice.work, hv]
  · cases h
  · rename_i p done hv
    exact work_write hv h
  · rename_i p hv
    cases h
    simp [work, Voice.work, hv]
  · rename_i p hv
    cases h
    simp [work, Voice.work, hv]
  · rename_i hv
    cases h
    simp [work, Voice.work, hv]
  · cases h
  · cases h

theorem work_wake {l l' : Line} (h : l.wake = some l') : l'.work < l.work := by
  unfold wake at h
  split at h
  · rename_i p wakeAt hv
    split at h
    · cases h
      simp [work, Voice.work, hv]
    · cases h
  · cases h

end Line

end EmulatorOutput.Sound
