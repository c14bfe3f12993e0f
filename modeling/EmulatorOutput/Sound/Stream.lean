import EmulatorOutput.Sound.Device
import EmulatorOutput.Sound.Setup
import EmulatorOutput.Sound.Staging

/-!
# Streams of periods

A stream takes source samples in bursts of any length and cuts them into periods. Samples are
copied into the work buffer; each time it is full the period is closed: where the device holds
as many buffers as it may, the producer waits for one, and then hands the period over. A period
whose wait or hand-over comes to nothing is dropped as a whole, and its buffer is filled anew.
-/

namespace EmulatorOutput.Sound

/-- What a stream has counted. -/
structure Tally where
  periodsSubmitted : Nat := 0
  periodsDropped : Nat := 0
  waits : Nat := 0
  /-- Source samples, before conversion. -/
  samplesAccepted : Nat := 0
  deriving DecidableEq, Repr

/-- The failure of a wait that ran out. It names whole milliseconds, cut to 64 bits. -/
def waitedOut (limit : Option Nat) : Failure :=
  .deviceTimeout (limit.elim 0 fun nanos => nanos / 1000000 % UInt64.size)

/-- A sound session over a device. -/
structure Stream (δ : Type) where
  device : δ
  pool : StagingPool
  setup : Setup
  conversion : Conversion
  /-- The device samples of one period. -/
  capacity : Nat
  /-- The device samples in the work buffer. -/
  offset : Nat := 0
  /-- The buffers handed over and not yet released. -/
  inFlight : Nat := 0
  tally : Tally := {}
  stopped : Bool := false

namespace Stream

variable {δ : Type} [Device δ]

/-- Starts a session: the set-up is checked first, then the buffers are allocated. -/
def start (grants : Allocator) (setup : Setup) (device : δ) : Logged Stop (Stream δ) := do
  setup.check
  let conversion ← (match setup.conversion with
    | .ok c => Logged.ofExcept (.ok c)
    | .error e => Logged.stop (.failure e))
  let count ← Word.add setup.queueDepth.toNat 1
  let bufferSize ← setup.bufferSize
  let pool ← StagingPool.allocate grants count bufferSize setup.alignment.toNat
  let capacity ← setup.periodSamples
  let format ← setup.format.describe
  Logged.note .info
    (s!"Audio session: {format}, period {setup.dataSize} bytes in {bufferSize} byte buffers, "
      ++ s!"source {setup.source.title}")
  return { device, pool, setup, conversion, capacity }

/-- Copies as much of the source into the work buffer as there is room for, and gives the
number of source samples taken. -/
def fill (s : Stream δ) (source : List Int16) : Except Fault (Stream δ × Nat) := do
  let room ← Word.sub s.capacity s.offset
  let taken := source.take (room / s.conversion.factor)
  let samples := s.conversion.apply taken
  let pool ← s.pool.writeWork s.offset samples
  return ({ s with pool, offset := s.offset + samples.length }, taken.length)

def dropPeriod (s : Stream δ) : Stream δ :=
  { s with tally.periodsDropped := s.tally.periodsDropped + 1 }

/-- Makes sure that the device may take one more buffer, waiting for one if it holds all it
may. The answer says whether the period goes on to the device. -/
def makeRoom (s : Stream δ) : Logged Fault (Stream δ × Bool) :=
  if s.inFlight < s.setup.queueDepth.toNat then pure (s, true)
  else do
    let (device, answer) := Device.wait s.device s.setup.waitLimit
    let s := { s with device, tally.waits := s.tally.waits + 1 }
    match answer with
    | .ok (.released id) =>
      Logged.note .trace s!"Device released buffer {id}"
      let inFlight ← Word.sub s.inFlight 1
      return ({ s with inFlight }, true)
    | .ok .idle =>
      Logged.note .trace "Device reports no buffer in flight"
      return ({ s with inFlight := 0 }, true)
    | .ok .timedOut =>
      let s := s.dropPeriod
      Logged.note .warn
        (s!"{(waitedOut s.setup.waitLimit).message}, "
          ++ s!"dropped period ({s.tally.periodsDropped} total)")
      return (s, false)
    | .error e =>
      Logged.note .warn s!"Audio device wait failed: {e.message}, dropped period"
      return (s.dropPeriod, false)

/-- The work buffer as it is handed to the device. -/
def submission (s : Stream δ) : Submission :=
  let buffer := s.pool.workBuffer.memory
  { id := s.pool.work, buffer, bufferSize := buffer.size, dataSize := s.setup.dataSize,
    dataOffset := 0 }

/-- Hands the work buffer to the device, and goes on to the next buffer if it is accepted. The
answer says whether it was. -/
def handOver (s : Stream δ) : Logged Fault (Stream δ × Bool) :=
  let index := s.pool.work
  let (device, answer) := Device.submit s.device s.submission
  let s := { s with device }
  match answer with
  | .ok () => do
    let s := { s with
      pool := s.pool.rotate
      inFlight := s.inFlight + 1
      tally.periodsSubmitted := s.tally.periodsSubmitted + 1 }
    Logged.note .trace s!"Submitted buffer {index} ({s.inFlight} in flight)"
    return (s, true)
  | .error e => do
    if e.recoverable then
      Logged.note .warn s!"Audio device rejected buffer {index}: {e.message}"
    else
      Logged.note .error s!"Audio device failed on buffer {index}: {e.message}"
    return (s.dropPeriod, false)

/-- Ends the period in the work buffer. The answer says whether the device took it. -/
def closePeriod (s : Stream δ) : Logged Fault (Stream δ × Bool) := do
  let (s, ready) ← makeRoom { s with offset := 0 }
  if ready then s.handOver else return (s, false)

/-- Closes the period if the work buffer is full. The answer counts the periods handed over. -/
def closeIfFull (s : Stream δ) : Logged Fault (Stream δ × Nat) :=
  if s.offset = s.capacity then do
    let (s, accepted) ← s.closePeriod
    return (s, if accepted then 1 else 0)
  else pure (s, 0)

/-- Consumes all samples, closing each period as it fills, and counts the periods handed over.
Each pass has to take a sample, or the loop would not end. -/
def consume (s : Stream δ) : List Int16 → Logged Fault (Stream δ × Nat)
  | [] => pure (s, 0)
  | x :: xs => do
    let (s, taken) ← s.fill (x :: xs)
    match taken with
    | 0 => Logged.stop .stalled
    | n + 1 =>
      let (s, first) ← s.closeIfFull
      let (s, later) ← consume s (xs.drop n)
      return (s, first + later)
termination_by samples => samples.length
decreasing_by
  simp only [List.length_drop, List.length_cons]
  omega

/-- Takes a burst of source samples and gives the number of periods handed to the device. A
stopped session takes nothing. -/
def push (s : Stream δ) (samples : List Int16) : Logged Fault (Stream δ × Nat) :=
  if s.stopped then pure (s, 0)
  else do
    let (s, accepted) ← s.consume samples
    return ({ s with
      tally.samplesAccepted := s.tally.samplesAccepted + samples.length }, accepted)

/-- Stops the device, once. A partly filled period is discarded. -/
def close (s : Stream δ) : Stream δ × List Notice :=
  if s.stopped then (s, [])
  else
    let (device, notices) := Device.stop s.device
    let discarded :=
      if s.offset = 0 then []
      else [⟨.debug, s!"Discarding {s.offset} samples of a partial period"⟩]
    let farewell : Notice :=
      ⟨.info, s!"Audio session closed: {s.tally.periodsSubmitted} periods submitted, "
        ++ s!"{s.tally.periodsDropped} dropped"⟩
    ({ s with device, stopped := true }, discarded ++ notices ++ [farewell])

end Stream

end EmulatorOutput.Sound
