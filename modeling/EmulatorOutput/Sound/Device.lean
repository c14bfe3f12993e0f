import EmulatorOutput.Memory
import EmulatorOutput.Notice

/-!
# Sound devices

What a session needs of a device: it takes a filled buffer and answers at once, it waits until
a buffer is free again, and it can be stopped. A `Recorder` passes everything on to a device
and keeps each exchange with it.
-/

namespace EmulatorOutput.Sound

/-- One period handed to a device. The buffer spans the whole allocation; the sound lies in
`dataSize` bytes from `dataOffset` on. -/
structure Submission where
  id : Nat
  buffer : Memory
  bufferSize : Nat
  dataSize : Nat
  dataOffset : Nat
  deriving DecidableEq, Repr

namespace Submission

/-- The bytes to play, which must lie in the buffer. -/
def data (s : Submission) : Except Fault (Array UInt8) := do
  let stop ← Word.add s.dataOffset s.dataSize
  s.buffer.slice s.dataOffset stop

/-- The bytes to play as far as the buffer goes. -/
def dataWithin (s : Submission) : Array UInt8 :=
  s.buffer.extract s.dataOffset (s.dataOffset + s.dataSize)

end Submission

/-- How a wait for the device ended. -/
inductive WaitOutcome where
  /-- A buffer handed over earlier has been played. -/
  | released (id : Nat)
  /-- The device holds no buffer. -/
  | idle
  /-- The bound passed without a release. -/
  | timedOut
  deriving DecidableEq, Repr

/-- A sound device as its state and the answers it gives. A wait without a bound ends only
with an answer. -/
class Device (δ : Type) where
  submit : δ → Submission → δ × Except Failure Unit
  wait : δ → Option Nat → δ × Except Failure WaitOutcome
  /-- Ends the session with the device, and reports what the device has to say. -/
  stop : δ → δ × List Notice

/-- One exchange with a device. -/
inductive Exchange where
  | submitted (period : Submission) (answer : Except Failure Unit)
  | waited (limit : Option Nat) (answer : Except Failure WaitOutcome)
  | stopped

/-- A device and every exchange with it, the latest first. -/
structure Recorder (δ : Type) where
  device : δ
  exchanges : List Exchange := []

namespace Recorder

/-- The exchanges in the order they took place. -/
def history {δ : Type} (r : Recorder δ) : List Exchange := r.exchanges.reverse

instance {δ : Type} [Device δ] : Device (Recorder δ) where
  submit r s :=
    let (device, answer) := Device.submit r.device s
    ({ device, exchanges := .submitted s answer :: r.exchanges }, answer)
  wait r limit :=
    let (device, answer) := Device.wait r.device limit
    ({ device, exchanges := .waited limit answer :: r.exchanges }, answer)
  stop r :=
    let (device, notices) := Device.stop r.device
    ({ device, exchanges := .stopped :: r.exchanges }, notices)

end Recorder

end EmulatorOutput.Sound
