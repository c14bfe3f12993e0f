import EmulatorOutput.Failure
import EmulatorOutput.Sound.Alignment
import EmulatorOutput.Sound.Format

/-!
# The set-up of a sound session

What is fixed when a session starts, the sizes that follow from it, and the check that
decides whether a session may start. A session cuts its stream into periods, each a whole
number of frames, and hands each period over in a buffer of an aligned size.
-/

namespace EmulatorOutput.Sound

/-- Periods of a device in each second, so short that waiting for one loses no frame. -/
def periodsPerSecond : UInt32 := 40

/-- The boundary on which device buffers start and end. -/
def bufferAlignment : UInt64 := 4096

/-- The bound on waiting for the device, in nanoseconds. -/
def waitNanos : Nat := 250000000

/-- The channels in the samples that a core delivers. -/
inductive Layout where
  | mono
  | stereo
  deriving DecidableEq, Repr

namespace Layout

def channels : Layout → Nat
  | .mono => 1
  | .stereo => 2

def title : Layout → String
  | .mono => "Mono"
  | .stereo => "Stereo"

end Layout

/-- How source samples become device samples. -/
inductive Conversion where
  | direct
  /-- Each sample is written to both channels. -/
  | duplicateMono
  deriving DecidableEq, Repr

namespace Conversion

/-- The device samples made of one source sample. -/
def expand : Conversion → Int16 → List Int16
  | .direct, x => [x]
  | .duplicateMono, x => [x, x]

/-- The device samples made of source samples. -/
def apply (c : Conversion) (xs : List Int16) : List Int16 := xs.flatMap c.expand

/-- The number of device samples made of one source sample. -/
def factor : Conversion → Nat
  | .direct => 1
  | .duplicateMono => 2

@[simp] theorem apply_nil (c : Conversion) : c.apply [] = [] := rfl

@[simp] theorem apply_append (c : Conversion) (xs ys : List Int16) :
    c.apply (xs ++ ys) = c.apply xs ++ c.apply ys := by
  simp [apply]

@[simp] theorem length_apply (c : Conversion) (xs : List Int16) :
    (c.apply xs).length = c.factor * xs.length := by
  induction xs with
  | nil => simp [apply]
  | cons x xs ih =>
    have hx : (c.expand x).length = c.factor := by cases c <;> rfl
    rw [apply, List.flatMap_cons, List.length_append, hx, ← apply, ih, List.length_cons,
      Nat.mul_succ, Nat.add_comm]

end Conversion

/-- The set-up of a session. -/
structure Setup where
  format : Format := {}
  periodsPerSecond : UInt32 := Sound.periodsPerSecond
  alignment : UInt64 := bufferAlignment
  /-- The buffers the device may hold before the producer has to wait. -/
  queueDepth : UInt64 := 1
  /-- The bound on a wait in nanoseconds; without one a wait has no end. -/
  waitLimit : Option Nat := some waitNanos
  source : Layout := .stereo
  deriving DecidableEq, Repr

namespace Setup

/-- The bytes of one period. -/
def dataSize (s : Setup) : Nat := s.format.bytesPerSecond / max s.periodsPerSecond.toNat 1

/-- The bytes of the buffer that carries one period. -/
def bufferSize (s : Setup) : Except Fault Nat := alignUp s.dataSize s.alignment.toNat

/-- The samples, not frames, of one period. -/
def periodSamples (s : Setup) : Except Fault Nat :=
  Word.div s.dataSize s.format.bytesPerSample.toNat

def periodNanos (s : Setup) : Except Fault Nat := s.format.nanosOf s.dataSize

/-- How the source reaches the device, if it can. -/
def conversion (s : Setup) : Except Failure Conversion :=
  let source := s.source.channels
  let device := s.format.channels.toNat
  if source = device then .ok .direct
  else if source = 1 ∧ device = 2 then .ok .duplicateMono
  else .error (.unsupportedChannelConversion source device)

/-- Refuses every set-up without a period of whole frames, a usable alignment, a queue or a
conversion, and names the first thing amiss. -/
def check (s : Setup) : Except Stop Unit := do
  let invalid (reason : String) : Except Stop Unit := throw (.failure (.invalidConfig reason))
  let f := s.format
  if f.sampleRate = 0 then
    invalid "sample rate must be non-zero"
  if f.channels.toNat < 1 ∨ 2 < f.channels.toNat then
    invalid s!"unsupported device channel count {f.channels.toNat}"
  if f.bytesPerSample ≠ sampleBytes then
    invalid ("only signed 16-bit samples are supported, "
      ++ s!"got {f.bytesPerSample.toNat} bytes per sample")
  if s.periodsPerSecond = 0 then
    invalid "periods per second must be non-zero"
  if ¬ isPowerOfTwo s.alignment.toNat then
    invalid s!"buffer alignment {s.alignment.toNat} is not a power of two"
  let ragged ← if s.dataSize = 0 then pure 1 else Word.rem s.dataSize f.frameBytes
  if ragged ≠ 0 then
    invalid s!"period of {s.dataSize} bytes is not a whole number of {f.frameBytes}-byte frames"
  if s.queueDepth = 0 then
    invalid "queue depth must be at least 1"
  match s.conversion with
  | .ok _ => return ()
  | .error e => throw (.failure e)

end Setup

end EmulatorOutput.Sound
