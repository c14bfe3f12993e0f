import EmulatorOutput.Fault

/-!
# Sample formats

The shape of a device's sample stream: its rate, its channels and the bytes of one sample.
A frame is one sample for each channel.
-/

namespace EmulatorOutput.Sound

/-- The rate of a device unless the settings say otherwise. -/
def deviceSampleRate : UInt32 := 48000

/-- The channels of a device unless the settings say otherwise. -/
def deviceChannels : UInt16 := 2

/-- The only supported sample size: signed 16-bit samples. -/
def sampleBytes : UInt16 := 2

/-- The shape of a device's sample stream. -/
structure Format where
  sampleRate : UInt32 := deviceSampleRate
  channels : UInt16 := deviceChannels
  bytesPerSample : UInt16 := sampleBytes
  deriving DecidableEq, Repr

namespace Format

def frameBytes (f : Format) : Nat := f.channels.toNat * f.bytesPerSample.toNat

def bytesPerSecond (f : Format) : Nat := f.sampleRate.toNat * f.frameBytes

/-- The whole frames in so many bytes. -/
def framesIn (f : Format) (bytes : Nat) : Except Fault Nat := Word.div bytes f.frameBytes

/-- The nanoseconds that so many bytes play for. -/
def nanosOf (f : Format) (bytes : Nat) : Except Fault Nat := do
  let frames ← f.framesIn bytes
  let scaled ← Word.mul frames 1000000000
  return scaled / max f.sampleRate.toNat 1

/-- A format as text. The bits of a sample have to be a 16-bit word. -/
def describe (f : Format) : Except Fault String := do
  let bits ← Word.mulBelow UInt16.size f.bytesPerSample.toNat 8
  return s!"{f.sampleRate.toNat}Hz {f.channels.toNat}ch {bits}bit"

end Format

end EmulatorOutput.Sound
