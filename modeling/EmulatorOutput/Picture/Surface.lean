import EmulatorOutput.Memory
import EmulatorOutput.Picture.Pixel

/-!
# Surfaces

The bytes a frame is drawn into, in rows of equal length. A write to a row stays inside that
row; a write that would leave it breaks off.
-/

namespace EmulatorOutput.Picture

/-- The bytes of a frame with their geometry. Row lengths and widths count pixels. -/
structure Surface where
  pixels : Memory
  stride : Nat
  width : Nat
  height : Nat
  format : PixelFormat

namespace Surface

def pitch (s : Surface) : Nat := Word.saturatingMul s.stride s.format.bytesPerPixel

/-- The position of the first byte of a row that lies in the buffer as a whole. -/
def rowStart (s : Surface) (y : Nat) : Except Fault Nat := do
  let start ← Word.mul y s.pitch
  let next ← Word.add y 1
  let stop ← Word.mul next s.pitch
  if start ≤ stop ∧ stop ≤ s.pixels.size then return start else throw .outOfRange

def row (s : Surface) (y : Nat) : Except Fault (Array UInt8) := do
  let start ← s.rowStart y
  return s.pixels.extract start (start + s.pitch)

/-- Overwrites bytes of a row, from position `column` of the row on. -/
def writeRow (s : Surface) (y column : Nat) (bytes : List UInt8) : Except Fault Surface := do
  let start ← s.rowStart y
  if column + bytes.length ≤ s.pitch then
    return { s with pixels := s.pixels.write (start + column) bytes }
  else throw .outOfRange

/-- The number of bytes from `start` up to `stop` of a row, which must be there in this order. -/
def room (s : Surface) (y start stop : Nat) : Except Fault Nat := do
  let _ ← s.rowStart y
  if start ≤ stop ∧ stop ≤ s.pitch then return stop - start else throw .outOfRange

/-- Sets every byte, those behind the last row included. -/
def fill (s : Surface) (b : UInt8) : Surface :=
  { s with pixels := Memory.filled s.pixels.size b }

def clear (s : Surface) : Except Fault Surface := do
  let size ← Word.mul s.pitch s.height
  if size ≤ s.pixels.size then
    return { s with pixels := s.pixels.erase size }
  else throw .outOfRange

end Surface

end EmulatorOutput.Picture
