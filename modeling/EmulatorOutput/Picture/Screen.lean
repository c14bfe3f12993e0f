import EmulatorOutput.Picture.Pipeline

/-!
# Screens

All that is chosen about showing pictures: the frame buffer, and how the source is drawn into it.
-/

namespace EmulatorOutput.Picture

/-- A frame buffer's geometry and format, and how pictures are drawn. -/
structure Screen where
  width : Nat := sourceWidth
  height : Nat := sourceHeight
  /-- The pixels of a row in memory. -/
  stride : Nat := sourceWidth
  format : PixelFormat := .rgb565
  mode : ScaleMode := .positioned 1
  clear : ClearPolicy := .whenNarrower
  deriving DecidableEq, Repr

namespace Screen

/-- Where a picture of the emulated screen goes. -/
def plan (s : Screen) : Except Failure Placement :=
  s.mode.plan sourceWidth sourceHeight s.stride s.height

def compositor (s : Screen) : Compositor := { mode := s.mode, clear := s.clear }

/-- The bytes of one of the two buffers of a frame, where that is a word. -/
def bufferBytes? (s : Screen) : Option Nat := FrameBuffer.byteSize? s.stride s.height s.format

/-- A fresh frame buffer with a compositor bound to it, for pictures of the given size. -/
def start (s : Screen) (sourceSize : Nat × Nat) : Logged Stop (Pipeline FrameBuffer) := do
  let target ← FrameBuffer.create s.width s.height s.stride s.format
  Pipeline.start s.compositor target sourceSize

end Screen

end EmulatorOutput.Picture
