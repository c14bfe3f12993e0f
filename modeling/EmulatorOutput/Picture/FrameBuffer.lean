import EmulatorOutput.Notice
import EmulatorOutput.Picture.Surface

/-!
# Frame buffers

Where frames go. A target is acquired, drawn into and released; each release hands the frame
over. `FrameBuffer` keeps two buffers: one is shown while the other is drawn into, and they
change places on every release. `HostBuffer` is a single buffer with whatever geometry its owner
reports.
-/

namespace EmulatorOutput.Picture

/-- A target that frames are drawn into. -/
class FrameTarget (φ : Type) where
  acquire : φ → φ × Except Failure Unit × List Notice
  surface : φ → Surface
  putPixels : φ → Memory → φ
  release : φ → φ
  /-- The pixels of a row. -/
  stride : φ → Nat
  height : φ → Nat
  /-- To write back what is there changes nothing. -/
  putPixels_surface : ∀ target, putPixels target (surface target).pixels = target

/-- Two buffers that change places. -/
structure FrameBuffer where
  width : Nat
  height : Nat
  stride : Nat
  format : PixelFormat
  /-- The buffer being drawn into. -/
  back : Memory
  /-- The buffer being shown. -/
  front : Memory
  inFrame : Bool := false
  presented : Nat := 0

namespace FrameBuffer

/-- The bytes of one buffer, if that is a word. -/
def byteSize? (stride height : Nat) (format : PixelFormat) : Option Nat := do
  let pixels ← Word.mul? stride height
  Word.mul? pixels format.bytesPerPixel

/-- Two blank buffers, unless the geometry is empty, a row is longer than its buffer, or the
size is no word. -/
def create (width height stride : Nat) (format : PixelFormat) : Logged Stop FrameBuffer :=
  let invalid (reason : String) := Logged.stop (.failure (.invalidConfig reason))
  if width = 0 ∨ height = 0 ∨ stride < width then
    invalid s!"framebuffer {width}x{height} with stride {stride} is not valid"
  else
    match byteSize? stride height format with
    | none => invalid s!"framebuffer stride {stride} by {height} rows overflows the buffer size"
    | some size => do
      Logged.note .debug
        (s!"Framebuffer {width}x{height} stride {stride} ({format.label}), "
          ++ s!"{size} bytes per buffer")
      if Word.maxBytes < size then
        Logged.stop (.fault .capacity)
      else
        let blank := Memory.blank size
        return { width, height, stride, format, back := blank, front := blank }

/-- Opens a frame. A frame already open is reported and stays open. -/
def acquire (b : FrameBuffer) : FrameBuffer × List Notice :=
  ({ b with inFrame := true },
    if b.inFrame then [⟨.warn, "Framebuffer begin without matching end"⟩] else [])

/-- Ends the open frame, if there is one, and shows it. -/
def release (b : FrameBuffer) : FrameBuffer :=
  if b.inFrame then
    { b with
      inFrame := false
      back := b.front
      front := b.back
      presented := b.presented + 1 }
  else b

def surface (b : FrameBuffer) : Surface :=
  { pixels := b.back, stride := b.stride, width := b.width, height := b.height,
    format := b.format }

/-- The word of a shown pixel. Columns go up to the row length. -/
def frontPixel? (b : FrameBuffer) (x y : Nat) : Option Nat :=
  if x < b.stride ∧ y < b.height then
    let n := b.format.bytesPerPixel
    let start := (y * b.stride + x) * n
    some (b.format.decode (b.front.extract start (start + n)).toList)
  else none

instance : FrameTarget FrameBuffer where
  acquire b := let (b, notices) := b.acquire; (b, .ok (), notices)
  surface := surface
  putPixels b pixels := { b with back := pixels }
  release := release
  stride := FrameBuffer.stride
  height := FrameBuffer.height
  putPixels_surface _ := rfl

end FrameBuffer

/-- A single buffer of any size with the geometry its owner reports. -/
structure HostBuffer where
  target : Surface
  /-- The refusal of every attempt to open a frame. -/
  refusal : Option Failure := none
  acquired : Nat := 0
  released : Nat := 0

instance : FrameTarget HostBuffer where
  acquire b :=
    ({ b with acquired := b.acquired + 1 },
      (match b.refusal with | some e => .error e | none => .ok ()), [])
  surface := HostBuffer.target
  putPixels b pixels := { b with target.pixels := pixels }
  release b := { b with released := b.released + 1 }
  stride b := b.target.stride
  height b := b.target.height
  putPixels_surface _ := rfl

end EmulatorOutput.Picture
