import EmulatorOutput.Picture.FrameBuffer
import EmulatorOutput.Picture.Resample
import EmulatorOutput.Picture.ScaleMode

/-!
# The compositor

Draws one source picture into a target. A picture is refused before anything is written if its
size is not that of its pixels, or if the region it asks for does not fit the target. The
target is released whatever the answer is, unless it refused to be acquired.
-/

namespace EmulatorOutput.Picture

/-- A source picture of packed pixels, row by row. -/
structure Image where
  pixels : Array UInt16
  width : Nat
  height : Nat

namespace Image

/-- A picture is sound if it is not empty and holds one pixel for each place. -/
def check (i : Image) : Except Failure Unit :=
  if i.width ≠ 0 ∧ i.height ≠ 0 ∧ Word.mul? i.width i.height = some i.pixels.size then .ok ()
  else .error (.sourceSizeMismatch i.width i.height i.pixels.size)

/-- The pixels of a row. -/
def row (i : Image) (y : Nat) : Except Fault (Array UInt16) := do
  let start ← Word.mul y i.width
  let next ← Word.add y 1
  let stop ← Word.mul next i.width
  if start ≤ stop ∧ stop ≤ i.pixels.size then return i.pixels.extract start stop
  else throw .outOfRange

end Image

def pixelAt (row : Array UInt16) (x : Nat) : Except Fault UInt16 :=
  match row[x]? with
  | some p => .ok p
  | none => .error .outOfRange

/-- Copies a row as it is in memory, low bytes first. It has to take exactly `room` bytes. -/
def copyVerbatim (s : Surface) (y start room : Nat) (row : List UInt16) : Except Fault Surface :=
  let bytes := row.flatMap Bytes.little16
  if bytes.length = room then s.writeRow y start bytes else .error .outOfRange

/-- Divides the `room` bytes at `start` into pieces of one size and writes a value to each, from
the first on. Values and pieces in excess are left out. -/
def writePieces {α : Type} (write : Surface → Nat → α → Except Fault Surface) (s : Surface)
    (start room size : Nat) (values : List α) : Except Fault Surface :=
  (values.take (room / size)).zipIdx.foldlM (fun s (v, n) => write s (start + n * size) v) s

/-- Writes one pixel to all the places of a block. -/
def writeBlock (y size : Nat) (s : Surface) (start : Nat) (q : UInt16) : Except Fault Surface :=
  let count := size / s.format.bytesPerPixel
  writePieces (fun s start q => s.writeRow y start (s.format.encode q)) s start size
    s.format.bytesPerPixel (List.replicate count q)

/-- Repeats each pixel of a row `factor` times. -/
def copyBlocks (s : Surface) (y start room factor : Nat) (row : List UInt16) :
    Except Fault Surface := do
  let size ← Word.mul s.format.bytesPerPixel factor
  writePieces (writeBlock y size) s start room size row

/-- Copies each pixel into a block of `factor` by `factor` pixels. -/
def copyPositioned (i : Image) (s : Surface) (p : Placement) (factor : Nat) :
    Except Fault Surface := do
  let start ← Word.mul p.x s.format.bytesPerPixel
  let length ← Word.mul p.width s.format.bytesPerPixel
  let stop ← Word.add start length
  (List.range i.height).foldlM (fun s y => do
    let row ← i.row y
    (List.range factor).foldlM (fun s rep => do
      let above ← Word.mul y factor
      let target ← Word.add above rep
      let room ← s.room target start stop
      if factor = 1 ∧ s.format = .rgb565 then copyVerbatim s target start room row.toList
      else copyBlocks s target start room factor row.toList) s) s

/-- Writes a pixel to column `x` of a placement. -/
def writePixel (s : Surface) (p : Placement) (x y : Nat) (q : UInt16) : Except Fault Surface := do
  let column ← Word.add p.x x
  let start ← Word.mul column s.format.bytesPerPixel
  s.writeRow y start (s.format.encode q)

/-- Writes a pixel for each column of a placement, from the left to the right. -/
def writeColumns {α : Type} (s : Surface) (p : Placement) (y : Nat)
    (pixel : α → Except Fault UInt16) (columns : List α) : Except Fault Surface :=
  columns.zipIdx.foldlM (fun s (c, x) => do
    let q ← pixel c
    writePixel s p x y q) s

/-- Draws the mean of the four pixels around each position. The table of the columns takes 24
bytes for each of them, and is not bounded here by `Word.maxBytes`: a row of so many pixels takes
more than 2^59 bytes itself, and no address space holds one. -/
def resampleBilinear (i : Image) (s : Surface) (p : Placement) : Except Fault Surface := do
  let columns ← (List.range p.width).mapM fun x => bilinearSample x i.width p.width
  (List.range p.height).foldlM (fun s y => do
    let line ← bilinearSample y i.height p.height
    let top ← i.row line.index
    let bottom ← i.row line.next
    let pixel (c : Sample) : Except Fault UInt16 := do
      let a ← pixelAt top c.index
      let b ← pixelAt top c.next
      let e ← pixelAt bottom c.index
      let d ← pixelAt bottom c.next
      return blend a b e d c.weight line.weight
    writeColumns s p y pixel columns) s

/-- Draws the nearest pixel at each position. The table of the columns takes 8 bytes for each of
them, and is not bounded either: a row of more pixels than it may name takes 2^61 bytes. -/
def resampleNearest (i : Image) (s : Surface) (p : Placement) : Except Fault Surface := do
  let columns ← (List.range p.width).mapM fun x => nearestIndex x i.width p.width
  (List.range p.height).foldlM (fun s y => do
    let line ← nearestIndex y i.height p.height
    let row ← i.row line
    writeColumns s p y (pixelAt row) columns) s

/-- Draws pictures in one mode, and counts them. -/
structure Compositor where
  mode : ScaleMode := .positioned 1
  clear : ClearPolicy := .whenNarrower
  frames : Nat := 0
  deriving DecidableEq, Repr

namespace Compositor

/-- A surface holds every row it claims to have. -/
def holdsRows (s : Surface) : Bool :=
  match Word.mul? s.pitch s.height with
  | some size => size ≤ s.pixels.size
  | none => false

/-- The surface as it is before the picture is written. -/
def prepare (c : Compositor) (s : Surface) (p : Placement) : Except Fault Surface :=
  if c.clear.applies p.width s.stride then s.clear else .ok s

def write (c : Compositor) (s : Surface) (i : Image) (p : Placement) : Except Fault Surface :=
  match c.mode with
  | .positioned factor => copyPositioned i s p (ScaleMode.blockSide factor)
  | .bilinear _ _ => resampleBilinear i s p
  | .nearest _ _ => resampleNearest i s p

/-- Checks the picture and draws it. The answer tells where it went, or why it was rejected, and
comes with the surface as it is then. -/
def draw (c : Compositor) (s : Surface) (i : Image) :
    Except Fault (Surface × Except Failure Placement) :=
  match i.check with
  | .error e => .ok (s, .error e)
  | .ok () =>
    match c.mode.plan i.width i.height s.stride s.height with
    | .error e => .ok (s, .error e)
    | .ok p =>
      if holdsRows s then do
        let blank ← c.prepare s p
        let drawn ← c.write blank i p
        return (drawn, .ok p)
      else
        let rows := s.pixels.size / max s.pitch 1
        .ok (s, .error (.geometryTooSmall p.width s.height s.stride rows))

def composite {φ : Type} [FrameTarget φ] (c : Compositor) (target : φ) (i : Image) :
    Logged Fault (Compositor × φ × Except Failure Unit) :=
  let (target, opened, notices) := FrameTarget.acquire target
  match opened with
  | .error e => ⟨.ok (c, target, .error e), notices⟩
  | .ok () =>
    match c.draw (FrameTarget.surface target) i with
    | .error f => ⟨.error f, notices⟩
    | .ok (s, answer) =>
      let target := FrameTarget.release (FrameTarget.putPixels target s.pixels)
      match answer with
      | .error e => ⟨.ok (c, target, .error e), notices⟩
      | .ok p =>
        let c := { c with frames := c.frames + 1 }
        ⟨.ok (c, target, .ok ()),
          notices ++ [⟨.trace, s!"Composited frame {c.frames} at x={p.x}"⟩]⟩

end Compositor

end EmulatorOutput.Picture
