import EmulatorOutput.Picture.Placement

/-!
# Scale modes

How a source picture becomes the written region: each pixel repeated in a square block, or the
whole resampled to a given size. The plan for a source fixes the region before anything is
drawn.
-/

namespace EmulatorOutput.Picture

/-- How the source is mapped onto the target. -/
inductive ScaleMode where
  /-- Each pixel becomes a block of `factor` by `factor` pixels. -/
  | positioned (factor : Nat)
  /-- A weighted mean of four neighbours. -/
  | bilinear (width height : Nat)
  | nearest (width height : Nat)
  deriving DecidableEq, Repr

/-- When the target is blanked before a frame is written. -/
inductive ClearPolicy where
  /-- If the written width is less than the row length. -/
  | whenNarrower
  | always
  | never
  deriving DecidableEq, Repr

/-- Whether a frame of the given width blanks the target first. -/
def ClearPolicy.applies : ClearPolicy → (width stride : Nat) → Bool
  | .always, _, _ => true
  | .whenNarrower, width, stride => width < stride
  | .never, _, _ => false

namespace ScaleMode

def describe : ScaleMode → String
  | .positioned factor => s!"positioned x{factor}"
  | .bilinear width height => s!"bilinear {width}x{height}"
  | .nearest width height => s!"nearest {width}x{height}"

/-- The side of the block a pixel is repeated in. -/
def blockSide (factor : Nat) : Nat := max factor 1

/-- The size of the written region, if it is a size at all. -/
def outputSize? (mode : ScaleMode) (width height : Nat) : Option (Nat × Nat) :=
  match mode with
  | .positioned factor => do
    let w ← Word.mul? width (blockSide factor)
    let h ← Word.mul? height (blockSide factor)
    return (w, h)
  | .bilinear w h | .nearest w h => some (w, h)

/-- The region that a source of the given size is written to. -/
def plan (mode : ScaleMode) (width height stride targetHeight : Nat) :
    Except Failure Placement :=
  match mode.outputSize? width height with
  | none =>
    .error (.invalidConfig
      s!"{mode.describe} of a {width}x{height} source overflows the frame size")
  | some (w, h) => Placement.centered w h stride targetHeight

end ScaleMode

end EmulatorOutput.Picture
