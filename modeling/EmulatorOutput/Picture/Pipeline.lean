import EmulatorOutput.Picture.Compositor

/-!
# Picture pipelines

A compositor bound to the target it draws into. The size of the source is checked once, when
the pipeline starts.
-/

namespace EmulatorOutput.Picture

/-- A compositor and its target. -/
structure Pipeline (φ : Type) where
  compositor : Compositor
  target : φ

namespace Pipeline

variable {φ : Type} [FrameTarget φ]

/-- Binds a compositor to a target if frames of the given size fit it. -/
def start (compositor : Compositor) (target : φ) (sourceSize : Nat × Nat) :
    Logged Stop (Pipeline φ) := do
  let (width, height) := sourceSize
  match compositor.mode.plan width height (FrameTarget.stride target)
      (FrameTarget.height target) with
  | .error e => Logged.stop (.failure e)
  | .ok p =>
    Logged.note .info
      (s!"Video pipeline: {width}x{height} source, {compositor.mode.describe} "
        ++ s!"into {p.width}x{p.height} at x={p.x}")
    return { compositor, target }

def present (p : Pipeline φ) (i : Image) : Logged Fault (Pipeline φ × Except Failure Unit) := do
  let (compositor, target, answer) ← p.compositor.composite p.target i
  return ({ compositor, target }, answer)

end Pipeline

end EmulatorOutput.Picture
