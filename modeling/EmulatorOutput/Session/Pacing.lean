import EmulatorOutput.Notice

/-!
# Pacing

Counting frames by the second, and holding them to a rate. Times are nanoseconds after an
arbitrary origin; a clock that goes backwards counts as standing still.
-/

namespace EmulatorOutput.Session

/-- Counts frames and publishes their rate when a second has passed. -/
structure FrameCounter where
  windowStart : Nat
  /-- The frames since the window began. -/
  frames : Nat := 0
  /-- The rate published last. -/
  lastRate : Option Nat := none
  total : Nat := 0
  deriving DecidableEq, Repr

namespace FrameCounter

def window : Nat := 1000000000

def startingAt (now : Nat) : FrameCounter := { windowStart := now }

/-- Counts one frame, and publishes the rate if the window has closed. -/
def tickAt (c : FrameCounter) (now : Nat) : FrameCounter × Option Nat :=
  let frames := c.frames + 1
  let total := c.total + 1
  if now - c.windowStart < window then ({ c with frames, total }, none)
  else ({ windowStart := now, frames := 0, lastRate := some frames, total }, some frames)

def rateNotice (rate : Nat) : Notice := ⟨.info, s!"FPS: {rate}"⟩

def restartAt (c : FrameCounter) (now : Nat) : FrameCounter :=
  { c with windowStart := now, frames := 0 }

end FrameCounter

/-- Holds frames to a rate. -/
structure FrameLimiter where
  /-- The nanoseconds from one frame to the next. -/
  frameTime : Nat
  /-- When the next frame is due. -/
  due : Option Nat := none
  deriving DecidableEq, Repr

namespace FrameLimiter

/-- A limiter for a rate other than zero. -/
def ofRate (rate : Nat) : Option FrameLimiter :=
  if rate = 0 then none else some { frameTime := 1000000000 / rate }

/-- How long to wait before the next frame. A frame that comes more than one frame time late
starts the count anew, so that lateness is not made up by a burst. -/
def delayAt (l : FrameLimiter) (now : Nat) : FrameLimiter × Nat :=
  let target := l.due.getD now
  if now < target then ({ l with due := some (target + l.frameTime) }, target - now)
  else
    let base := if l.frameTime < now - target then now else target
    ({ l with due := some (base + l.frameTime) }, 0)

/-- Forgets when the next frame is due. -/
def reset (l : FrameLimiter) : FrameLimiter := { l with due := none }

end FrameLimiter

end EmulatorOutput.Session
