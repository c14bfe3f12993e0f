import EmulatorOutput.Picture.Screen
import EmulatorOutput.Settings.Types

/-!
# What follows from the settings

The set-up of a sound session and the screen that settings describe. No settings are refused
here: whether a session or a pipeline can be started from the result is checked there.
-/

namespace EmulatorOutput.Settings

open Picture (PixelFormat ScaleMode Screen fitWidth sourceHeight sourceWidth)
open Sound (Setup)

/-- A number that was given, or what stands in for zero. -/
def orElse (given : UInt64) (fallback : Nat) : Nat :=
  if given = 0 then fallback else given.toNat

namespace Audio

/-- The bound on a wait in nanoseconds. -/
def waitLimit (a : Audio) : Option Nat :=
  if a.waitMillis = 0 then none else some (1000000 * a.waitMillis.toNat)

def setup (a : Audio) : Setup where
  format := { sampleRate := a.sampleRate, channels := a.channels }
  periodsPerSecond := a.periodsPerSecond
  alignment := a.alignment
  queueDepth := a.queueDepth
  waitLimit := a.waitLimit
  source := a.sourceLayout

end Audio

namespace Video

/-- The width of the frame buffer: as given, else by the window, else that of the source. -/
def frameWidth (v : Video) : Nat :=
  orElse v.width <|
    if v.windowWidth = 0 ∨ v.windowHeight = 0 then sourceWidth
    else fitWidth v.windowWidth.toNat v.windowHeight.toNat sourceWidth sourceHeight

def frameHeight (v : Video) : Nat := orElse v.height sourceHeight

def mode (v : Video) : ScaleMode :=
  let width := orElse v.outputWidth v.frameWidth
  let height := orElse v.outputHeight v.frameHeight
  match v.scale with
  | .positioned => .positioned (max v.factor.toNat 1)
  | .bilinear => .bilinear width height
  | .nearest => .nearest width height

/-- The format used unless one is chosen. -/
def defaultFormat : Scaling → PixelFormat
  | .bilinear => .rgb565Be
  | .positioned | .nearest => .rgb565

/-- The screen. A row in memory is never shorter than the frame is wide. -/
def screen (v : Video) : Screen where
  width := v.frameWidth
  height := v.frameHeight
  stride := max v.stride.toNat v.frameWidth
  format := v.format.getD (defaultFormat v.scale)
  mode := v.mode
  clear := v.clear

end Video

end EmulatorOutput.Settings
