import EmulatorOutput.Session.Core
import EmulatorOutput.Sound.Setup

/-!
# The test pattern

A core that needs no program: a square wave in bursts of pseudo-random length, and a
checkerboard that scrolls by one pixel in each frame. The samples of a second are spread over
its frames without drift, by carrying the remainder of the division. Burst and picture are made in
place of the ones before, and a reset leaves them as they are.
-/

namespace EmulatorOutput.Session

open Picture (Channels Image sourceHeight sourceWidth)
open Sound (Layout)

/-- What the lengths of the bursts are drawn from after a reset. -/
def TestPattern.firstRandom : UInt32 := 0x12345678

/-- The test pattern. -/
structure TestPattern where
  sampleRate : UInt32
  layout : Layout
  tone : UInt32
  /-- The frames since the last reset. -/
  frame : Nat := 0
  /-- The audio frames since the last reset. -/
  position : Nat := 0
  /-- What is left of the division of the rate, in parts of an audio frame. -/
  carry : Nat := 0
  random : UInt32 := TestPattern.firstRandom
  /-- The picture shown last, in which the next one is drawn. -/
  pixels : Array UInt16 := Array.replicate (sourceWidth * sourceHeight) 0
  /-- The samples of the last burst. -/
  samples : List Int16 := []

namespace TestPattern

def framesPerSecond : Nat := 60

/-- The side of a square of the checkerboard. -/
def tile : Nat := 8

/-- The height of the wave. -/
def amplitude : Int16 := 4000

/-- The longest burst, in audio frames. -/
def longestBurst : Nat := 1024

/-- A pattern at its start. A tone of no frequency counts as one of 1 Hz. -/
def create (sampleRate : UInt32) (layout : Layout) (tone : UInt32) : TestPattern :=
  { sampleRate, layout, tone := max tone 1 }

def nextRandom (r : UInt32) : UInt32 := UInt32.ofNat (12345 + 1103515245 * r.toNat)

/-- The audio frames due in this frame, and the remainder to carry over. -/
def framesDue (p : TestPattern) : Except Fault (Nat × Nat) := do
  let total ← Word.addBelow UInt32.size p.sampleRate.toNat p.carry
  return (total / framesPerSecond, total % framesPerSecond)

/-- The audio frames between two changes of the wave. -/
def halfPeriod (p : TestPattern) : Except Fault Nat := do
  let period ← Word.mulBelow UInt32.size 2 p.tone.toNat
  let half ← Word.div p.sampleRate.toNat period
  return max half 1

/-- A wave of the given half period at a position. -/
def waveAt (halfPeriod position : Nat) : Int16 :=
  if position / halfPeriod % 2 = 0 then amplitude else -amplitude

/-- The length of the next burst when so many audio frames are left. -/
def burstLength (random : UInt32) (left : Nat) : Nat :=
  min (1 + (random >>> 16).toNat % longestBurst) left

theorem sub_burstLength_lt (random : UInt32) {left : Nat} (h : left ≠ 0) :
    left - burstLength random left < left := by
  unfold burstLength
  omega

/-- Cuts audio frames into the lengths of bursts, and gives the generator after them. -/
def burstLengths (random : UInt32) (left : Nat) : UInt32 × List Nat :=
  if _ : left = 0 then (random, [])
  else
    let next := nextRandom random
    let length := burstLength next left
    let (last, lengths) := burstLengths next (left - length)
    (last, length :: lengths)
termination_by left
decreasing_by exact sub_burstLength_lt (nextRandom random) ‹_›

/-- The sample of the wave at a position. -/
def toneAt (p : TestPattern) (position : Nat) : Except Fault Int16 := do
  let half ← p.halfPeriod
  return waveAt half position

/-- Makes a burst in place of the last one, each of its samples repeated for every channel. -/
def burst (p : TestPattern) (length : Nat) : Except Fault TestPattern := do
  let values ← (List.range length).mapM fun i => do
    let position ← Word.add p.position i
    p.toneAt position
  let position ← Word.add p.position length
  return { p with
    position
    samples := values.flatMap (List.replicate p.layout.channels) }

/-- Makes bursts of the given lengths, one after the other. -/
def bursts (p : TestPattern) : List Nat → Except Fault (TestPattern × List (List Int16))
  | [] => .ok (p, [])
  | length :: rest => do
    let p ← p.burst length
    let (last, later) ← p.bursts rest
    return (last, p.samples :: later)

def light : UInt16 := Channels.pack { r := 28, g := 56, b := 20 }

def dark : UInt16 := Channels.pack { r := 4, g := 12, b := 10 }

/-- The pixel of the checkerboard in a frame. -/
def pixelAt (frame x y : Nat) : UInt16 :=
  if ((x + frame) / tile + y / tile) % 2 = 0 then light else dark

/-- Draws the checkerboard over the rows of the last picture, as far as these are whole. -/
def render (p : TestPattern) : Except Fault TestPattern := do
  -- No column is further to the right than the last one.
  let _ ← Word.add (sourceWidth - 1) p.frame
  let whole := p.pixels.size / sourceWidth * sourceWidth
  return { p with pixels := p.pixels.mapIdx fun i q =>
    if i < whole then pixelAt p.frame (i % sourceWidth) (i / sourceWidth) else q }

def image (p : TestPattern) : Image :=
  { pixels := p.pixels, width := sourceWidth, height := sourceHeight }

/-- One cycle: the bursts that are due, then one picture. -/
def cycle (p : TestPattern) : Except Fault (TestPattern × List Action) := do
  let (due, carry) ← p.framesDue
  let (random, lengths) := burstLengths p.random due
  let (p, bursts) ← { p with carry, random }.bursts lengths
  let p ← p.render
  let frame ← Word.add p.frame 1
  return ({ p with frame }, bursts.map Action.audio ++ [.video p.image])

/-- Back to the start of the pattern. The last picture and the last burst stay. -/
def reset (p : TestPattern) : TestPattern :=
  { p with frame := 0, position := 0, carry := 0, random := firstRandom }

instance : Core TestPattern where
  cycle p _ := p.cycle
  reset := reset
  frameSize _ := (sourceWidth, sourceHeight)
  name _ := "pattern"

end TestPattern

end EmulatorOutput.Session
