import EmulatorOutput.Picture.Screen
import EmulatorOutput.Session.Loop
import EmulatorOutput.Session.Pacing
import EmulatorOutput.Session.TestPattern
import EmulatorOutput.Sound.PlaybackDevice

/-!
# Players

A session of the test pattern over a playback line, with a clock. Before each pass the line is
brought to the present; a pass takes as long as the session waits for the line in it, and after
it a limiter may hold the next one back. Nobody sends the session commands.
-/

namespace EmulatorOutput.Session

open Picture (FrameBuffer Pipeline)
open Sound (Line Sink Stream)

/-- A session with a clock. -/
structure Player where
  loop : Loop TestPattern (Stream Line) (Pipeline FrameBuffer)
  limiter : Option FrameLimiter := none
  /-- When the next pass is due. -/
  clock : Nat := 0

namespace Player

/-- Whether the session has come to its end. -/
def isOver (p : Player) : Bool := p.loop.phase = .shuttingDown

def line? (p : Player) : Option Line := p.loop.sound.sink?.map Stream.device

/-- Brings the line to the given time. -/
def sleepUntil (p : Player) (time : Nat) : Player :=
  match p.loop.sound with
  | .attached s =>
    { p with loop.sound := .attached { s with device := s.device.sleepUntil time } }
  | _ => p

def pass (p : Player) (now : Nat) : Logged Fault Player := do
  let loop ← (p.sleepUntil now).loop.pass
  let p := { p with loop }
  let finished := max now ((p.line?.map Line.now).getD now)
  match p.limiter with
  | none => return { p with clock := finished }
  | some limiter =>
    let (limiter, delay) := limiter.delayAt finished
    return { p with limiter := some limiter, clock := finished + delay }

/-- Ends the session at the given time. -/
def finish (p : Player) (now : Nat) : Player × List Notice :=
  let p := p.sleepUntil now
  let (loop, notices) := p.loop.teardown
  ({ p with loop }, notices)

/-- The bytes that the line has played into its sink. -/
def played (p : Player) : Array UInt8 := ((p.line?.bind Line.sink).map Sink.written).getD #[]

end Player

end EmulatorOutput.Session
