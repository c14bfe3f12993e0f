import EmulatorOutput.Picture.Pipeline
import EmulatorOutput.Session.Core
import EmulatorOutput.Sound.Stream

/-!
# Turns

What happens to the actions of one cycle: samples go to the sound sink and pictures to the
picture sink, where there is one. A picture that is refused is counted and dropped; its cause is
reported unless one of the same kind was reported before in the session.
-/

namespace EmulatorOutput.Session

open Picture (Image)
open Sound (Tally)

/-- Where samples go. -/
class SoundSink (α : Type) where
  /-- Takes a burst of samples, and gives the number of periods handed on. -/
  push : α → List Int16 → Logged Fault (α × Nat)
  tally : α → Tally
  close : α → α × List Notice

instance {δ : Type} [Sound.Device δ] : SoundSink (Sound.Stream δ) where
  push := Sound.Stream.push
  tally := Sound.Stream.tally
  close := Sound.Stream.close

/-- Where pictures go. -/
class PictureSink (ν : Type) where
  present : ν → Image → Logged Fault (ν × Except Failure Unit)

instance {φ : Type} [Picture.FrameTarget φ] : PictureSink (Picture.Pipeline φ) where
  present := Picture.Pipeline.present

/-- The state of one cycle's routing, with its counts. -/
structure Turn (α ν : Type) where
  sound : Option α
  picture : Option ν
  /-- The kinds of failure reported in the session, without repetition. -/
  reported : List Failure.Kind
  presented : Nat := 0
  dropped : Nat := 0
  samples : Nat := 0
  /-- The commands that the core has sent, the latest first. -/
  sent : List Command := []

namespace Turn

variable {α ν : Type} [SoundSink α] [PictureSink ν]

def soundWanted (t : Turn α ν) : Bool := t.sound.isSome

def pushAudio (t : Turn α ν) (samples : List Int16) : Logged Fault (Turn α ν) :=
  match t.sound with
  | none => pure t
  | some sink => do
    let (sink, _) ← SoundSink.push sink samples
    return { t with sound := some sink, samples := t.samples + samples.length }

/-- Counts a picture that was refused, and reports the first of its kind. -/
def refuse (t : Turn α ν) (e : Failure) : Logged Fault (Turn α ν) :=
  let t := { t with dropped := t.dropped + 1 }
  if e.kind ∈ t.reported then pure t
  else do
    Logged.note .warn s!"Dropping video frame: {e.message}"
    return { t with reported := t.reported ++ [e.kind] }

def presentVideo (t : Turn α ν) (i : Image) : Logged Fault (Turn α ν) :=
  match t.picture with
  | none => pure t
  | some sink => do
    let (sink, answer) ← PictureSink.present sink i
    let t := { t with picture := some sink }
    match answer with
    | .ok () => return { t with presented := t.presented + 1 }
    | .error e => t.refuse e

def perform (t : Turn α ν) : Action → Logged Fault (Turn α ν)
  | .audio samples => t.pushAudio samples
  | .video image => t.presentVideo image
  | .send c => pure { t with sent := c :: t.sent }

/-- Routes all actions of a cycle in their order. -/
def performAll : List Action → Turn α ν → Logged Fault (Turn α ν)
  | [], t => pure t
  | a :: rest, t => do
    let t ← t.perform a
    performAll rest t

/-- Cycles a core so many times in one turn. -/
def cycles {κ : Type} [Core κ] : Nat → κ → Turn α ν → Logged Fault (κ × Turn α ν)
  | 0, core, t => pure (core, t)
  | n + 1, core, t => do
    let (core, actions) ← Core.cycle core t.soundWanted
    let t ← t.performAll actions
    cycles n core t

end Turn

end EmulatorOutput.Session
