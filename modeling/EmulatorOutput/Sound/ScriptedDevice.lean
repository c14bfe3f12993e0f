import EmulatorOutput.Sound.Device

/-!
# A scripted device

A device that answers as it is told: each wait and each submission takes the next answer of
its script. Past the end of a script it behaves: it accepts every period, and a wait releases
the oldest one it holds.
-/

namespace EmulatorOutput.Sound

/-- The next answer to a wait. -/
inductive WaitCue where
  /-- Release the oldest buffer held, or report that none is. -/
  | auto
  /-- Forget all buffers and report that none is held. -/
  | idle
  | timeout
  | fail (cause : Failure)
  deriving DecidableEq, Repr

/-- The next answer to a submission: accepted, or refused for a cause. -/
abbrev SubmitCue := Option Failure

/-- A device that follows a script. -/
structure ScriptedDevice where
  waits : List WaitCue := []
  submits : List SubmitCue := []
  /-- The buffers held, oldest first. -/
  held : List Nat := []

namespace ScriptedDevice

/-- Takes a period unless the script refuses it. -/
def submit (d : ScriptedDevice) (s : Submission) : ScriptedDevice × Except Failure Unit :=
  match d.submits with
  | some e :: cues => ({ d with submits := cues }, .error e)
  | cues => ({ d with submits := cues.tail, held := d.held ++ [s.id] }, .ok ())

/-- Releases the oldest buffer, if there is one. -/
def releaseOldest (d : ScriptedDevice) : ScriptedDevice × Except Failure WaitOutcome :=
  match d.held with
  | [] => (d, .ok .idle)
  | id :: held => ({ d with held }, .ok (.released id))

/-- Ends a wait as the script says. -/
def wait (d : ScriptedDevice) : ScriptedDevice × Except Failure WaitOutcome :=
  match d.waits with
  | [] => d.releaseOldest
  | cue :: waits =>
    let d := { d with waits }
    match cue with
    | .auto => d.releaseOldest
    | .idle => ({ d with held := [] }, .ok .idle)
    | .timeout => (d, .ok .timedOut)
    | .fail e => (d, .error e)

instance : Device ScriptedDevice where
  submit := submit
  wait d _ := d.wait
  stop d := (d, [])

end ScriptedDevice

end EmulatorOutput.Sound
