import EmulatorOutput.Picture.Compositor
import EmulatorOutput.Session.Command

/-!
# Emulation cores

A core is driven one frame at a time. During a cycle it delivers bursts of samples and finished
pictures and may send commands to its own session; none of these tells it anything back. All it
can learn is whether its samples are wanted.
-/

namespace EmulatorOutput.Session

open Picture (Image)

/-- The version of the contract between core and session. -/
def callbackVersion : Nat := 1

/-- What a core does during a cycle. -/
inductive Action where
  | audio (samples : List Int16)
  | video (image : Image)
  | send (command : Command)

/-- An emulation core as its state and what it does in each cycle. -/
class Core (κ : Type) where
  /-- One cycle, given whether samples are wanted. -/
  cycle : κ → Bool → Except Fault (κ × List Action)
  /-- Back to the state at power-on. -/
  reset : κ → κ
  frameSize : κ → Nat × Nat
  /-- The contract it was written for. -/
  version : κ → Nat := fun _ => callbackVersion
  name : κ → String := fun _ => "core"

/-- A core that plays a list of cycles over and over. -/
structure ScriptedCore where
  script : List (List Action)
  size : Nat × Nat
  version : Nat := callbackVersion
  name : String := "core"
  /-- The cycles since the last reset. -/
  cycles : Nat := 0
  resets : Nat := 0

instance : Core ScriptedCore where
  cycle c _ :=
    .ok ({ c with cycles := c.cycles + 1 }, c.script.getD (c.cycles % c.script.length) [])
  reset c := { c with cycles := 0, resets := c.resets + 1 }
  frameSize := ScriptedCore.size
  version := ScriptedCore.version
  name := ScriptedCore.name

end EmulatorOutput.Session
