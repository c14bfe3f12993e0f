import EmulatorOutput.Proofs.NoticeLaws
import EmulatorOutput.Sound.Stream

/-!
# Closing a period

All that the end of a period can be: it is late, because the wait for the device came to
nothing, or it is offered to the device, at once or after a wait. A closing fixes the exchanges
with the device and, with the state before, everything in the state after.
-/

namespace EmulatorOutput.Sound

/-- How a period comes to be offered: without a wait, or after one that made room. -/
inductive Passage where
  | direct
  | released (id : Nat)
  | idle
  deriving DecidableEq, Repr

namespace Passage

def waits : Passage → Bool
  | .direct => false
  | .released _ | .idle => true

def inFlight : Passage → Nat → Nat
  | .direct, n => n
  | .released _, n => n - 1
  | .idle, _ => 0

def exchanges (limit : Option Nat) : Passage → List Exchange
  | .direct => []
  | .released id => [.waited limit (.ok (.released id))]
  | .idle => [.waited limit (.ok .idle)]

end Passage

/-- What becomes of a closed period. -/
inductive Closing where
  /-- Dropped at the wait: the bound passed, or the wait failed. -/
  | late (cause : Option Failure)
  /-- Handed to the device, which took it or refused it. -/
  | offered (passage : Passage) (period : Submission) (answer : Except Failure Unit)

namespace Closing

def waits : Closing → Bool
  | .late _ => true
  | .offered passage _ _ => passage.waits

def accepted : Closing → Bool
  | .offered _ _ (.ok _) => true
  | _ => false

def period? : Closing → Option Submission
  | .late _ => none
  | .offered _ period _ => some period

def inFlight : Closing → Nat → Nat
  | .late _, n => n
  | .offered passage _ (.ok _), n => passage.inFlight n + 1
  | .offered passage _ (.error _), n => passage.inFlight n

/-- The exchanges with a device, where waits are bounded by `limit`. -/
def exchanges (limit : Option Nat) : Closing → List Exchange
  | .late none => [.waited limit (.ok .timedOut)]
  | .late (some e) => [.waited limit (.error e)]
  | .offered passage period answer => passage.exchanges limit ++ [.submitted period answer]

def tally (c : Closing) (t : Tally) : Tally :=
  { t with
    periodsSubmitted := t.periodsSubmitted + if c.accepted then 1 else 0
    periodsDropped := t.periodsDropped + if c.accepted then 0 else 1
    waits := t.waits + if c.waits then 1 else 0 }

/-- An exchange of a closing that hands over a period hands over its own. -/
theorem period?_of_mem_exchanges {c : Closing} {limit : Option Nat} {p : Submission}
    {answer : Except Failure Unit} (h : .submitted p answer ∈ c.exchanges limit) :
    c.period? = some p := by
  obtain cause | ⟨passage, period, answer'⟩ := c
  · cases cause <;> simp [exchanges] at h
  · obtain hwait | hsubmit := List.mem_append.mp h
    · cases passage <;> simp [Passage.exchanges] at hwait
    · cases List.mem_singleton.mp hsubmit
      rfl

end Closing

/-- The states a device comes to by waits and submissions. -/
inductive Served {δ : Type} [Device δ] (d : δ) : δ → Prop where
  | refl : Served d d
  | submit {e : δ} (served : Served d e) (p : Submission) : Served d (Device.submit e p).1
  | wait {e : δ} (served : Served d e) (limit : Option Nat) : Served d (Device.wait e limit).1

theorem Served.trans {δ : Type} [Device δ] {d e f : δ} (hde : Served d e) (hef : Served e f) :
    Served d f := by
  induction hef with
  | refl => exact hde
  | submit served p ih => exact ih.submit p
  | wait served limit ih => exact ih.wait limit

namespace Recorder

variable {δ : Type} [Device δ]

theorem history_submit (r : Recorder δ) (p : Submission) :
    (Device.submit r p).1.history = r.history ++ [.submitted p (Device.submit r p).2] :=
  List.reverse_cons

theorem history_wait (r : Recorder δ) (limit : Option Nat) :
    (Device.wait r limit).1.history = r.history ++ [.waited limit (Device.wait r limit).2] :=
  List.reverse_cons

end Recorder

namespace Stream

variable {δ : Type} [Device δ]

/-- The state after a closing that left the device in the given state. -/
def after (s : Stream (Recorder δ)) (c : Closing) (device : Recorder δ) : Stream (Recorder δ) :=
  { s with
    device
    pool := if c.accepted then s.pool.rotate else s.pool
    offset := 0
    inFlight := c.inFlight s.inFlight
    tally := c.tally s.tally }

/-- The period of a state is closed in one of the possible ways. -/
structure Closes (s : Stream (Recorder δ)) (c : Closing) (device : Recorder δ) : Prop where
  outcome_eq : s.closePeriod.outcome = .ok (s.after c device, c.accepted)
  served : Served s.device device
  history_eq : device.history = s.device.history ++ c.exchanges s.setup.waitLimit
  waits_iff : c.waits = true ↔ s.setup.queueDepth.toNat ≤ s.inFlight
  period_eq : ∀ p ∈ c.period?, p = s.submission

/-- The state of a stream that goes on to offer its period. -/
def admitted (s : Stream (Recorder δ)) (passage : Passage) (device : Recorder δ) :
    Stream (Recorder δ) :=
  { s with
    device
    inFlight := passage.inFlight s.inFlight
    tally.waits := s.tally.waits + if passage.waits then 1 else 0 }

theorem makeRoom_cases (s : Stream (Recorder δ)) (hN : 0 < s.setup.queueDepth.toNat) :
    (∃ passage device, s.makeRoom.outcome = .ok (s.admitted passage device, true) ∧
      Served s.device device ∧
      device.history = s.device.history ++ passage.exchanges s.setup.waitLimit ∧
      (passage.waits = true ↔ s.setup.queueDepth.toNat ≤ s.inFlight)) ∨
    (∃ cause device, s.makeRoom.outcome =
        .ok ({ s with device, tally := (Closing.late cause).tally s.tally }, false) ∧
      Served s.device device ∧
      device.history = s.device.history ++ (Closing.late cause).exchanges s.setup.waitLimit ∧
      s.setup.queueDepth.toNat ≤ s.inFlight) := by
  by_cases hfree : s.inFlight < s.setup.queueDepth.toNat
  · left
    refine ⟨.direct, s.device, ?_, .refl, (List.append_nil _).symm, ?_⟩
    · rw [makeRoom, if_pos hfree]
      rfl
    · simpa [Passage.waits] using hfree
  · have hfull : s.setup.queueDepth.toNat ≤ s.inFlight := Nat.not_lt.mp hfree
    have hsub : Word.sub s.inFlight 1 = .ok (s.inFlight - 1) := if_pos (by omega)
    have hhistory := Recorder.history_wait s.device s.setup.waitLimit
    have hserved := (Served.refl : Served s.device s.device).wait s.setup.waitLimit
    unfold makeRoom
    rw [if_neg hfree]
    cases hw : Device.wait s.device s.setup.waitLimit with
    | mk device answer =>
      rw [hw] at hhistory hserved
      rcases answer with e | ⟨id⟩ | _ | _
      · exact .inr ⟨some e, device, rfl, hserved, hhistory, hfull⟩
      · refine .inl ⟨.released id, device, ?_, hserved, hhistory, ?_⟩
        · simp [hsub]
          rfl
        · simpa [Passage.waits] using hfull
      · exact .inl ⟨.idle, device, rfl, hserved, hhistory, by simpa [Passage.waits] using hfull⟩
      · exact .inr ⟨none, device, rfl, hserved, hhistory, hfull⟩

theorem handOver_spec (s : Stream (Recorder δ)) :
    ∃ answer device,
      s.handOver.outcome = .ok
        ({ s with
          device
          pool := if (Closing.offered .direct s.submission answer).accepted then s.pool.rotate
            else s.pool
          inFlight := (Closing.offered .direct s.submission answer).inFlight s.inFlight
          tally := (Closing.offered .direct s.submission answer).tally s.tally },
          (Closing.offered .direct s.submission answer).accepted) ∧
      Served s.device device ∧
      device.history = s.device.history ++ [.submitted s.submission answer] := by
  have hhistory := Recorder.history_submit s.device s.submission
  have hserved := (Served.refl : Served s.device s.device).submit s.submission
  unfold handOver
  cases hd : Device.submit s.device s.submission with
  | mk device answer =>
    rw [hd] at hhistory hserved
    refine ⟨answer, device, ?_, hserved, hhistory⟩
    rcases answer with e | ⟨⟩
    · by_cases he : e.recoverable
      · simp [he]
        rfl
      · simp [he]
        rfl
    · rfl

/-- With a queue of some depth the end of a period is one of the closings, and nothing breaks
off. -/
theorem closePeriod_spec (s : Stream (Recorder δ)) (hN : 0 < s.setup.queueDepth.toNat) :
    ∃ c device, s.Closes c device := by
  have hrewound : 0 < ({ s with offset := 0 } : Stream (Recorder δ)).setup.queueDepth.toNat := hN
  obtain ⟨passage, device, hroom, hserved, hhistory, hwaits⟩ |
      ⟨cause, device, hroom, hserved, hhistory, hfull⟩ := makeRoom_cases _ hrewound
  · obtain ⟨answer, device', hoffer, hserved', hhistory'⟩ :=
      handOver_spec (({ s with offset := 0 } : Stream (Recorder δ)).admitted passage device)
    refine ⟨.offered passage s.submission answer, device', ?_, hserved.trans hserved', ?_, hwaits,
      ?_⟩
    · rw [closePeriod, Logged.outcome_bind, hroom]
      change (handOver _).outcome = _
      rw [hoffer]
      cases answer <;> cases passage <;> rfl
    · rw [hhistory', Closing.exchanges, ← List.append_assoc]
      exact congrArg (· ++ _) hhistory
    · intro p hp
      cases hp
      rfl
  · refine ⟨.late cause, device, ?_, hserved, hhistory, ⟨fun _ => hfull, fun _ => rfl⟩, ?_⟩
    · rw [closePeriod, Logged.outcome_bind, hroom]
      rfl
    · intro p hp
      cases hp

theorem Closes.closeIfFull_eq {s : Stream (Recorder δ)} {c : Closing} {device : Recorder δ}
    (hc : s.Closes c device) (hfull : s.offset = s.capacity) :
    s.closeIfFull.outcome = .ok (s.after c device, if c.accepted then 1 else 0) := by
  rw [closeIfFull, if_pos hfull]
  exact Logged.bind_ok hc.outcome_eq rfl

end Stream

end EmulatorOutput.Sound
