import EmulatorOutput.Proofs.SessionCourses

/-!
# What sessions keep

A property of sessions that the control and the frames keep holds at every moment of a course. If
the end of a session keeps it too, it holds after every request.
-/

namespace EmulatorOutput.Session

variable {κ α ν : Type} [Core κ] [SoundSink α] [PictureSink ν]

/-- A run that has come to an end has gone through a course, and is then concluded. -/
theorem Loop.run_course {l m : Loop κ α ν} {n : Nat} (h : (l.run n).outcome = .ok m) :
    ∃ k : Loop κ α ν, l.now.Course (l.events n) k.now ∧ m = k.concluded := by
  rw [Loop.outcome_run] at h
  obtain ⟨es, k, hcourse, ⟨hk, hes⟩ | ⟨e, hbreak⟩⟩ := l.passes_course n
  · rw [hk] at h
    exact ⟨k, hes ▸ hcourse, (Except.ok.inj h).symm⟩
  · obtain ⟨f, -, hf⟩ := hbreak.outcome_eq
    rw [hf] at h
    cases h

/-- A run that has come to the end of its session has gone through a course, and then
silenced it. -/
theorem Loop.run_silenced {l m : Loop κ α ν} {n : Nat} (h : (l.run n).outcome = .ok m)
    (hm : m.phase = .shuttingDown) :
    ∃ k : Loop κ α ν, l.now.Course (l.events n) k.now ∧ m = k.silenced := by
  obtain ⟨k, hcourse, rfl⟩ := Loop.run_course h
  obtain ⟨link, audio, heq⟩ := k.exists_concluded_eq
  rw [heq] at hm
  have hk : k.phase = .shuttingDown := hm
  exact ⟨k, hcourse, if_pos hk⟩

omit [Core κ] [PictureSink ν] in
@[simp] theorem Loop.core_silenced (l : Loop κ α ν) : l.silenced.core = l.core := by
  obtain ⟨link, audio, heq⟩ := l.exists_silenced_eq
  rw [heq]

omit [Core κ] [PictureSink ν] in
theorem Loop.silenced_of_closed {l : Loop κ α ν} {sink : α} (h : l.sound = .closed sink) :
    l.silenced = l := by
  unfold Loop.silenced
  rw [h]

/-- A property that is kept by the control of sessions and by their frames. The control may reset
the core. -/
structure Held (P : Loop κ α ν → Prop) : Prop where
  steer {l} (h : P l) {core : κ} (hcore : core = l.core ∨ core = Core.reset l.core)
    (mailbox : Mailbox) (phase : Phase) (restarts : Nat) :
    P (l.steer core mailbox phase restarts)
  step {l m} : P l → l.step.outcome = .ok m → P m

/-- A property that is also kept when the sound is closed. -/
structure Kept (P : Loop κ α ν → Prop) : Prop extends Held P where
  silenced {l} : P l → P l.silenced

namespace Held

variable {P : Loop κ α ν → Prop} (H : Held P) {l : Loop κ α ν}

include H

theorem receiving (h : P l) (mailbox : Mailbox) : P (l.receiving mailbox) :=
  H.steer h (.inl rfl) mailbox l.phase l.totals.restarts

theorem ended (h : P l) : P l.ended :=
  H.steer h (.inl rfl) l.mailbox .shuttingDown l.totals.restarts

theorem handle (h : P l) (c : Command) : P (l.handle c).1 := by
  refine H.steer h ?_ l.mailbox _ _
  split
  · exact .inr rfl
  · exact .inl rfl

theorem stride {a b : Moment κ α ν} {e : Event} (h : P a.loop) (hs : a.Stride e b) :
    P b.loop := by
  cases hs with
  | arrived ha => exact H.receiving h _
  | sent => exact H.receiving h _
  | handled hq hc => exact H.handle (H.receiving h _) _
  | cycled hp hc hm => exact H.receiving (H.step h hm) _
  | limited hl => exact H.ended h
  | deserted hp hq hc => exact H.ended h

theorem course {a b : Moment κ α ν} {es : List Event} (h : P a.loop) (hs : a.Course es b) :
    P b.loop := by
  induction hs with
  | start => exact h
  | next _ hs ih => exact H.stride ih hs

end Held

namespace Kept

variable {P : Loop κ α ν → Prop} (K : Kept P) {l m : Loop κ α ν}

include K

theorem run (h : P l) {n : Nat} (hm : (l.run n).outcome = .ok m) : P m := by
  obtain ⟨k, hcourse, rfl⟩ := Loop.run_course hm
  have hk : P k := K.course h hcourse
  unfold Loop.concluded
  split
  · exact K.silenced hk
  · exact hk

theorem serve (h : P l) {r : Request} (hm : (l.serve r).outcome = .ok m) : P m := by
  cases r with
  | step => exact K.step h hm
  | command c =>
    obtain ⟨-, rfl⟩ := Loop.heed_eq_ok_iff.mp hm
    exact K.handle h c
  | post cs =>
    cases hm
    exact K.receiving h _
  | hangUp =>
    cases hm
    exact K.receiving h _
  | expect arrivals =>
    cases hm
    exact K.receiving h _
  | run n => exact K.run h hm

theorem serveAll (h : P l) {rs : List Request} (hm : (l.serveAll rs).outcome = .ok m) : P m := by
  induction rs generalizing l with
  | nil =>
    cases hm
    exact h
  | cons r rs ih =>
    obtain ⟨k, hk, hm⟩ := Logged.bind_outcome_eq_ok_iff.mp hm
    exact ih (K.serve h hk) hm

end Kept

end EmulatorOutput.Session
