import EmulatorOutput.Proofs.SessionInvariants

/-!
# Cycles of a core

What a core does in successive cycles, and the states that it comes to, whether it is cycled by
itself, in a turn or by a session.
-/

namespace EmulatorOutput.Session

variable {κ α ν : Type} [Core κ]

/-- What a core does in successive cycles, given for each whether samples are wanted. -/
def deliveries : List Bool → κ → Except Fault (List (List Action))
  | [], _ => .ok []
  | wanted :: later, core => do
    let (core, actions) ← Core.cycle core wanted
    let rest ← deliveries later core
    return actions :: rest

/-- A core that never minds whether its samples are wanted delivers the same in either case. -/
theorem deliveries_congr (h : ∀ k : κ, Core.cycle k true = Core.cycle k false) (k : κ)
    {wants wants' : List Bool} (hlength : wants'.length = wants.length) :
    deliveries wants' k = deliveries wants k := by
  induction wants generalizing k wants' with
  | nil => rw [List.eq_nil_of_length_eq_zero hlength]
  | cons wanted later ih =>
    cases wants' with
    | nil => cases hlength
    | cons wanted' later' =>
      have hcycle : Core.cycle k wanted' = Core.cycle k wanted := by
        cases wanted <;> cases wanted' <;> simp [h]
      have hlater : ∀ m : κ, deliveries later' m = deliveries later m :=
        fun m => ih m (Nat.succ.inj hlength)
      simp only [deliveries, hcycle, hlater]

/-- The states that a core comes to by cycles and resets. -/
inductive Core.Reached (k₀ : κ) : κ → Prop where
  | start : Reached k₀ k₀
  | cycled {k k' : κ} {wanted : Bool} {actions : List Action} (h : Reached k₀ k)
      (hc : Core.cycle k wanted = .ok (k', actions)) : Reached k₀ k'
  | reset {k : κ} (h : Reached k₀ k) : Reached k₀ (Core.reset k)

namespace Core.Reached

theorem trans {k₀ k k' : κ} (h : Reached k₀ k) (h' : Reached k k') : Reached k₀ k' := by
  induction h' with
  | start => exact h
  | cycled _ hc ih => exact ih.cycled hc
  | reset _ ih => exact ih.reset

variable {k₀ k k' : κ} [SoundSink α] [PictureSink ν]

theorem of_cycles {n : Nat} {t t' : Turn α ν} (h : Reached k₀ k)
    (ht : (Turn.cycles n k t).outcome = .ok (k', t')) : Reached k₀ k' := by
  induction n generalizing k t with
  | zero =>
    cases ht
    exact h
  | succ n ih =>
    obtain ⟨⟨m, actions⟩, hm, ht⟩ := Logged.bind_outcome_eq_ok_iff.mp ht
    obtain ⟨t₁, -, ht⟩ := Logged.bind_outcome_eq_ok_iff.mp ht
    exact ih (h.cycled hm) ht

/-- In a session a core is only cycled and reset. -/
theorem kept (k₀ : κ) : Kept fun l : Loop κ α ν => Reached k₀ l.core where
  steer h core hcore _ _ _ := by
    obtain rfl | rfl := hcore
    · exact h
    · exact h.reset
  step h hm := by
    obtain ⟨core, actions, t, hc, -, rfl⟩ := Loop.step_eq_ok_iff.mp hm
    exact h.cycled hc
  silenced h := by rwa [Loop.core_silenced]

end Core.Reached

end EmulatorOutput.Session
