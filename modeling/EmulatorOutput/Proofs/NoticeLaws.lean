import EmulatorOutput.Notice

/-!
# Laws of computations with notices

Sequencing is lawful: notices are joined in order, and nothing follows a computation that broke
off.
-/

namespace EmulatorOutput.Logged

variable {ε α β γ : Type}

theorem ext {x y : Logged ε α} (ho : x.outcome = y.outcome) (hn : x.notices = y.notices) :
    x = y := by
  cases x; cases y; cases ho; cases hn; rfl

theorem map_id (x : Logged ε α) : id <$> x = x := by
  change andThen x _ = x
  cases h : x.outcome with
  | ok a => exact ext (by simp [andThen, h]) (by simp [andThen, h])
  | error e => exact ext (by simp [andThen, h]) (by simp [andThen, h])

theorem pure_andThen (a : α) (f : α → Logged ε β) : pure a >>= f = f a :=
  ext rfl (by rw [bind_of_ok (outcome_pure a) f]; rfl)

theorem andThen_assoc (x : Logged ε α) (f : α → Logged ε β) (g : β → Logged ε γ) :
    x >>= f >>= g = x >>= fun a => f a >>= g := by
  cases hx : x.outcome with
  | error e => rw [bind_of_error hx f, bind_of_error hx, bind_of_error rfl]
  | ok a =>
    rw [bind_of_ok hx f, bind_of_ok hx]
    cases hf : (f a).outcome with
    | error e => rw [bind_of_error rfl, bind_of_error hf]
    | ok b =>
      have hb : (⟨.ok b, x.notices ++ (f a).notices⟩ : Logged ε β).outcome = .ok b := rfl
      rw [bind_of_ok hf, bind_of_ok hb, List.append_assoc]

instance : LawfulMonad (Logged ε) :=
  LawfulMonad.mk' (Logged ε) map_id pure_andThen andThen_assoc

@[simp] theorem stop_bind (e : ε) (f : α → Logged ε β) : (stop e : Logged ε α) >>= f = stop e :=
  bind_of_error rfl f

@[simp] theorem ofExcept_ok (a : α) : ofExcept (.ok a : Except ε α) = pure a := rfl

@[simp] theorem ofExcept_error (e : ε) : ofExcept (.error e : Except ε α) = stop e := rfl

/-- A computation that goes on to an answer has first come to a result. -/
theorem bind_outcome_eq_ok_iff {x : Logged ε α} {f : α → Logged ε β} {b : β} :
    (x >>= f).outcome = .ok b ↔ ∃ a, x.outcome = .ok a ∧ (f a).outcome = .ok b := by
  rw [outcome_bind]
  cases x.outcome <;> simp [Except.bind]

theorem bind_ok {x : Logged ε α} {f : α → Logged ε β} {a : α} {b : β}
    (hx : x.outcome = .ok a) (hf : (f a).outcome = .ok b) : (x >>= f).outcome = .ok b :=
  bind_outcome_eq_ok_iff.mpr ⟨a, hx, hf⟩

/-- Only the results that a computation comes to matter to what follows it. -/
theorem bind_congr_ok {x : Logged ε α} {f g : α → Logged ε β}
    (h : ∀ a, x.outcome = .ok a → f a = g a) : x >>= f = x >>= g := by
  cases hx : x.outcome with
  | error e => rw [bind_of_error hx, bind_of_error hx]
  | ok a => rw [bind_of_ok hx, bind_of_ok hx, h a hx]

end EmulatorOutput.Logged
