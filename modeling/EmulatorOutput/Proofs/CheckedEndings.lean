import EmulatorOutput.Fault
import EmulatorOutput.Proofs.CheckedLoops

/-!
# How checked computations end

`Ends x post fail` says both what a computation comes to and why it may break off. It is proved
along the computation, a loop by what each pass hands on to the next, and where no cause is left
it says that the computation comes to a result.
-/

namespace EmulatorOutput

namespace Checked

variable {ε α β σ : Type}

/-- The result, or the cause of breaking off, is as described. -/
def Ends (x : Except ε α) (post : α → Prop) (fail : ε → Prop) : Prop :=
  match x with
  | .ok a => post a
  | .error e => fail e

namespace Ends

variable {x : Except ε α} {post post' : α → Prop} {fail fail' : ε → Prop}

theorem of_ok {a : α} (hx : x = .ok a) (h : post a) : Ends x post fail := by
  rw [hx]
  exact h

theorem post_of_ok (h : Ends x post fail) {a : α} (hx : x = .ok a) : post a := by
  rw [hx] at h
  exact h

theorem fail_of_error (h : Ends x post fail) {e : ε} (hx : x = .error e) : fail e := by
  rw [hx] at h
  exact h

theorem mono_post (h : Ends x post fail) (hpost : ∀ a, post a → post' a) :
    Ends x post' fail := by
  cases x with
  | ok a => exact hpost a h
  | error e => exact h

theorem mono_fail (h : Ends x post fail) (hfail : ∀ e, fail e → fail' e) :
    Ends x post fail' := by
  cases x with
  | ok a => exact h
  | error e => exact hfail e h

theorem exists_ok (h : Ends x post fail) (hnone : ∀ e, ¬ fail e) : ∃ a, x = .ok a ∧ post a := by
  cases x with
  | ok a => exact ⟨a, rfl, h⟩
  | error e => exact absurd h (hnone e)

theorem bind {f : α → Except ε β} {goal : β → Prop} (hx : Ends x post fail)
    (hf : ∀ a, post a → Ends (f a) goal fail) : Ends (x >>= f) goal fail := by
  cases x with
  | ok a => exact hf a hx
  | error e => exact hx

theorem bind_ok {f : α → Except ε β} {goal : β → Prop} {a : α} (hx : x = .ok a)
    (hf : Ends (f a) goal fail) : Ends (x >>= f) goal fail := by
  rw [hx]
  exact hf

theorem mapM {f : α → Except ε β} {g : α → β} {P : α → Prop} {xs : List α}
    (h : ∀ a ∈ xs, Ends (f a) (fun b => b = g a ∧ P a) fail) :
    Ends (xs.mapM f) (fun bs => bs = xs.map g ∧ ∀ a ∈ xs, P a) fail := by
  induction xs with
  | nil => exact ⟨rfl, nofun⟩
  | cons a as ih =>
    rw [List.mapM_cons]
    refine (h a List.mem_cons_self).bind ?_
    rintro _ ⟨rfl, ha⟩
    refine (ih fun a' ha' => h a' (List.mem_cons_of_mem a ha')).bind ?_
    rintro _ ⟨rfl, has⟩
    refine ⟨rfl, fun a' ha' => ?_⟩
    rcases List.mem_cons.mp ha' with rfl | ha'
    · exact ha
    · exact has a' ha'

theorem foldlM_range {f : σ → Nat → Except ε σ} {P : Nat → σ → Prop} {n : Nat} {s : σ}
    (h₀ : P 0 s) (hstep : ∀ k < n, ∀ t, P k t → Ends (f t k) (P (k + 1)) fail) :
    Ends ((List.range n).foldlM f s) (P n) fail := by
  induction n with
  | zero => exact h₀
  | succ n ih =>
    rw [List.range_succ, List.foldlM_append]
    refine (ih fun k hk => hstep k (Nat.lt_succ_of_lt hk)).bind fun t ht => ?_
    rw [List.foldlM_cons]
    exact (hstep n (Nat.lt_succ_self n) t ht).bind fun t' ht' => ht'

/-- Every pass keeps `P`, and each of them finds its own `Q`. -/
theorem foldlM_range_each {f : σ → Nat → Except ε σ} {P : σ → Prop} {Q : Nat → Prop} {n : Nat}
    {s : σ} (h₀ : P s) (hstep : ∀ k < n, ∀ t, P t → Ends (f t k) (fun t' => P t' ∧ Q k) fail) :
    Ends ((List.range n).foldlM f s) (fun t => P t ∧ ∀ k < n, Q k) fail := by
  refine foldlM_range (P := fun m t => P t ∧ ∀ k < m, Q k) ⟨h₀, nofun⟩ ?_
  rintro m hm t ⟨ht, hbefore⟩
  refine (hstep m hm t ht).mono_post ?_
  rintro t' ⟨ht', hnew⟩
  refine ⟨ht', fun k hk => ?_⟩
  rcases Nat.lt_succ_iff_lt_or_eq.mp hk with hk | rfl
  · exact hbefore k hk
  · exact hnew

end Ends

theorem mapM_eq_ok_map {f : α → Except ε β} {g : α → β} {xs : List α}
    (h : ∀ a ∈ xs, f a = .ok (g a)) : xs.mapM f = .ok (xs.map g) := by
  have hends : Ends (xs.mapM f) (fun bs => bs = xs.map g ∧ ∀ a ∈ xs, True) fun _ => False :=
    Ends.mapM fun a ha => Ends.of_ok (h a ha) ⟨rfl, trivial⟩
  obtain ⟨bs, hbs, rfl, -⟩ := hends.exists_ok fun _ => id
  exact hbs

end Checked

namespace Word

open Checked (Ends)

theorem addBelow_ends (bound a b : Nat) :
    Ends (addBelow bound a b) (fun c => c = a + b ∧ c < bound)
      fun f => f = .addOverflow ∧ bound ≤ a + b := by
  unfold addBelow
  split
  · exact ⟨rfl, ‹_›⟩
  · exact ⟨rfl, Nat.le_of_not_lt ‹_›⟩

theorem mulBelow_ends (bound a b : Nat) :
    Ends (mulBelow bound a b) (fun c => c = a * b ∧ c < bound)
      fun f => f = .mulOverflow ∧ bound ≤ a * b := by
  unfold mulBelow
  split
  · exact ⟨rfl, ‹_›⟩
  · exact ⟨rfl, Nat.le_of_not_lt ‹_›⟩

end Word

end EmulatorOutput
