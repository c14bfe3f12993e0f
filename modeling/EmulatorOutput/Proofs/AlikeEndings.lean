import EmulatorOutput.Proofs.NoticeLaws

/-!
# Computations that end alike

Two computations end alike if they come to related results, or both break off for the same cause.
Where they report, they report the same.
-/

namespace EmulatorOutput

variable {ε α α' β β' : Type}

namespace Checked

/-- Both come to related results, or both break off for the same cause. -/
inductive Alike (R : α → α' → Prop) : Except ε α → Except ε α' → Prop where
  | ok {a : α} {a' : α'} (h : R a a') : Alike R (.ok a) (.ok a')
  | error (e : ε) : Alike R (.error e) (.error e)

namespace Alike

variable {R : α → α' → Prop} {S : β → β' → Prop} {x : Except ε α} {x' : Except ε α'}

theorem of_eq {R : α → α → Prop} (hR : ∀ a, R a a) (x : Except ε α) : Alike R x x := by
  cases x with
  | ok a => exact .ok (hR a)
  | error e => exact .error e

theorem eq {x y : Except ε α} (h : Alike Eq x y) : x = y := by
  cases h with
  | ok h => rw [h]
  | error e => rfl

theorem mono {T : α → α' → Prop} (h : Alike R x x') (hT : ∀ a a', R a a' → T a a') :
    Alike T x x' := by
  cases h with
  | ok h => exact .ok (hT _ _ h)
  | error e => exact .error e

theorem bind {f : α → Except ε β} {f' : α' → Except ε β'} (h : Alike R x x')
    (hf : ∀ a a', R a a' → Alike S (f a) (f' a')) : Alike S (x >>= f) (x' >>= f') := by
  cases h with
  | ok h => exact hf _ _ h
  | error e => exact .error e

/-- Computations that begin alike end alike if they go on alike. -/
theorem bind_same (x : Except ε α) {f : α → Except ε β} {f' : α → Except ε β'}
    (hf : ∀ a, Alike S (f a) (f' a)) : Alike S (x >>= f) (x >>= f') := by
  refine (of_eq (R := Eq) (fun _ => rfl) x).bind ?_
  rintro a _ rfl
  exact hf a

end Alike

end Checked

namespace Logged

/-- Both end alike, and report the same. -/
structure Alike (R : α → α' → Prop) (x : Logged ε α) (x' : Logged ε α') : Prop where
  outcome : Checked.Alike R x.outcome x'.outcome
  notices_eq : x'.notices = x.notices

namespace Alike

variable {R : α → α' → Prop} {S : β → β' → Prop} {x : Logged ε α} {x' : Logged ε α'}

theorem of_eq {R : α → α → Prop} (hR : ∀ a, R a a) (x : Logged ε α) : Alike R x x :=
  ⟨.of_eq hR x.outcome, rfl⟩

theorem mono {T : α → α' → Prop} (h : Alike R x x') (hT : ∀ a a', R a a' → T a a') :
    Alike T x x' :=
  ⟨h.outcome.mono hT, h.notices_eq⟩

theorem of_pure {a : α} {a' : α'} (h : R a a') :
    Alike R (pure a : Logged ε α) (pure a') :=
  ⟨.ok h, rfl⟩

theorem of_tell {r : α × List Notice} {r' : α' × List Notice} (h : R r.1 r'.1)
    (hn : r'.2 = r.2) : Alike R (tell r : Logged ε α) (tell r') :=
  ⟨.ok h, hn⟩

theorem of_except {x : Except ε α} {x' : Except ε α'} (h : Checked.Alike R x x') :
    Alike R (ofExcept x) (ofExcept x') :=
  ⟨h, rfl⟩

/-- What follows needs to end alike only for the results that the two come to. -/
theorem bind_ok {f : α → Logged ε β} {f' : α' → Logged ε β'} (h : Alike R x x')
    (hf : ∀ a a', x.outcome = .ok a → x'.outcome = .ok a' → R a a' → Alike S (f a) (f' a')) :
    Alike S (x >>= f) (x' >>= f') := by
  obtain ⟨hx, hn⟩ := h
  generalize ho : x.outcome = o at hx
  generalize ho' : x'.outcome = o' at hx
  cases hx with
  | error e =>
    rw [bind_of_error ho, bind_of_error ho', hn]
    exact ⟨.error e, rfl⟩
  | ok h =>
    obtain ⟨hy, hm⟩ := hf _ _ ho ho' h
    rw [bind_of_ok ho, bind_of_ok ho', hn, hm]
    exact ⟨hy, rfl⟩

theorem bind {f : α → Logged ε β} {f' : α' → Logged ε β'} (h : Alike R x x')
    (hf : ∀ a a', R a a' → Alike S (f a) (f' a')) : Alike S (x >>= f) (x' >>= f') :=
  h.bind_ok fun a a' _ _ => hf a a'

theorem bind_same (x : Logged ε α) {f : α → Logged ε β} {f' : α → Logged ε β'}
    (hf : ∀ a, Alike S (f a) (f' a)) : Alike S (x >>= f) (x >>= f') := by
  refine (of_eq (R := Eq) (fun _ => rfl) x).bind ?_
  rintro a _ rfl
  exact hf a

end Alike

end Logged

end EmulatorOutput
