/-!
# Loops that may break off

What a loop has done if it came to its end: each pass came to its own, and what every pass keeps
the whole loop keeps.
-/

namespace EmulatorOutput.Checked

variable {ε α β σ : Type}

theorem bind_eq_ok_iff {x : Except ε α} {f : α → Except ε β} {b : β} :
    x >>= f = .ok b ↔ ∃ a, x = .ok a ∧ f a = .ok b := by
  cases x <;> simp [bind, Except.bind]

theorem exists_ok_of_mapM {f : α → Except ε β} {xs : List α} {ys : List β}
    (h : xs.mapM f = .ok ys) : ∀ x ∈ xs, ∃ y, f x = .ok y := by
  induction xs generalizing ys with
  | nil => simp
  | cons x xs ih =>
    rw [List.mapM_cons, bind_eq_ok_iff] at h
    obtain ⟨y, hy, h⟩ := h
    obtain ⟨zs, hzs, -⟩ := bind_eq_ok_iff.mp h
    intro z hz
    rcases List.mem_cons.mp hz with rfl | hz
    · exact ⟨y, hy⟩
    · exact ih hzs z hz

theorem ne_nil_of_mapM {f : α → Except ε β} {xs : List α} {ys : List β} (hxs : xs ≠ [])
    (h : xs.mapM f = .ok ys) : ys ≠ [] := by
  cases xs with
  | nil => exact absurd rfl hxs
  | cons x xs =>
    rw [List.mapM_cons, bind_eq_ok_iff] at h
    obtain ⟨y, -, h⟩ := h
    obtain ⟨zs, -, h⟩ := bind_eq_ok_iff.mp h
    cases h
    exact List.cons_ne_nil y zs

theorem eq_map_of_mapM {f : α → Except ε β} {g : α → β} {xs : List α} {ys : List β}
    (hf : ∀ x ∈ xs, ∀ y, f x = .ok y → y = g x) (h : xs.mapM f = .ok ys) : ys = xs.map g := by
  induction xs generalizing ys with
  | nil =>
    cases h
    rfl
  | cons x xs ih =>
    rw [List.mapM_cons, bind_eq_ok_iff] at h
    obtain ⟨y, hy, h⟩ := h
    obtain ⟨zs, hzs, h⟩ := bind_eq_ok_iff.mp h
    cases h
    have hhead : y = g x := hf x List.mem_cons_self y hy
    have htail : zs = xs.map g := ih (fun z hz => hf z (List.mem_cons_of_mem x hz)) hzs
    rw [hhead, htail, List.map_cons]

/-- A loop that computes a value for each element before it uses it comes to its end where all the
values can be computed and then be used. -/
theorem foldlM_bind_eq_ok_iff {f : α → Except ε β} {g : σ → β × Nat → Except ε σ} {xs : List α}
    {n : Nat} {s s' : σ} :
    (xs.zipIdx n).foldlM (fun t e => f e.1 >>= fun y => g t (y, e.2)) s = .ok s' ↔
      ∃ ys, xs.mapM f = .ok ys ∧ (ys.zipIdx n).foldlM g s = .ok s' := by
  induction xs generalizing n s with
  | nil =>
    constructor
    · exact fun h => ⟨[], rfl, h⟩
    · rintro ⟨ys, hys, h⟩
      cases hys
      exact h
  | cons x xs ih =>
    rw [List.zipIdx_cons, List.foldlM_cons, bind_eq_ok_iff]
    simp only [List.mapM_cons, bind_eq_ok_iff]
    constructor
    · rintro ⟨t, ⟨y, hy, ht⟩, h⟩
      obtain ⟨ys, hys, hrest⟩ := ih.mp h
      refine ⟨y :: ys, ⟨y, hy, ys, hys, rfl⟩, ?_⟩
      rw [List.zipIdx_cons, List.foldlM_cons, ht]
      exact hrest
    · rintro ⟨_, ⟨y, hy, ys, hys, heq⟩, h⟩
      cases heq
      rw [List.zipIdx_cons, List.foldlM_cons, bind_eq_ok_iff] at h
      obtain ⟨t, ht, hrest⟩ := h
      exact ⟨t, ⟨y, hy, ht⟩, ih.mpr ⟨ys, hys, hrest⟩⟩

/-- A loop that counts up to `n` ends with what each of its passes hands on to the next. -/
theorem foldlM_range_induction {f : σ → Nat → Except ε σ} {P : Nat → σ → Prop} {n : Nat}
    {s s' : σ} (h₀ : P 0 s)
    (hstep : ∀ k < n, ∀ t t', P k t → f t k = .ok t' → P (k + 1) t')
    (h : (List.range n).foldlM f s = .ok s') : P n s' := by
  induction n generalizing s' with
  | zero =>
    cases h
    exact h₀
  | succ n ih =>
    rw [List.range_succ, List.foldlM_append, bind_eq_ok_iff] at h
    obtain ⟨t, ht, h⟩ := h
    rw [List.foldlM_cons, bind_eq_ok_iff] at h
    obtain ⟨t', ht', h⟩ := h
    cases h
    have hbefore : P n t := ih (fun k hk => hstep k (Nat.lt_succ_of_lt hk)) ht
    exact hstep n (Nat.lt_succ_self n) t s' hbefore ht'

end EmulatorOutput.Checked
