import EmulatorOutput.Proofs.Sessions

/-!
# Passes over a burst

The loop that takes a burst makes passes: it fills the work buffer, and closes the period if that
is full. A pass takes a sample at least, because the offset and the capacity are whole source
samples and the one is below the other. So the loop ends, and leaves a state of which the same is
true.
-/

namespace EmulatorOutput.Sound.Stream

variable {δ : Type}

/-- A fill that stays within the period and the work buffer, and takes samples. -/
structure Fills (s : Stream δ) (xs : List Int16) (t : Stream δ) (n : Nat) : Prop where
  fill_eq : s.fill xs = .ok (t, n)
  taken_pos : 0 < n
  taken_le : n ≤ xs.length
  offset_eq : t.offset = s.offset + s.conversion.factor * n
  offset_le : t.offset ≤ s.capacity
  capacity_le : s.capacity ≤ s.pool.workBuffer.sampleCount

theorem Ready.fills {s : Stream δ} {xs : List Int16} (h : s.Ready) (hne : xs ≠ []) :
    s.Fills xs (s.put (xs.take s.room)) (xs.take s.room).length where
  fill_eq := h.fill_ok xs
  taken_pos := by
    rw [List.length_take]
    exact Nat.lt_min.mpr ⟨h.room_pos, List.length_pos_iff.mpr hne⟩
  taken_le := List.length_take_le' _ _
  offset_eq := rfl
  offset_le := h.offset_put_take_le xs
  capacity_le := h.capacity_le _ s.workBuffer_mem

variable [Device δ]

/-- The passes that the loop makes over a burst: their number, the periods that were handed over in
them, the stream that they lead to and what they leave of the burst. -/
inductive Passes (s : Stream δ) (xs : List Int16) :
    Nat → Nat → Stream δ → List Int16 → Prop where
  | start : Passes s xs 0 0 s xs
  | next {k m t rest t' n u accepted} (passes : Passes s xs k m t rest) (hrest : rest ≠ [])
      (hfill : t.fill rest = .ok (t', n)) (hclose : t'.closeIfFull.outcome = .ok (u, accepted)) :
      Passes s xs (k + 1) (m + accepted) u (rest.drop n)

/-- What the first pass and the later ones come to. -/
theorem consume_of_pass {s t u v : Stream δ} {xs : List Int16} {n first later : Nat}
    (hne : xs ≠ []) (hn : 0 < n) (hfill : s.fill xs = .ok (t, n))
    (hclose : t.closeIfFull.outcome = .ok (u, first))
    (hrest : (u.consume (xs.drop n)).outcome = .ok (v, later)) :
    (s.consume xs).outcome = .ok (v, first + later) := by
  obtain ⟨x, xs, rfl⟩ := List.exists_cons_of_ne_nil hne
  obtain ⟨n, rfl⟩ := Nat.exists_eq_add_one_of_ne_zero (Nat.ne_of_gt hn)
  rw [consume_of_fill hfill]
  exact Logged.bind_ok hclose (Logged.bind_ok hrest rfl)

variable {s t : Stream (Recorder δ)} {xs rest : List Int16} {k m : Nat}

/-- After a fill the period can be closed if it has to be. -/
theorem Ready.exists_closeIfFull (h : s.Ready) (hle : (s.put xs).offset ≤ s.capacity) :
    ∃ u accepted, (s.put xs).closeIfFull.outcome = .ok (u, accepted) ∧ u.Ready := by
  obtain hlt | hfull := Nat.lt_or_eq_of_le hle
  · refine ⟨s.put xs, 0, ?_, h.put hlt⟩
    rw [closeIfFull_of_lt hlt]
    rfl
  · obtain ⟨c, device, hc⟩ := closePeriod_spec (s.put xs) h.depth_pos
    exact ⟨_, _, hc.closeIfFull_eq hfull, h.after_put xs c device⟩

namespace Passes

theorem ready (h : s.Ready) (passes : Passes s xs k m t rest) : t.Ready := by
  induction passes with
  | start => exact h
  | @next k m t rest t' n u accepted passes hrest hfill hclose ih =>
    obtain ⟨rfl, -⟩ := fill_spec hfill
    -- closing has one result only, and it is known to have one that is ready
    obtain ⟨u', accepted', hclose', hready⟩ := ih.exists_closeIfFull (ih.offset_put_take_le rest)
    cases hclose.symm.trans hclose'
    exact hready

theorem conversion_eq (passes : Passes s xs k m t rest) : t.conversion = s.conversion := by
  induction passes with
  | start => rfl
  | next passes hrest hfill hclose ih =>
    obtain ⟨rfl, -⟩ := fill_spec hfill
    exact (closeIfFull_keeps hclose).2.trans ih

theorem taken_pos (h : s.Ready) (passes : Passes s xs k m t rest) (hrest : rest ≠ [])
    {t' : Stream (Recorder δ)} {n : Nat} (hfill : t.fill rest = .ok (t', n)) : 0 < n := by
  have hfills := (passes.ready h).fills hrest
  cases hfill.symm.trans hfills.fill_eq
  exact hfills.taken_pos

/-- Each pass takes a sample of the burst. -/
theorem add_length_le (h : s.Ready) (passes : Passes s xs k m t rest) :
    k + rest.length ≤ xs.length := by
  induction passes with
  | start => simp
  | next passes hrest hfill hclose ih =>
    have hpos := passes.taken_pos h hrest hfill
    have hlength := List.length_pos_iff.mpr hrest
    rw [List.length_drop]
    omega

/-- The loop goes on until nothing is left. -/
theorem exists_end {s t : Stream (Recorder δ)} {xs rest : List Int16} {k m : Nat} (h : s.Ready)
    (passes : Passes s xs k m t rest) : ∃ k' m' u, Passes s xs k' m' u [] := by
  by_cases hrest : rest = []
  · exact ⟨k, m, t, hrest ▸ passes⟩
  · have hready := passes.ready h
    have hfills := hready.fills hrest
    obtain ⟨u, accepted, hclose, -⟩ := hready.exists_closeIfFull hfills.offset_le
    exact (passes.next hrest hfills.fill_eq hclose).exists_end h
termination_by rest.length
decreasing_by
  have hpos := hfills.taken_pos
  have hle := hfills.taken_le
  rw [List.length_drop]
  omega

/-- The loop does what is left to do after its first passes. -/
theorem consume_eq_of_rest (h : s.Ready) (passes : Passes s xs k m t rest)
    {u : Stream (Recorder δ)} {j : Nat} (hu : (t.consume rest).outcome = .ok (u, j)) :
    (s.consume xs).outcome = .ok (u, m + j) := by
  induction passes generalizing j with
  | start => simp [hu]
  | next passes hrest hfill hclose ih =>
    rw [Nat.add_assoc]
    exact ih (consume_of_pass hrest (passes.taken_pos h hrest hfill) hfill hclose hu)

theorem consume_eq (h : s.Ready) (passes : Passes s xs k m t []) :
    (s.consume xs).outcome = .ok (t, m) := by
  have hnil : (t.consume []).outcome = .ok (t, 0) := by simp
  exact passes.consume_eq_of_rest h hnil

end Passes

variable {grants : Allocator} {setup : Setup} {device : δ} {s₀ : Stream (Recorder δ)}
  {bursts : List (List Int16)} {answers : List Nat}

/-- In every reachable state every burst is taken to its end. At each pass there is room for a
sample, the fill stays within the buffer, and the end of a period does not break off; so there are
no more passes than samples. They leave room for a sample again, and with every sample doubled
whole frames. -/
theorem push_terminates (h₀ : (start grants setup { device }).outcome = .ok s₀)
    (h : (s₀.pushAll bursts).outcome = .ok (s, answers)) (xs : List Int16) :
    (∀ k m t rest, Passes s xs k m t rest →
      k + rest.length ≤ xs.length ∧ t.offset < t.capacity ∧
      (rest ≠ [] → ∃ t' n u accepted, t.Fills rest t' n ∧
        t'.closeIfFull.outcome = .ok (u, accepted))) ∧
    ∃ k t s₁ accepted, Passes s xs k accepted t [] ∧ (s.push xs).outcome = .ok (s₁, accepted) ∧
      s₁ = t.relabel (s.tally.samplesAccepted + xs.length) false ∧
      s₁.offset < s₁.capacity ∧
      (s₁.conversion = .duplicateMono → setup.format.channels.toNat ∣ s₁.offset) := by
  have hopened := start_spec h₀
  have hrunning : s.stopped = false := (pushAll_of_running hopened.stopped_eq h).1
  obtain ⟨cs, r, run, hs⟩ := exists_run_of_pushAll h₀ h
  have hready : s.Ready := hs ▸ (run.ready hopened.ready).relabel _ _
  have hconversion : setup.conversion = .ok s.conversion := by
    rw [hs, hopened.conversion_eq, ← run.fixed.2.1]
    rfl
  constructor
  · intro k m t rest passes
    have ht := passes.ready hready
    refine ⟨passes.add_length_le hready, ht.offset_lt, ?_⟩
    intro hrest
    have hfills := ht.fills hrest
    obtain ⟨u, accepted, hclose, -⟩ := ht.exists_closeIfFull hfills.offset_le
    exact ⟨_, _, u, accepted, hfills, hclose⟩
  · obtain ⟨k, accepted, t, passes⟩ := (Passes.start : Passes s xs 0 0 s xs).exists_end hready
    have ht := passes.ready hready
    refine ⟨k, t, _, accepted, passes, ?_, rfl, ht.offset_lt, ?_⟩
    · rw [push_of_running hrunning]
      exact Logged.bind_ok (passes.consume_eq hready) rfl
    · intro hmono
      have htwice : t.conversion = .duplicateMono := hmono
      have hdvd := ht.factor_dvd_offset
      rw [passes.conversion_eq] at htwice
      rw [passes.conversion_eq, htwice] at hdvd
      rw [htwice] at hconversion
      rw [Setup.channels_of_duplicateMono hconversion]
      exact hdvd

theorem push_terminates_balky :
    ∃ (s₀ s t s₁ : Stream (Recorder ScriptedDevice)) (answers : List Nat) (k n : Nat),
      (start Allocator.standard shortPeriods { device := balky }).outcome = .ok s₀ ∧
      (s₀.pushAll [[1, 2, 3]]).outcome = .ok (s, answers) ∧
      Passes s [4, 5, 6, 7] k n t [] ∧ k ≤ 4 ∧ (s.push [4, 5, 6, 7]).outcome = .ok (s₁, n) ∧
      s₁.offset < s₁.capacity ∧ 2 ∣ s₁.offset := by
  obtain ⟨s₀, h₀, hconversion, -⟩ := start_balky
  obtain ⟨cs, s, answers, h, run, -⟩ := pushAll_run h₀ [[1, 2, 3]]
  obtain ⟨hpasses, k, t, s₁, n, passes, hpush, rfl, hlt, hframes⟩ :=
    push_terminates h₀ h [4, 5, 6, 7]
  have hmono : t.conversion = .duplicateMono :=
    (passes.conversion_eq.trans run.fixed.2.1).trans hconversion
  exact ⟨s₀, _, t, _, answers, k, n, h₀, h, passes, (hpasses _ _ _ _ passes).1, hpush, hlt,
    hframes hmono⟩

end EmulatorOutput.Sound.Stream
