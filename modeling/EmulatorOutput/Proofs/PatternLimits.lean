import EmulatorOutput.Proofs.PatternSound
import Mathlib.Data.Int.GCD
import Mathlib.Tactic.Ring

/-!
# The limits of the test pattern

The pattern takes rate and tone as they are set, and works on both in 32 bits: the rate with the
remainder carried from the frames before, and the doubled tone. Both can be too large. Nothing else
breaks a cycle off.
-/

namespace EmulatorOutput.Session.TestPattern

open Checked (Ends)
open Picture (sourceWidth)
open Sound (Layout)

/-! ## Remainders -/

section Remainders

variable {m : ℕ} (r : ℕ)

/-- The remainders of the multiples of a number are multiples of its common divisor with the
modulus. -/
theorem mul_mod_add_gcd_le (hm : 0 < m) (k : ℕ) : k * r % m + r.gcd m ≤ m := by
  have hdvd : r.gcd m ∣ m - k * r % m := by
    apply Nat.dvd_sub (Nat.gcd_dvd_right r m)
    exact (Nat.dvd_mod_iff (Nat.gcd_dvd_right r m)).mpr
      (Dvd.dvd.mul_left (Nat.gcd_dvd_left r m) k)
  have hlt := Nat.mod_lt (k * r) hm
  have hle := Nat.le_of_dvd (Nat.sub_pos_of_lt hlt) hdvd
  omega

/-- The largest of them is reached. -/
theorem exists_mul_mod_add_gcd_eq (hm : 0 < m) : ∃ k, k * r % m + r.gcd m = m := by
  have hpos : 0 < r.gcd m := Nat.gcd_pos_of_pos_right r hm
  rcases Nat.lt_or_ge (r.gcd m) m with hlt | hge
  · obtain ⟨k, -, hk⟩ := Nat.exists_mul_mod_eq_gcd hlt
    have hsplit : r.gcd m * (m - 1) = m - r.gcd m + m * (r.gcd m - 1) := by
      obtain ⟨g, hg⟩ : ∃ g, r.gcd m = g + 1 := Nat.exists_eq_add_of_le' hpos
      obtain ⟨d, hd⟩ : ∃ d, m = g + d + 1 := ⟨m - (g + 1), by omega⟩
      have hrest : m - (g + 1) = d := by omega
      rw [hg, hrest, hd, Nat.add_sub_cancel, Nat.add_sub_cancel]
      ring
    have hmod : k * (m - 1) * r % m = m - r.gcd m := by
      rw [Nat.mul_right_comm, Nat.mul_comm k r, ← Nat.mod_mul_mod, hk, hsplit,
        Nat.add_mul_mod_self_left, Nat.mod_eq_of_lt (Nat.sub_lt hm hpos)]
    exact ⟨k * (m - 1), by omega⟩
  · have heq : r.gcd m = m := Nat.le_antisymm (Nat.gcd_le_right r hm) hge
    exact ⟨0, by simp [heq]⟩

end Remainders

/-! ## Cycles that break off -/

/-- Why a cycle breaks off that comes after `n` others since the start or the last reset. The tone
is only looked at in cycles that deliver sound. -/
inductive Overflows (rate tone : UInt32) (n : Nat) : Fault → Prop where
  | rate (h : UInt32.size ≤ rate.toNat + n * rate.toNat % 60) : Overflows rate tone n .addOverflow
  | tone (hrate : rate.toNat + n * rate.toNat % 60 < UInt32.size)
    (hdue : delivered rate n < delivered rate (n + 1)) (h : UInt32.size ≤ 2 * tone.toNat) :
    Overflows rate tone n .mulOverflow

variable {rate : UInt32} {layout : Layout} {tone : UInt32} {n : Nat} {p : TestPattern}

theorem toneAt_eq_error (htone : UInt32.size ≤ 2 * p.tone.toNat) (position : Nat) :
    p.toneAt position = .error .mulOverflow := by
  have hperiod : Word.mulBelow UInt32.size 2 p.tone.toNat = .error .mulOverflow :=
    if_neg (Nat.not_lt_of_le htone)
  rw [toneAt, halfPeriod, hperiod]
  rfl

/-- The first sample of a burst finds that the tone is too high. -/
theorem burst_eq_error (htone : UInt32.size ≤ 2 * p.tone.toNat)
    (hposition : p.position < Word.limit) {length : Nat} (hlength : 0 < length) :
    p.burst length = .error .mulOverflow := by
  obtain ⟨rest, rfl⟩ : ∃ rest, length = rest + 1 := Nat.exists_eq_add_of_le' hlength
  have hfirst : Word.add p.position 0 = .ok p.position := Word.add_eq_ok_iff.mpr ⟨hposition, rfl⟩
  rw [burst, List.range_succ_eq_map, List.mapM_cons, hfirst]
  change ((p.toneAt p.position >>= _) >>= _) = _
  rw [toneAt_eq_error htone]
  rfl

theorem cycle_eq_error_of_tone (htone : UInt32.size ≤ 2 * p.tone.toNat)
    (hposition : p.position < Word.limit) (hrate : p.sampleRate.toNat + p.carry < UInt32.size)
    (hdue : 0 < p.due) : p.cycle = .error .mulOverflow := by
  have hsum : Word.addBelow UInt32.size p.sampleRate.toNat p.carry =
      .ok (p.sampleRate.toNat + p.carry) := if_pos hrate
  obtain ⟨hlengths, hpos⟩ := burstLengths_spec p.random p.due
  cases hcut : (burstLengths p.random p.due).2 with
  | nil =>
    rw [hcut] at hlengths
    exact absurd hlengths hdue.ne
  | cons length rest =>
    rw [hcut] at hpos
    have hfirst := (hpos length List.mem_cons_self).1
    have hburst : ∀ carry random,
        ({ p with carry, random } : TestPattern).burst length = .error .mulOverflow :=
      fun carry random => burst_eq_error (p := { p with carry, random }) htone hposition hfirst
    rw [due] at hcut
    simp [cycle, framesDue, hsum, hcut, bursts, hburst, bind, Except.bind, pure, Except.pure]

theorem cycle_eq_error_of_rate (hrate : UInt32.size ≤ p.sampleRate.toNat + p.carry) :
    p.cycle = .error .addOverflow := by
  have hsum : Word.addBelow UInt32.size p.sampleRate.toNat p.carry = .error .addOverflow :=
    if_neg (Nat.not_lt_of_le hrate)
  rw [cycle, framesDue, hsum]
  rfl

theorem Played.two_mul_tone (h : Played rate layout tone n p) :
    UInt32.size ≤ 2 * p.tone.toNat ↔ UInt32.size ≤ 2 * tone.toNat := by
  have hsmall : 2 * 1 < UInt32.size := by decide
  rw [h.tone_eq, toNat_max_one]
  omega

/-- A cycle breaks off for an overflow, or there is none. -/
theorem Played.cycle_overflows (h : Played rate layout tone n p)
    (hdelivered : delivered rate (n + 1) < Word.limit) (hframe : sourceWidth - 1 + n < Word.limit)
    (wanted : Bool) :
    Ends (Core.cycle p wanted) (fun r => Played rate layout tone (n + 1) r.1 ∧
      ∀ f, ¬ Overflows rate tone n f) (Overflows rate tone n) := by
  have hsum : p.sampleRate.toNat + p.carry = rate.toNat + n * rate.toNat % 60 := by
    rw [h.sampleRate_eq, h.carry_eq]
    rfl
  have hgrows := delivered_le rate n 1
  rcases Nat.lt_or_ge (rate.toNat + n * rate.toNat % 60) UInt32.size with hrate | hrate
  · by_cases htone : delivered rate n < delivered rate (n + 1) ∧ UInt32.size ≤ 2 * tone.toNat
    · obtain ⟨hdue, htone⟩ := htone
      have hcycle : Core.cycle p wanted = .error .mulOverflow := by
        apply cycle_eq_error_of_tone (h.two_mul_tone.mpr htone)
        · rw [h.position_eq]
          omega
        · rwa [hsum]
        · rw [h.due_eq]
          omega
      rw [hcycle]
      exact .tone hrate hdue htone
    · have hfits : delivered rate n < delivered rate (n + 1) → 2 * p.tone.toNat < UInt32.size := by
        intro hdue
        exact Nat.lt_of_not_le fun hover => htone ⟨hdue, h.two_mul_tone.mp hover⟩
      obtain ⟨q, actions, hq⟩ := h.exists_cycle hrate hfits hdelivered hframe wanted
      rw [hq]
      refine ⟨(h.cycle hq).1, ?_⟩
      rintro f (hover | ⟨-, hdue, hover⟩)
      · omega
      · exact htone ⟨hdue, hover⟩
  · have hcycle : Core.cycle p wanted = .error .addOverflow :=
      cycle_eq_error_of_rate (hsum ▸ hrate)
    rw [hcycle]
    exact .rate hrate

/-- Successive cycles break off for the first overflow among them, or there is none. -/
theorem Played.deliveries_overflow (h : Played rate layout tone n p) (wants : List Bool)
    (hdelivered : delivered rate (n + wants.length) < Word.limit)
    (hframe : sourceWidth - 1 + (n + wants.length) ≤ Word.limit) :
    Ends (deliveries wants p)
      (fun _ => ∀ k < wants.length, ∀ f, ¬ Overflows rate tone (n + k) f)
      fun f => ∃ k < wants.length, Overflows rate tone (n + k) f ∧
        ∀ j < k, ∀ g, ¬ Overflows rate tone (n + j) g := by
  induction wants generalizing n p with
  | nil => exact nofun
  | cons wanted later ih =>
    rw [List.length_cons] at hdelivered hframe ⊢
    have hgrows := delivered_le rate (n + 1) later.length
    rw [Nat.add_right_comm, Nat.add_assoc] at hgrows
    have hshift : ∀ k, n + 1 + k = n + (k + 1) := fun k => by omega
    have hfirst := h.cycle_overflows (by omega) (by omega) wanted
    refine Ends.bind (hfirst.mono_fail fun f hf => ⟨0, Nat.succ_pos _, hf, nofun⟩) ?_
    rintro ⟨q, actions⟩ ⟨hq, hnone⟩
    have hsucc : ∀ k, (∀ j < k, ∀ g, ¬ Overflows rate tone (n + 1 + j) g) →
        ∀ j < k + 1, ∀ g, ¬ Overflows rate tone (n + j) g := by
      intro k hlater j hj
      cases j with
      | zero => exact hnone
      | succ j => exact hshift j ▸ hlater j (Nat.lt_of_succ_lt_succ hj)
    have hrest := ih hq (by rwa [Nat.add_right_comm, Nat.add_assoc]) (by omega)
    refine Ends.bind (hrest.mono_fail ?_) fun _ hlater => hsucc later.length hlater
    rintro f ⟨k, hk, hf, hlater⟩
    exact ⟨k + 1, Nat.succ_lt_succ hk, hshift k ▸ hf, hsucc k hlater⟩

/-- A tone that is too high overflows in some cycle as soon as sound has been due. -/
theorem exists_overflows_of_tone (htone : UInt32.size ≤ 2 * tone.toNat)
    (hdue : 0 < delivered rate n) : ∃ k < n, ∃ f, Overflows rate tone k f := by
  induction n with
  | zero => simp [delivered] at hdue
  | succ n ih =>
    rcases Nat.eq_zero_or_pos (delivered rate n) with hzero | hpos
    · refine ⟨n, Nat.lt_succ_self n, ?_⟩
      rcases Nat.lt_or_ge (rate.toNat + n * rate.toNat % 60) UInt32.size with hrate | hrate
      · exact ⟨_, .tone hrate (hzero ▸ hdue) htone⟩
      · exact ⟨_, .rate hrate⟩
    · obtain ⟨k, hk, hf⟩ := ih hpos
      exact ⟨k, Nat.lt_succ_of_lt hk, hf⟩

/-- A rate that is too large for its remainder delivers sound in its first cycle, and has no
remainder then. A tone that is too high is found first. -/
theorem overflows_zero_of_tone (htone : UInt32.size ≤ 2 * tone.toNat) {k : Nat}
    (hrate : UInt32.size ≤ rate.toNat + k * rate.toNat % 60) :
    0 < k ∧ Overflows rate tone 0 .mulOverflow := by
  have hlt : rate.toNat < UInt32.size := rate.toNat_lt_size
  have hmod := Nat.mod_lt (k * rate.toNat) (show 0 < 60 by decide)
  have hsize : 120 ≤ UInt32.size := by decide
  constructor
  · rcases Nat.eq_zero_or_pos k with rfl | hk
    · simp at hrate
      omega
    · exact hk
  · apply Overflows.tone
    · simpa using hlt
    · simp only [delivered, framesPerSecond]
      omega
    · exact htone

/-- Why `n` cycles break off after the start or a reset. -/
inductive BreakCause (rate tone : UInt32) (n : Nat) : Fault → Prop where
  | tone (htone : 2 ^ 31 ≤ tone.toNat) (hdue : 60 ≤ n * rate.toNat) :
    BreakCause rate tone n .mulOverflow
  | rate (htone : tone.toNat < 2 ^ 31) {k : Nat} (hk : k < n)
    (hrate : 2 ^ 32 ≤ rate.toNat + k * rate.toNat % 60) : BreakCause rate tone n .addOverflow

theorem breakCause_iff {f : Fault} : BreakCause rate tone n f ↔
    (f = .mulOverflow ∧ 2 ^ 31 ≤ tone.toNat ∧ 60 ≤ n * rate.toNat) ∨
    (f = .addOverflow ∧ tone.toNat < 2 ^ 31 ∧
      ∃ k < n, 2 ^ 32 ≤ rate.toNat + k * rate.toNat % 60) := by
  constructor
  · rintro (⟨htone, hdue⟩ | ⟨htone, hk, hrate⟩)
    · exact .inl ⟨rfl, htone, hdue⟩
    · exact .inr ⟨rfl, htone, _, hk, hrate⟩
  · rintro (⟨rfl, htone, hdue⟩ | ⟨rfl, htone, k, hk, hrate⟩)
    · exact .tone htone hdue
    · exact .rate htone hk hrate

theorem BreakCause.unique {f g : Fault} (hf : BreakCause rate tone n f)
    (hg : BreakCause rate tone n g) : f = g := by
  cases hf with
  | tone htone =>
    cases hg with
    | tone => rfl
    | rate hlow => omega
  | rate hlow =>
    cases hg with
    | tone htone => omega
    | rate => rfl

theorem size_le_two_mul_iff : UInt32.size ≤ 2 * tone.toNat ↔ 2 ^ 31 ≤ tone.toNat := by
  have hsize : UInt32.size = 2 ^ 32 := rfl
  omega

/-- The first overflow decides. -/
theorem Overflows.breakCause {k : Nat} {f : Fault} (h : Overflows rate tone k f)
    (hfirst : ∀ j < k, ∀ g, ¬ Overflows rate tone j g) (hk : k < n) :
    BreakCause rate tone n f := by
  cases h with
  | rate hrate =>
    refine .rate (Nat.lt_of_not_le fun htone => ?_) hk hrate
    obtain ⟨hpos, hzero⟩ := overflows_zero_of_tone (size_le_two_mul_iff.mpr htone) hrate
    exact hfirst 0 hpos _ hzero
  | tone hrate hdue htone =>
    have hle : (k + 1) * rate.toNat ≤ n * rate.toNat := Nat.mul_le_mul_right _ hk
    refine .tone (size_le_two_mul_iff.mp htone) ?_
    simp only [delivered, framesPerSecond] at hdue
    omega

theorem BreakCause.exists_overflows {f : Fault} (h : BreakCause rate tone n f) :
    ∃ k < n, ∃ g, Overflows rate tone k g := by
  cases h with
  | tone htone hdue =>
    exact exists_overflows_of_tone (size_le_two_mul_iff.mpr htone) (Nat.div_pos hdue (by decide))
  | rate htone hk hrate => exact ⟨_, hk, _, .rate hrate⟩

/-- Cycles of the pattern break off for an overflow only, and exactly then: when the tone is so high
that its double is no word of 32 bits and a sample is due, or else when the rate and a remainder
that was carried to one of the cycles do not add up to one. The remainders come as close to 60 as
the common divisor of the rate and 60 permits. -/
theorem cycles_break_off_iff (rate : UInt32) (layout : Layout) (tone : UInt32) {p : TestPattern}
    (hp : p = create rate layout tone ∨
      ∃ q, Core.Reached (create rate layout tone) q ∧ p = Core.reset q)
    {n : Nat} {wants : List Bool} (hn : wants.length = n) (hsamples : n * rate.toNat < 2 ^ 63)
    (hframes : n < 2 ^ 63) :
    (∀ f, deliveries wants p = .error f ↔
      (f = .mulOverflow ∧ 2 ^ 31 ≤ tone.toNat ∧ 60 ≤ n * rate.toNat) ∨
      (f = .addOverflow ∧ tone.toNat < 2 ^ 31 ∧
        ∃ k < n, 2 ^ 32 ≤ rate.toNat + k * rate.toNat % 60)) ∧
    ((∀ k, rate.toNat + k * rate.toNat % 60 < 2 ^ 32) ↔
      rate.toNat + 60 < 2 ^ 32 + rate.toNat.gcd 60) := by
  subst hn
  have hlimit : Word.limit = 2 ^ 64 := rfl
  have hwidth : sourceWidth = 160 := rfl
  have hdelivered : delivered rate (0 + wants.length) < Word.limit := by
    rw [Nat.zero_add, delivered]
    exact Nat.lt_of_le_of_lt (Nat.div_le_self _ _) (by omega)
  have hends := (played_of_start hp).deliveries_overflow wants hdelivered (by omega)
  simp only [Nat.zero_add] at hends
  refine ⟨fun f => Iff.trans ⟨?_, ?_⟩ breakCause_iff, ?_, ?_⟩
  · intro hf
    obtain ⟨k, hk, hover, hfirst⟩ := hends.fail_of_error hf
    exact hover.breakCause hfirst hk
  · intro hcause
    cases hd : deliveries wants p with
    | ok cycles =>
      obtain ⟨k, hk, g, hover⟩ := hcause.exists_overflows
      exact absurd hover (hends.post_of_ok hd k hk g)
    | error g =>
      obtain ⟨k, hk, hover, hfirst⟩ := hends.fail_of_error hd
      rw [(hover.breakCause hfirst hk).unique hcause]
  · intro hfits
    obtain ⟨k, hk⟩ := exists_mul_mod_add_gcd_eq rate.toNat (show 0 < 60 by decide)
    have hlast := hfits k
    omega
  · intro hrate k
    have hmost := mul_mod_add_gcd_le rate.toNat (show 0 < 60 by decide) k
    omega

/-- At the highest rate the remainder of the first cycle breaks off the second. -/
theorem cycles_break_off_iff_highestRate :
    (∃ cycles, deliveries [true] (create 4294967295 .mono 440) = .ok cycles) ∧
      Session.deliveries [true, true] (create 4294967295 .mono 440) = .error .addOverflow := by
  have hone := (cycles_break_off_iff 4294967295 .mono 440 (.inl rfl)
    (show [true].length = 1 from rfl) (by decide) (by decide)).1
  have htwo := (cycles_break_off_iff 4294967295 .mono 440 (.inl rfl)
    (show [true, true].length = 2 from rfl) (by decide) (by decide)).1
  constructor
  · cases h : Session.deliveries [true] (create 4294967295 .mono 440) with
    | ok cycles => exact ⟨cycles, rfl⟩
    | error f =>
      have hcause := (hone f).mp h
      simp at hcause
  · exact (htwo .addOverflow).mpr (.inr ⟨rfl, by decide, 1, by decide, by decide⟩)

/-- A tone of 2147483648 Hz is one too high for the first sample. -/
theorem cycle_breaks_off_highTone :
    Session.deliveries [true] (create 240 .mono 2147483648) = .error .mulOverflow := by
  have hcycle : Core.cycle (create 240 .mono 2147483648) true = .error .mulOverflow :=
    cycle_eq_error_of_tone (by decide) (by decide) (by decide) (by decide)
  rw [deliveries, hcycle]
  rfl

end EmulatorOutput.Session.TestPattern
