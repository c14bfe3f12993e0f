import EmulatorOutput.Sound.Setup
import Mathlib.Algebra.Order.Floor.Div
import Mathlib.Algebra.Order.Ring.Nat

/-!
# Accepted set-ups

What a set-up has to be for a session to start, said without the order in which the check looks
at it, and the sizes that follow: periods of whole frames, and buffers with room for a period.
-/

namespace EmulatorOutput.Sound

theorem isPowerOfTwo_iff {n : Nat} : isPowerOfTwo n = true ↔ n.isPowerOfTwo := by
  rw [isPowerOfTwo, Bool.and_eq_true, bne_iff_ne, beq_iff_eq]
  exact Nat.ne_zero_and_sub_one_eq_zero_iff_isPowerOfTwo

theorem pos_of_isPowerOfTwo {n : Nat} (h : isPowerOfTwo n = true) : 0 < n := by
  obtain ⟨k, rfl⟩ := isPowerOfTwo_iff.mp h
  exact Nat.two_pow_pos k

/-- Rounding up to a power of two comes to a multiple of it just where the sum is a word. -/
theorem alignUp_eq_ok_iff {value alignment size : Nat} (hpower : isPowerOfTwo alignment = true) :
    alignUp value alignment = .ok size ↔
      value + alignment < Word.limit ∧ size = alignment * (value ⌈/⌉ alignment) := by
  have hpos := pos_of_isPowerOfTwo hpower
  by_cases hsum : value + alignment < Word.limit
  · obtain ⟨k, rfl⟩ := isPowerOfTwo_iff.mp hpower
    have hsplit := Nat.div_add_mod (value + 2 ^ k - 1) (2 ^ k)
    have hvalue : alignUp value (2 ^ k) = .ok (2 ^ k * (value ⌈/⌉ 2 ^ k)) := by
      rw [alignUp_of_lt hpos hsum, Nat.and_two_pow_sub_one_eq_mod]
      exact congrArg Except.ok (Nat.sub_eq_of_eq_add hsplit.symm)
    rw [hvalue, Except.ok.injEq, eq_comm]
    exact (and_iff_right hsum).symm
  · simp [alignUp_of_le (Nat.not_lt.mp hsum), hsum]

theorem isLeast_mul_ceilDiv {alignment : Nat} (hpos : 0 < alignment) (value : Nat) :
    IsLeast {n | alignment ∣ n ∧ value ≤ n} (alignment * (value ⌈/⌉ alignment)) := by
  refine ⟨⟨Nat.dvd_mul_right _ _, le_smul_ceilDiv hpos⟩, ?_⟩
  rintro _ ⟨⟨m, rfl⟩, hle⟩
  exact Nat.mul_le_mul_left _ ((ceilDiv_le_iff_le_mul hpos).mpr hle)

/-- What rounding up comes to is the least multiple that is not below the value. -/
theorem isLeast_alignUp {value alignment size : Nat} (hpower : isPowerOfTwo alignment = true)
    (h : alignUp value alignment = .ok size) :
    IsLeast {n | alignment ∣ n ∧ value ≤ n} size := by
  obtain ⟨-, rfl⟩ := (alignUp_eq_ok_iff hpower).mp h
  exact isLeast_mul_ceilDiv (pos_of_isPowerOfTwo hpower) value

theorem alignUp_lt {value alignment size : Nat} (hpower : isPowerOfTwo alignment = true)
    (h : alignUp value alignment = .ok size) : size < value + alignment := by
  have hpos := pos_of_isPowerOfTwo hpower
  obtain ⟨-, rfl⟩ := (alignUp_eq_ok_iff hpower).mp h
  calc alignment * (value ⌈/⌉ alignment)
      ≤ value + alignment - 1 := Nat.mul_div_le _ _
    _ < value + alignment := by omega

theorem Format.bytesPerSecond_lt (f : Format) : f.bytesPerSecond < Word.limit := by
  have hframe : f.frameBytes < UInt16.size * UInt16.size :=
    Nat.mul_lt_mul'' f.channels.toNat_lt_size f.bytesPerSample.toNat_lt_size
  calc f.bytesPerSecond
      < UInt32.size * (UInt16.size * UInt16.size) :=
        Nat.mul_lt_mul'' f.sampleRate.toNat_lt_size hframe
    _ = Word.limit := rfl

namespace Setup

/-- What the check asks of a set-up. -/
structure Accepted (s : Setup) : Prop where
  rate : s.format.sampleRate ≠ 0
  channels : 1 ≤ s.format.channels.toNat ∧ s.format.channels.toNat ≤ 2
  sampleSize : s.format.bytesPerSample = sampleBytes
  periods : s.periodsPerSecond ≠ 0
  alignment : isPowerOfTwo s.alignment.toNat = true
  nonempty : s.dataSize ≠ 0
  whole : s.dataSize % s.format.frameBytes = 0
  depth : s.queueDepth ≠ 0
  convertible : ∃ c, s.conversion = .ok c

theorem refuse_iff {α : Type} {c : Prop} [Decidable c] {e : Stop} {next : Unit → Except Stop α}
    {a : α} :
    (if c then throw e >>= next else next ()) = .ok a ↔ ¬ c ∧ next () = .ok a := by
  by_cases h : c
  · simp [h, bind, Except.bind, throw, throwThe, MonadExceptOf.throw]
  · simp [h]

theorem check_eq_ok_iff (s : Setup) : s.check = .ok () ↔ s.Accepted := by
  unfold check
  extract_lets invalid f convertible deep whole sized aligned periodic sampled channelled
  -- each test refuses, or hands on to the next
  have hchannelled : channelled () = .ok () ↔
      ¬ (f.channels.toNat < 1 ∨ 2 < f.channels.toNat) ∧ sampled () = .ok () := refuse_iff
  have hsampled : sampled () = .ok () ↔
      ¬ f.bytesPerSample ≠ sampleBytes ∧ periodic () = .ok () := refuse_iff
  have hperiodic : periodic () = .ok () ↔
      ¬ s.periodsPerSecond = 0 ∧ aligned () = .ok () := refuse_iff
  have haligned : aligned () = .ok () ↔
      ¬ ¬ isPowerOfTwo s.alignment.toNat = true ∧ sized () = .ok () := refuse_iff
  have hwhole : ∀ n, whole n = .ok () ↔ ¬ n ≠ 0 ∧ deep () = .ok () := fun _ => refuse_iff
  have hdeep : deep () = .ok () ↔ ¬ s.queueDepth = 0 ∧ convertible () = .ok () := refuse_iff
  have hconvertible : convertible () = .ok () ↔ ∃ c, s.conversion = .ok c := by
    cases hc : s.conversion with
    | ok c => simp [convertible, hc, pure, Except.pure]
    | error e => simp [convertible, hc, throw, throwThe, MonadExceptOf.throw]
  have hsized : sized () = .ok () ↔
      (s.dataSize ≠ 0 ∧ f.frameBytes ≠ 0 ∧ s.dataSize % f.frameBytes = 0) ∧ deep () = .ok () := by
    change (if s.dataSize = 0 then pure 1 >>= whole
      else liftM (Word.rem s.dataSize f.frameBytes) >>= whole) = _ ↔ _
    by_cases hz : s.dataSize = 0
    · rw [if_pos hz, pure_bind, hwhole]
      simp [hz]
    · rw [if_neg hz]
      unfold Word.rem
      by_cases hf : f.frameBytes = 0
      · rw [if_pos hf]
        change (Except.error (Stop.fault .remByZero) : Except Stop Unit) = _ ↔ _
        simp [hf]
      · rw [if_neg hf]
        change whole _ = _ ↔ _
        rw [hwhole]
        simp [hz, hf]
  rw [refuse_iff, hchannelled, hsampled, hperiodic, haligned, hsized, hdeep, hconvertible]
  constructor
  · rintro ⟨hrate, hchan, hsize, hper, halign, ⟨hne, -, hmod⟩, hdepth, hconv⟩
    obtain ⟨hlow, hhigh⟩ := not_or.mp hchan
    exact ⟨hrate, ⟨Nat.not_lt.mp hlow, Nat.not_lt.mp hhigh⟩, Decidable.not_not.mp hsize, hper,
      Decidable.not_not.mp halign, hne, hmod, hdepth, hconv⟩
  · intro h
    have hframe : f.frameBytes ≠ 0 := by
      have hbytes : f.bytesPerSample = sampleBytes := h.sampleSize
      have hpos : 1 ≤ f.channels.toNat := h.channels.1
      rw [Format.frameBytes, hbytes]
      exact Nat.mul_ne_zero (by omega) (by decide)
    have hchan : ¬ (f.channels.toNat < 1 ∨ 2 < f.channels.toNat) :=
      not_or.mpr ⟨Nat.not_lt.mpr h.channels.1, Nat.not_lt.mpr h.channels.2⟩
    exact ⟨h.rate, hchan, fun hs => hs h.sampleSize, h.periods, fun ha => ha h.alignment,
      ⟨h.nonempty, hframe, h.whole⟩, h.depth, h.convertible⟩

/-- Only a device of two channels is given every sample twice. -/
theorem channels_of_duplicateMono {s : Setup} (h : s.conversion = .ok .duplicateMono) :
    s.format.channels.toNat = 2 := by
  simp only [conversion] at h
  split at h
  · cases h
  · split at h
    · rename_i hmono
      exact hmono.2
    · cases h

theorem dataSize_lt (s : Setup) : s.dataSize < Word.limit :=
  Nat.lt_of_le_of_lt (Nat.div_le_self _ _) s.format.bytesPerSecond_lt

namespace Accepted

variable {s : Setup} (h : s.Accepted)

include h

theorem depth_pos : 0 < s.queueDepth.toNat :=
  Nat.pos_of_ne_zero fun h0 => h.depth (UInt64.toNat_inj.mp h0)

theorem frameBytes_eq : s.format.frameBytes = s.format.channels.toNat * 2 := by
  rw [Format.frameBytes, h.sampleSize]
  rfl

theorem periodSamples_eq : s.periodSamples = .ok (s.dataSize / 2) := by
  rw [periodSamples, h.sampleSize]
  rfl

theorem two_mul_dataSize_div : 2 * (s.dataSize / 2) = s.dataSize := by
  have hdvd : 2 ∣ s.dataSize :=
    Nat.dvd_trans (Nat.dvd_mul_left 2 _) (h.frameBytes_eq ▸ Nat.dvd_of_mod_eq_zero h.whole)
  exact Nat.mul_div_cancel' hdvd

/-- The format of an accepted set-up can be named. -/
theorem exists_describe : ∃ text, s.format.describe = .ok text := by
  rw [Format.describe, h.sampleSize]
  exact ⟨_, rfl⟩

theorem dataSize_le : s.dataSize ≤ 4 * UInt32.size := by
  have hrate := s.format.sampleRate.toNat_lt_size
  have hframe : s.format.frameBytes ≤ 4 := by
    have hchannels := h.channels.2
    rw [h.frameBytes_eq]
    omega
  calc s.dataSize
      ≤ s.format.bytesPerSecond := Nat.div_le_self _ _
    _ ≤ UInt32.size * 4 := Nat.mul_le_mul (Nat.le_of_lt hrate) hframe
    _ = 4 * UInt32.size := Nat.mul_comm _ _

/-- A word that is a power of two is at most half of all there are. -/
theorem alignment_le : s.alignment.toNat ≤ Word.limit / 2 := by
  obtain ⟨k, hk⟩ := isPowerOfTwo_iff.mp h.alignment
  have hlt := s.alignment.toNat_lt
  rw [hk] at hlt ⊢
  have hexp : k < 64 := (Nat.pow_lt_pow_iff_right (by decide)).mp hlt
  exact Nat.pow_le_pow_right (by decide) (Nat.le_of_lt_succ hexp)

theorem dataSize_add_lt : s.dataSize + s.alignment.toNat < Word.limit := by
  have hdata := h.dataSize_le
  have halignment := h.alignment_le
  have hlimit : 4 * UInt32.size + Word.limit / 2 < Word.limit := by decide
  omega

/-- The buffer of a period is the least of whole samples and whole alignments. -/
theorem exists_bufferSize : ∃ size, s.bufferSize = .ok size ∧ s.dataSize ≤ size ∧ size % 2 = 0 := by
  have hsize : s.bufferSize = .ok (s.alignment.toNat * (s.dataSize ⌈/⌉ s.alignment.toNat)) :=
    (alignUp_eq_ok_iff h.alignment).mpr ⟨h.dataSize_add_lt, rfl⟩
  obtain ⟨⟨hdvd, hle⟩, -⟩ := isLeast_alignUp h.alignment hsize
  refine ⟨_, hsize, hle, ?_⟩
  obtain ⟨k, hk⟩ := isPowerOfTwo_iff.mp h.alignment
  cases k with
  | zero =>
    have hwhole := h.two_mul_dataSize_div
    rw [hk, Nat.pow_zero, ceilDiv_one, Nat.one_mul]
    omega
  | succ k =>
    have heven : 2 ∣ s.alignment.toNat := hk ▸ Nat.dvd_mul_left 2 (2 ^ k)
    exact Nat.mod_eq_zero_of_dvd (Nat.dvd_trans heven hdvd)

/-- A period holds a whole number of the device samples that one source sample is made into. -/
theorem factor_dvd {c : Conversion} (hc : s.conversion = .ok c) : c.factor ∣ s.dataSize / 2 := by
  cases c with
  | direct => exact Nat.one_dvd _
  | duplicateMono =>
    have hchannels := channels_of_duplicateMono hc
    have hwhole := h.whole
    rw [h.frameBytes_eq, hchannels] at hwhole
    change 2 ∣ s.dataSize / 2
    omega

end Accepted

end Setup

end EmulatorOutput.Sound
