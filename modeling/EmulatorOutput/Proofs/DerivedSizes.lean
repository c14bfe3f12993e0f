import EmulatorOutput.Proofs.OpeningEndings

/-!
# Derived sizes

The sizes that follow from a set-up. Checking a set-up never breaks off, and from what the check
accepts every size can be computed: periods of whole frames, buffers of whole alignments with room
for a period, and the time that a period plays for.
-/

namespace EmulatorOutput.Sound.Setup

open Checked

/-- No period is longer than a second. -/
theorem frames_le (s : Setup) :
    s.dataSize / s.format.frameBytes ≤ s.format.sampleRate.toNat := by
  apply Nat.div_le_of_le_mul
  calc s.dataSize
      ≤ s.format.bytesPerSecond := Nat.div_le_self _ _
    _ = s.format.frameBytes * s.format.sampleRate.toNat := Nat.mul_comm _ _

namespace Accepted

variable {s : Setup} (h : s.Accepted)

include h

theorem dataSize_eq :
    s.dataSize = s.format.sampleRate.toNat * s.format.channels.toNat * 2 /
      s.periodsPerSecond.toNat := by
  have hperiods : 1 ≤ s.periodsPerSecond.toNat :=
    Nat.pos_of_ne_zero fun h0 => h.periods (UInt32.toNat_inj.mp h0)
  rw [dataSize, Format.bytesPerSecond, h.frameBytes_eq, Nat.max_eq_left hperiods, Nat.mul_assoc]

theorem frame_dvd : s.format.channels.toNat * 2 ∣ s.dataSize :=
  h.frameBytes_eq ▸ Nat.dvd_of_mod_eq_zero h.whole

/-- A period has samples for whole frames. -/
theorem channels_dvd : s.format.channels.toNat ∣ s.dataSize / 2 :=
  Nat.dvd_div_of_mul_dvd (Nat.mul_comm _ 2 ▸ h.frame_dvd)

theorem periodNanos_eq :
    s.periodNanos = .ok (s.dataSize / (s.format.channels.toNat * 2) * 1000000000 /
      s.format.sampleRate.toNat) := by
  have hrate : 1 ≤ s.format.sampleRate.toNat :=
    Nat.pos_of_ne_zero fun h0 => h.rate (UInt32.toNat_inj.mp h0)
  have hframe : s.format.frameBytes ≠ 0 := by
    have hchannels := h.channels.1
    rw [h.frameBytes_eq]
    omega
  have hword : s.dataSize / s.format.frameBytes * 1000000000 < Word.limit := by
    calc s.dataSize / s.format.frameBytes * 1000000000
        ≤ UInt32.size * 1000000000 :=
          Nat.mul_le_mul_right _ (Nat.le_trans s.frames_le s.format.sampleRate.toNat_lt_size.le)
      _ < Word.limit := by decide
  have hframes : s.format.framesIn s.dataSize = .ok (s.dataSize / s.format.frameBytes) :=
    Word.div_eq_ok_iff.mpr ⟨hframe, rfl⟩
  rw [periodNanos, Format.nanosOf, ← h.frameBytes_eq, bind_eq_ok_iff]
  refine ⟨_, hframes, ?_⟩
  rw [bind_eq_ok_iff]
  refine ⟨_, Word.mul_eq_ok_iff.mpr ⟨hword, rfl⟩, ?_⟩
  rw [Nat.max_eq_left hrate]
  rfl

end Accepted

/-- The check of a set-up never breaks off, and what it accepts has sound sizes, all of which are
words. A period is as many bytes as its share of a second comes to, and these are whole frames;
its buffer is less than one alignment longer; and it plays for as long as its frames take. -/
theorem sizes_of_check (s : Setup) :
    let rate := s.format.sampleRate.toNat
    let channels := s.format.channels.toNat
    let alignment := s.alignment.toNat
    (s.check = .ok () ∨ ∃ e, s.check = .error (.failure e)) ∧
    s.format.bytesPerSecond < Word.limit ∧
    (s.check = .ok () →
      s.dataSize = rate * channels * 2 / s.periodsPerSecond.toNat ∧
      0 < s.dataSize ∧ channels * 2 ∣ s.dataSize ∧
      (∃ samples, s.periodSamples = .ok samples ∧ samples * 2 = s.dataSize ∧
        channels ∣ samples) ∧
      (∃ size, s.bufferSize = .ok size ∧ alignment ∣ size ∧ s.dataSize ≤ size ∧
        size < s.dataSize + alignment ∧ s.dataSize + alignment < Word.limit) ∧
      (∃ c, s.conversion = .ok c) ∧
      s.periodNanos = .ok (s.dataSize / (channels * 2) * 1000000000 / rate)) := by
  intro rate channels alignment
  refine ⟨?_, s.format.bytesPerSecond_lt, fun hcheck => ?_⟩
  · by_cases h : s.Accepted
    · exact .inl ((check_eq_ok_iff s).mpr h)
    · exact .inr (check_refuses h)
  · have h : s.Accepted := (check_eq_ok_iff s).mp hcheck
    obtain ⟨size, hsize, hle, -⟩ := h.exists_bufferSize
    have hleast := isLeast_alignUp h.alignment hsize
    have hhalf : s.dataSize / 2 * 2 = s.dataSize := by
      rw [Nat.mul_comm]
      exact h.two_mul_dataSize_div
    exact ⟨h.dataSize_eq, Nat.pos_of_ne_zero h.nonempty, h.frame_dvd,
      ⟨_, h.periodSamples_eq, hhalf, h.channels_dvd⟩,
      ⟨size, hsize, hleast.1.1, hle, alignUp_lt h.alignment hsize, h.dataSize_add_lt⟩,
      h.convertible, h.periodNanos_eq⟩

/-- The highest rate and the widest alignment there are. -/
def extreme : Setup where
  format := { sampleRate := 4294967295 }
  periodsPerSecond := 1
  alignment := 9223372036854775808

theorem sizes_of_check_extreme :
    extreme.check = .ok () ∧ extreme.dataSize = 17179869180 ∧
      extreme.bufferSize = .ok 9223372036854775808 ∧ extreme.periodNanos = .ok 1000000000 := by
  have hcheck : extreme.check = .ok () := rfl
  obtain ⟨-, -, hsizes⟩ := sizes_of_check extreme
  obtain ⟨hdata, -, -, -, ⟨size, hsize, ⟨m, hm⟩, hle, hlt, -⟩, -, hnanos⟩ := hsizes hcheck
  have hlength : extreme.dataSize = 17179869180 := hdata
  have halignment : extreme.alignment.toNat = 9223372036854775808 := rfl
  rw [halignment] at hm
  rw [hlength, halignment] at hlt
  rw [hlength] at hle
  have hone : m = 1 := by omega
  rw [hm, hone] at hsize
  exact ⟨hcheck, hlength, hsize, hnanos⟩

end EmulatorOutput.Sound.Setup
