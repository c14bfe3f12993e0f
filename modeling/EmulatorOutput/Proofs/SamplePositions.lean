import EmulatorOutput.Picture.Resample
import EmulatorOutput.Proofs.CheckedLoops
import Mathlib.Tactic.Ring

/-!
# Sample positions

Where a target coordinate falls in the source, without the checks of its arithmetic. The position
of a bilinear sample is the exact one rounded down to 1/256 of a source pixel.
-/

namespace EmulatorOutput.Picture

open Checked

/-- The source position of a target coordinate in steps of 1/256. -/
def ticks (dst srcSize dstSize : Nat) : Nat := 256 * ((srcSize - 1) * dst) / dstSize

def sampleAt (dst srcSize dstSize : Nat) : Sample where
  index := ticks dst srcSize dstSize / 256
  next := min (ticks dst srcSize dstSize / 256 + 1) (srcSize - 1)
  weight := ticks dst srcSize dstSize % 256

theorem fixed_div_eq_ticks (dst srcSize dstSize : Nat) :
    (srcSize - 1) * dst * 65536 / dstSize / 256 = ticks dst srcSize dstSize := by
  have hsplit : (srcSize - 1) * dst * 65536 = 256 * ((srcSize - 1) * dst) * 256 := by omega
  rw [Nat.div_div_eq_div_mul, hsplit, Nat.mul_div_mul_right _ _ (by decide), ticks]

/-- The sixteen bits below the point lose nothing that the eight bits of the weight keep. -/
theorem sampleAt_eq_fixed (dst srcSize dstSize : Nat) :
    sampleAt dst srcSize dstSize =
      { index := (srcSize - 1) * dst * 65536 / dstSize / 65536
        next := min ((srcSize - 1) * dst * 65536 / dstSize / 65536 + 1) (srcSize - 1)
        weight := (srcSize - 1) * dst * 65536 / dstSize / 256 % 256 } := by
  have hpos := fixed_div_eq_ticks dst srcSize dstSize
  have hindex : (srcSize - 1) * dst * 65536 / dstSize / 65536 =
      ticks dst srcSize dstSize / 256 := by
    rw [← hpos, Nat.div_div_eq_div_mul _ 256 256]
  rw [hindex, hpos, sampleAt]

theorem bilinearSample_eq_ok_iff {dst srcSize dstSize : Nat} {r : Sample} :
    bilinearSample dst srcSize dstSize = .ok r ↔
      (0 < srcSize ∧ (srcSize - 1) * dst * 65536 < Word.limit ∧ 0 < dstSize) ∧
        r = sampleAt dst srcSize dstSize := by
  rw [sampleAt_eq_fixed]
  simp only [bilinearSample, bind_eq_ok_iff, Word.sub_eq_ok_iff, Word.mul_eq_ok_iff,
    Word.div_eq_ok_iff]
  constructor
  · rintro ⟨_, ⟨hsrc, rfl⟩, _, ⟨-, rfl⟩, _, ⟨hfixed, rfl⟩, _, ⟨hdst, rfl⟩, h⟩
    cases h
    exact ⟨⟨hsrc, hfixed, Nat.pos_of_ne_zero hdst⟩, rfl⟩
  · rintro ⟨⟨hsrc, hfixed, hdst⟩, rfl⟩
    exact ⟨_, ⟨hsrc, rfl⟩, _, ⟨by omega, rfl⟩, _, ⟨hfixed, rfl⟩, _, ⟨by omega, rfl⟩, rfl⟩

theorem ticks_le {dst srcSize dstSize : Nat} (h : dst ≤ dstSize) :
    ticks dst srcSize dstSize ≤ 256 * (srcSize - 1) := by
  apply Nat.div_le_of_le_mul
  calc 256 * ((srcSize - 1) * dst) = 256 * (srcSize - 1) * dst := by rw [Nat.mul_assoc]
    _ ≤ 256 * (srcSize - 1) * dstSize := Nat.mul_le_mul_left _ h
    _ = dstSize * (256 * (srcSize - 1)) := Nat.mul_comm _ _

theorem sampleAt_index_lt {dst srcSize dstSize : Nat} (hsrc : 0 < srcSize) (h : dst ≤ dstSize) :
    (sampleAt dst srcSize dstSize).index < srcSize := by
  have hle : ticks dst srcSize dstSize ≤ 256 * (srcSize - 1) := ticks_le h
  change ticks dst srcSize dstSize / 256 < srcSize
  omega

theorem sampleAt_next_lt (dst dstSize : Nat) {srcSize : Nat} (hsrc : 0 < srcSize) :
    (sampleAt dst srcSize dstSize).next < srcSize := by
  change min _ (srcSize - 1) < srcSize
  omega

theorem sampleAt_weight_lt (dst srcSize dstSize : Nat) :
    (sampleAt dst srcSize dstSize).weight < 256 :=
  Nat.mod_lt _ (by decide)

/-- Where source and target are of one size, each sample lies between its own pixel and the one
before it. -/
theorem sampleAt_self {x n : Nat} (hx : x < n) :
    ((sampleAt x n n).index = x ∧ (sampleAt x n n).weight = 0) ∨
      ((sampleAt x n n).index + 1 = x ∧ (sampleAt x n n).next = x) := by
  rcases Nat.eq_zero_or_pos x with rfl | hpos
  · left
    simp [sampleAt, ticks]
  · right
    obtain ⟨y, rfl⟩ : ∃ y, x = y + 1 := ⟨x - 1, by omega⟩
    obtain ⟨m, rfl⟩ : ∃ m, n = m + 1 := ⟨n - 1, by omega⟩
    have hproduct : 256 * (m * (y + 1)) = 256 * y * (m + 1) + 256 * (m - y) := by
      obtain ⟨d, rfl⟩ : ∃ d, m = y + d := ⟨m - y, by omega⟩
      rw [Nat.add_sub_cancel_left]
      ring
    have hticks : ticks (y + 1) (m + 1) (m + 1) =
        256 * y + 256 * (m - y) / (m + 1) := by
      rw [ticks, Nat.add_sub_cancel, hproduct, Nat.add_comm,
        Nat.add_mul_div_right _ _ (Nat.succ_pos m), Nat.add_comm]
    have hpart : 256 * (m - y) / (m + 1) < 256 := by
      apply Nat.div_lt_of_lt_mul
      omega
    have hindex : ticks (y + 1) (m + 1) (m + 1) / 256 = y := by
      rw [hticks, Nat.mul_add_div (by decide), Nat.div_eq_of_lt hpart, Nat.add_zero]
    refine ⟨?_, ?_⟩
    · change ticks (y + 1) (m + 1) (m + 1) / 256 + 1 = y + 1
      rw [hindex]
    · change min (ticks (y + 1) (m + 1) (m + 1) / 256 + 1) m = y + 1
      omega

def nearestAt (dst srcSize dstSize : Nat) : Nat :=
  min ((dst * srcSize * 2 + dstSize) / (dstSize * 2)) (srcSize - 1)

theorem nearestAt_lt (dst dstSize : Nat) {srcSize : Nat} (hsrc : 0 < srcSize) :
    nearestAt dst srcSize dstSize < srcSize := by
  unfold nearestAt
  omega

theorem nearestIndex_eq_ok {dst srcSize dstSize r : Nat}
    (h : nearestIndex dst srcSize dstSize = .ok r) : r = nearestAt dst srcSize dstSize := by
  simp only [nearestIndex, bind_eq_ok_iff, Word.sub_eq_ok_iff, Word.mul_eq_ok_iff,
    Word.add_eq_ok_iff, Word.div_eq_ok_iff] at h
  obtain ⟨_, ⟨-, rfl⟩, _, ⟨-, rfl⟩, _, ⟨-, rfl⟩, _, ⟨-, rfl⟩, _, ⟨-, rfl⟩, _, ⟨-, rfl⟩, h⟩ := h
  cases h
  rfl

end EmulatorOutput.Picture
