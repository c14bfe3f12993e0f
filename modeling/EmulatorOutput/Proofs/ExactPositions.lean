import EmulatorOutput.Proofs.SamplePositions
import Mathlib.Algebra.Order.Floor.Semifield
import Mathlib.Data.Rat.Floor
import Mathlib.Tactic.Linarith
import Mathlib.Tactic.Positivity

/-!
# Exact positions

The position of a bilinear sample against the exact one. Product, quotient and shifts together
round down once: index and weight are the digits of 256 times the exact position, and the last
coordinate of the target still lies before the last source pixel.
-/

namespace EmulatorOutput.Picture

/-- The source position of a target coordinate. -/
def exactPosition (dst srcSize dstSize : Nat) : ℚ := ((srcSize - 1 : ℕ) : ℚ) * dst / dstSize

theorem exactPosition_eq (dst srcSize dstSize : Nat) :
    exactPosition dst srcSize dstSize = (((srcSize - 1) * dst : ℕ) : ℚ) / dstSize := by
  rw [exactPosition, Nat.cast_mul]

theorem floor_exactPosition (dst srcSize dstSize : Nat) :
    ⌊exactPosition dst srcSize dstSize⌋₊ = (sampleAt dst srcSize dstSize).index := by
  rw [exactPosition_eq, Nat.floor_div_eq_div]
  change _ = ticks dst srcSize dstSize / 256
  rw [ticks, Nat.div_div_eq_div_mul, Nat.mul_comm dstSize, Nat.mul_div_mul_left _ _ (by decide)]

theorem ticks_eq_floor (dst srcSize dstSize : Nat) :
    ticks dst srcSize dstSize = ⌊256 * exactPosition dst srcSize dstSize⌋₊ := by
  have hcast : 256 * exactPosition dst srcSize dstSize =
      ((256 * ((srcSize - 1) * dst) : ℕ) : ℚ) / dstSize := by
    rw [exactPosition_eq, Nat.cast_mul 256]
    push_cast
    ring
  rw [hcast, Nat.floor_div_eq_div, ticks]

theorem sampleAt_digits (dst srcSize dstSize : Nat) :
    (sampleAt dst srcSize dstSize).index * 256 + (sampleAt dst srcSize dstSize).weight =
      ticks dst srcSize dstSize :=
  Nat.div_add_mod' _ 256

/-- The weight of a sample is the part of its position behind the pixel, rounded down to 1/256. -/
theorem weight_bounds (dst srcSize dstSize : Nat) :
    let r := sampleAt dst srcSize dstSize
    (r.weight : ℚ) / 256 ≤ exactPosition dst srcSize dstSize - r.index ∧
      exactPosition dst srcSize dstSize - r.index < (r.weight : ℚ) / 256 + 1 / 256 := by
  intro r
  have hticks := ticks_eq_floor dst srcSize dstSize
  have hpos : 0 ≤ 256 * exactPosition dst srcSize dstSize := by
    rw [exactPosition_eq]
    positivity
  have hsplit : (r.index : ℚ) * 256 + r.weight = ticks dst srcSize dstSize := by
    exact_mod_cast sampleAt_digits dst srcSize dstSize
  have hle : (ticks dst srcSize dstSize : ℚ) ≤ 256 * exactPosition dst srcSize dstSize :=
    hticks ▸ Nat.floor_le hpos
  have hlt : 256 * exactPosition dst srcSize dstSize < (ticks dst srcSize dstSize : ℚ) + 1 :=
    hticks ▸ Nat.lt_floor_add_one _
  constructor
  · linarith
  · linarith

/-! ## The last coordinate -/

theorem ticks_mono {d dst : Nat} (h : d ≤ dst) (srcSize dstSize : Nat) :
    ticks d srcSize dstSize ≤ ticks dst srcSize dstSize :=
  Nat.div_le_div_right (Nat.mul_le_mul_left _ (Nat.mul_le_mul_left _ h))

/-- A coordinate of the target falls before the last source pixel. -/
theorem ticks_lt {dst srcSize dstSize : Nat} (hsrc : 2 ≤ srcSize) (h : dst < dstSize) :
    ticks dst srcSize dstSize < 256 * (srcSize - 1) := by
  apply Nat.div_lt_of_lt_mul
  calc 256 * ((srcSize - 1) * dst) = 256 * (srcSize - 1) * dst := by rw [Nat.mul_assoc]
    _ < 256 * (srcSize - 1) * dstSize := Nat.mul_lt_mul_of_pos_left h (by omega)
    _ = dstSize * (256 * (srcSize - 1)) := Nat.mul_comm _ _

theorem sampleAt_before_last {dst srcSize dstSize : Nat} (hsrc : 2 ≤ srcSize)
    (h : dst < dstSize) :
    (sampleAt dst srcSize dstSize).index ≤ srcSize - 2 ∧
      (sampleAt dst srcSize dstSize).next = (sampleAt dst srcSize dstSize).index + 1 := by
  have hlt := ticks_lt hsrc h
  have hindex : ticks dst srcSize dstSize / 256 < srcSize - 1 := Nat.div_lt_of_lt_mul hlt
  refine ⟨?_, ?_⟩
  · change ticks dst srcSize dstSize / 256 ≤ srcSize - 2
    omega
  · change min (ticks dst srcSize dstSize / 256 + 1) (srcSize - 1) = _ / 256 + 1
    omega

theorem sampleAt_single (dst dstSize : Nat) :
    (sampleAt dst 1 dstSize).index = 0 ∧ (sampleAt dst 1 dstSize).next = 0 := by
  simp [sampleAt, ticks]

/-- The position of a sample is the exact one rounded down to 1/256. Its pixel is never the last
of several, and what lies further left in the target lies no further right in the source. -/
theorem bilinearSample_exact {dst srcSize dstSize : Nat} (hsrc : 1 ≤ srcSize)
    (hdst : dst < dstSize) (hfits : (srcSize - 1) * dst * 65536 < Word.limit) :
    ∃ r, bilinearSample dst srcSize dstSize = .ok r ∧
      r.weight < 256 ∧
      r.index * 256 + r.weight = ⌊256 * exactPosition dst srcSize dstSize⌋₊ ∧
      (2 ≤ srcSize → r.index ≤ srcSize - 2 ∧ r.next = r.index + 1) ∧
      (srcSize = 1 → r.index = 0 ∧ r.next = 0) ∧
      r.index < srcSize ∧ r.next < srcSize ∧
      ∀ d ≤ dst, ∃ l, bilinearSample d srcSize dstSize = .ok l ∧
        l.index * 256 + l.weight ≤ r.index * 256 + r.weight := by
  have hpos : 0 < dstSize := by omega
  refine ⟨sampleAt dst srcSize dstSize, bilinearSample_eq_ok_iff.mpr ⟨⟨hsrc, hfits, hpos⟩, rfl⟩,
    sampleAt_weight_lt _ _ _, ?_, fun hmany => sampleAt_before_last hmany hdst, ?_,
    sampleAt_index_lt hsrc (Nat.le_of_lt hdst), sampleAt_next_lt _ _ hsrc, fun d hd => ?_⟩
  · rw [sampleAt_digits, ticks_eq_floor]
  · rintro rfl
    exact sampleAt_single dst dstSize
  · have hleft : (srcSize - 1) * d * 65536 < Word.limit :=
      Nat.lt_of_le_of_lt (Nat.mul_le_mul_right _ (Nat.mul_le_mul_left _ hd)) hfits
    refine ⟨sampleAt d srcSize dstSize,
      bilinearSample_eq_ok_iff.mpr ⟨⟨hsrc, hleft, hpos⟩, rfl⟩, ?_⟩
    rw [sampleAt_digits, sampleAt_digits]
    exact ticks_mono hd srcSize dstSize

/-- The last of 256 columns that show 160. -/
theorem bilinearSample_exact_lastColumn :
    bilinearSample 255 160 256 = .ok { index := 158, next := 159, weight := 97 } ∧
      158 * 256 + 97 = ⌊256 * exactPosition 255 160 256⌋₊ := by
  obtain ⟨r, hr, -, hfloor, -⟩ :=
    bilinearSample_exact (show 1 ≤ 160 by decide) (show 255 < 256 by decide) (by decide)
  obtain rfl : { index := 158, next := 159, weight := 97 } = r := Except.ok.inj hr
  exact ⟨hr, hfloor⟩

end EmulatorOutput.Picture
