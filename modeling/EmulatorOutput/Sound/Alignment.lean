import EmulatorOutput.Fault

/-!
# Alignment

Rounding a size up to a multiple of an alignment, as devices ask for buffers that end on a
page-like boundary.
-/

namespace EmulatorOutput.Sound

/-- A power of two has a single bit. -/
def isPowerOfTwo (n : Nat) : Bool := n != 0 && n &&& (n - 1) == 0

/-- The least multiple of `alignment`, a power of two, that is not below `value`. The sum of
both is formed first, so it has to be a word itself. -/
def alignUp (value alignment : Nat) : Except Fault Nat := do
  let sum ← Word.add value alignment
  let top ← Word.sub sum 1
  let mask ← Word.sub alignment 1
  return top - (top &&& mask)

theorem alignUp_of_lt {value alignment : Nat} (hpos : 0 < alignment)
    (hsum : value + alignment < Word.limit) :
    alignUp value alignment =
      .ok (value + alignment - 1 - ((value + alignment - 1) &&& (alignment - 1))) := by
  have hadd : Word.add value alignment = .ok (value + alignment) := if_pos hsum
  have htop : Word.sub (value + alignment) 1 = .ok (value + alignment - 1) :=
    if_pos (Nat.le_trans hpos (Nat.le_add_left _ _))
  have hmask : Word.sub alignment 1 = .ok (alignment - 1) := if_pos hpos
  rw [alignUp, hadd]
  dsimp only [bind, Except.bind]
  rw [htop, hmask]
  rfl

theorem alignUp_of_le {value alignment : Nat} (hsum : Word.limit ≤ value + alignment) :
    alignUp value alignment = .error .addOverflow := by
  have hadd : Word.add value alignment = .error .addOverflow := if_neg (Nat.not_lt.mpr hsum)
  rw [alignUp, hadd]
  rfl

end EmulatorOutput.Sound
