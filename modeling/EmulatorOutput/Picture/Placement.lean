import EmulatorOutput.Failure

/-!
# Placement

Where a picture goes in a target whose rows may be longer than the picture is wide: centred
between the sides, from the top row down.
-/

namespace EmulatorOutput.Picture

def sourceWidth : Nat := 160

def sourceHeight : Nat := 144

/-- The first column of `width` pixels centred in `stride` pixels. -/
def centerOffset (stride width : Nat) : Nat := (stride - width) / 2

/-- The width of a frame that keeps the proportions of the source when it is stretched over the
height of a window. Never less than the width of the source. -/
def fitWidth (windowWidth windowHeight sourceWidth sourceHeight : Nat) : Nat :=
  if windowHeight = 0 ∨ sourceWidth = 0 then sourceWidth
  else max (Word.saturatingMul windowWidth sourceHeight / windowHeight) sourceWidth

/-- The part of a target that a frame is written to: its first column and its size. -/
structure Placement where
  x : Nat
  width : Nat
  height : Nat
  deriving DecidableEq, Repr

/-- Centres a picture in a target, unless it is empty or does not fit. -/
def Placement.centered (width height stride targetHeight : Nat) : Except Failure Placement :=
  if width = 0 ∨ height = 0 ∨ stride < width ∨ targetHeight < height then
    .error (.geometryTooSmall width height stride targetHeight)
  else .ok { x := centerOffset stride width, width, height }

theorem Placement.centered_eq_ok_iff {width height stride targetHeight : Nat} {p : Placement} :
    Placement.centered width height stride targetHeight = .ok p ↔
      (0 < width ∧ 0 < height ∧ width ≤ stride ∧ height ≤ targetHeight) ∧
        p = { x := centerOffset stride width, width, height } := by
  unfold Placement.centered
  split
  · simp only [reduceCtorEq, false_iff]
    omega
  · rw [Except.ok.injEq, eq_comm]
    constructor
    · rintro rfl
      exact ⟨by omega, rfl⟩
    · exact fun h => h.2

theorem centerOffset_add_le {stride width : Nat} (h : width ≤ stride) :
    centerOffset stride width + width ≤ stride := by
  unfold centerOffset
  omega

end EmulatorOutput.Picture
