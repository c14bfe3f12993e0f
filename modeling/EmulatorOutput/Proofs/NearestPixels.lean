import EmulatorOutput.Proofs.ComposedFrames
import Mathlib.Algebra.Order.Floor.Semifield
import Mathlib.Data.Rat.Floor
import Mathlib.Tactic.FieldSimp
import Mathlib.Tactic.GCongr

/-!
# Nearest pixels

The nearest source pixel is the exact position rounded. A larger coordinate has no smaller one, and
where the target is no smaller than the source, the next coordinate has the same one or the next.
From the first to the last, no source pixel is passed over then.
-/

namespace EmulatorOutput.Picture

/-! ## Positions -/

/-- A sequence that starts at zero and never rises by more than one takes every value below each
of its values. -/
theorem exists_eq_of_succ_le {f : Nat → Nat} (hzero : f 0 = 0) (hsucc : ∀ n, f (n + 1) ≤ f n + 1)
    {m n : Nat} (h : m ≤ f n) : ∃ k ≤ n, f k = m := by
  induction n with
  | zero =>
    rw [hzero] at h
    exact ⟨0, Nat.le_refl 0, hzero.trans (Nat.le_zero.mp h).symm⟩
  | succ n ih =>
    obtain hlast | hbelow := Nat.eq_or_lt_of_le h
    · exact ⟨n + 1, Nat.le_refl _, hlast.symm⟩
    · have hle : m ≤ f n := Nat.le_of_lt_succ (Nat.lt_of_lt_of_le hbelow (hsucc n))
      obtain ⟨k, hk, hf⟩ := ih hle
      exact ⟨k, Nat.le_succ_of_le hk, hf⟩

/-- The source position of a target coordinate, rounded, but no later than the last pixel. -/
def roundedPosition (dst srcSize dstSize : Nat) : Nat :=
  min ⌊(dst * srcSize : ℚ) / dstSize + 1 / 2⌋₊ (srcSize - 1)

variable {dst srcSize dstSize : Nat}

theorem nearestAt_eq_roundedPosition (dst srcSize : Nat) (hdst : 0 < dstSize) :
    nearestAt dst srcSize dstSize = roundedPosition dst srcSize dstSize := by
  have hne : (dstSize : ℚ) ≠ 0 := Nat.cast_ne_zero.mpr (Nat.ne_of_gt hdst)
  have hsum : (dst * srcSize : ℚ) / dstSize + 1 / 2 =
      ((dst * srcSize * 2 + dstSize : ℕ) : ℚ) / ((dstSize * 2 : ℕ) : ℚ) := by
    push_cast
    field_simp
  rw [roundedPosition, hsum, Nat.floor_div_eq_div, nearestAt]

theorem nearestAt_zero (srcSize dstSize : Nat) : nearestAt 0 srcSize dstSize = 0 := by
  have hhalf : dstSize / (dstSize * 2) = 0 := Nat.div_eq_zero_iff.mpr (by omega)
  simp [nearestAt, hhalf]

theorem nearestAt_mono (srcSize dstSize : Nat) : Monotone (nearestAt · srcSize dstSize) := by
  intro x y h
  have htop : x * srcSize * 2 + dstSize ≤ y * srcSize * 2 + dstSize := by gcongr
  exact min_le_min_right _ (Nat.div_le_div_right htop)

/-- Enlarging does not pass over a pixel. -/
theorem nearestAt_succ_le (dst : Nat) (hsize : srcSize ≤ dstSize) (hdst : 0 < dstSize) :
    nearestAt (dst + 1) srcSize dstSize ≤ nearestAt dst srcSize dstSize + 1 := by
  have htop : (dst + 1) * srcSize * 2 + dstSize ≤ dst * srcSize * 2 + dstSize + dstSize * 2 := by
    rw [Nat.succ_mul]
    omega
  have hstep : ((dst + 1) * srcSize * 2 + dstSize) / (dstSize * 2) ≤
      (dst * srcSize * 2 + dstSize) / (dstSize * 2) + 1 := by
    rw [← Nat.add_div_right _ (Nat.mul_pos hdst Nat.two_pos)]
    exact Nat.div_le_div_right htop
  unfold nearestAt
  omega

theorem nearestAt_last (hsize : srcSize ≤ dstSize) (hdst : 0 < dstSize) :
    nearestAt (dstSize - 1) srcSize dstSize = srcSize - 1 := by
  refine Nat.min_eq_right ((Nat.le_div_iff_mul_le (Nat.mul_pos hdst Nat.two_pos)).mpr ?_)
  cases srcSize with
  | zero => exact Nat.le_trans (Nat.le_of_eq (Nat.zero_mul _)) (Nat.zero_le _)
  | succ n =>
    obtain ⟨d, rfl⟩ := Nat.exists_eq_add_of_le hsize
    -- `d` is how much larger the target is; rounding leaves at least that much to spare
    have hlast : n + 1 + d - 1 = n + d := by omega
    have hsplit : (n + d) * (n + 1) * 2 + (n + 1 + d) =
        n * ((n + 1 + d) * 2) + (3 * d + n + 1) := by ring
    rw [Nat.add_sub_cancel, hlast, hsplit]
    exact Nat.le_add_right _ _

/-- Where the target is no smaller than the source, every source pixel is the nearest to some
coordinate. -/
theorem exists_nearestAt_eq (hsize : srcSize ≤ dstSize) {u : Nat} (hu : u < srcSize) :
    ∃ x < dstSize, nearestAt x srcSize dstSize = u := by
  have hdst : 0 < dstSize := by omega
  have hlast : u ≤ nearestAt (dstSize - 1) srcSize dstSize := by
    rw [nearestAt_last hsize hdst]
    exact Nat.le_sub_one_of_lt hu
  obtain ⟨x, hx, hat⟩ := exists_eq_of_succ_le (f := (nearestAt · srcSize dstSize))
    (nearestAt_zero srcSize dstSize) (nearestAt_succ_le · hsize hdst) hlast
  exact ⟨x, by omega, hat⟩

namespace Compositor

variable {φ : Type} [FrameTarget φ] {c c' : Compositor} {target target' : φ} {i : Image}

/-- Each pixel of the placement is the source pixel nearest to it. The columns and lines of the
source follow those of the placement in order, and a placement that is no smaller than the source
shows all of them. -/
theorem composite_picks_nearest {w h : Nat} (hmode : c.mode = .nearest w h)
    (hok : (c.composite target i).outcome = .ok (c', target', .ok ())) :
    let s := FrameTarget.opened target
    let column (x : Nat) := roundedPosition x i.width w
    let line (y : Nat) := roundedPosition y i.height h
    ∃ (p : Placement) (m : Memory),
      c.mode.plan i.width i.height s.stride s.height = .ok p ∧ p.width = w ∧ p.height = h ∧
      target' = FrameTarget.shown target m ∧
      (∀ x y, x < w → y < h → ∃ pixel : UInt16,
        column x < i.width ∧ line y < i.height ∧
        i.pixels[line y * i.width + column x]? = some pixel ∧
        ({ s with pixels := m } : Surface).pixelBytes (p.x + x) y = s.format.encode pixel) ∧
      Monotone column ∧ Monotone line ∧
      (i.width ≤ w → ∀ u < i.width, ∃ x < w, column x = u) ∧
      (i.height ≤ h → ∀ v < i.height, ∃ y < h, line y = v) := by
  intro s column line
  obtain ⟨p, t, hdraw, htarget, -⟩ := drawing_of_composite hok
  obtain ⟨rfl, rfl⟩ := hdraw.size_of_nearest hmode
  obtain ⟨-, ⟨hw, hh, -⟩, -⟩ := ScaleMode.plan_eq_ok_iff.mp hdraw.plan_eq
  obtain ⟨⟨hwidth, hheight⟩, -⟩ := (Image.check_eq_ok_iff i).mp hdraw.sound
  have hcolumn : (nearestAt · i.width p.width) = column :=
    funext fun x => nearestAt_eq_roundedPosition x i.width hw
  have hline : (nearestAt · i.height p.height) = line :=
    funext fun y => nearestAt_eq_roundedPosition y i.height hh
  refine ⟨p, t.pixels, hdraw.plan_eq, rfl, rfl, htarget, ?_, ?_, ?_, ?_, ?_⟩
  · intro x y hx hy
    have hpixel := hdraw.pixelBytes_eq hx hy
    rw [hmode] at hpixel
    have hcx : column x < i.width := hcolumn ▸ nearestAt_lt x p.width hwidth
    have hcy : line y < i.height := hline ▸ nearestAt_lt y p.height hheight
    refine ⟨i.nearestColour p x y, hcx, hcy, ?_, hpixel⟩
    rw [Image.getElem?_colour hdraw.sound hcx hcy, ← hcolumn, ← hline]
    rfl
  · exact hcolumn ▸ nearestAt_mono i.width p.width
  · exact hline ▸ nearestAt_mono i.height p.height
  · exact hcolumn ▸ fun hsize u hu => exists_nearestAt_eq hsize hu
  · exact hline ▸ fun hsize v hv => exists_nearestAt_eq hsize hv

theorem composite_picks_nearest_twoDots :
    ∃ (c' : Compositor) (target' : HostBuffer) (m : Memory),
      (({ mode := .nearest 5 2 } : Compositor).composite roomyHost twoDots).outcome =
        .ok (c', target', .ok ()) ∧
      target'.target.pixels = m ∧
      ({ roomyHost.target with pixels := m } : Surface).pixelBytes 2 0 =
        PixelFormat.rgb565Be.encode 0xFFFF ∧
      ∃ x < 5, roundedPosition x 2 5 = 1 := by
  have h : (({ mode := .nearest 5 2 } : Compositor).composite roomyHost twoDots).outcome =
    .ok (_, _, .ok ()) := rfl
  obtain ⟨p, m, hplan, -, -, htarget, hpixels, -, -, hall, -⟩ := composite_picks_nearest rfl h
  obtain rfl : { x := 0, width := 5, height := 2 } = p := Except.ok.inj hplan
  obtain ⟨pixel, -, -, hsource, hbytes⟩ := hpixels 2 0 (by decide) (by decide)
  have hcolumn : roundedPosition 2 2 5 = 1 := (nearestAt_eq_roundedPosition 2 2 (by decide)).symm
  have hline : roundedPosition 0 1 2 = 0 := (nearestAt_eq_roundedPosition 0 1 (by decide)).symm
  have hcentre :
      twoDots.pixels[roundedPosition 0 1 2 * 2 + roundedPosition 2 2 5]? = some 0xFFFF := by
    rw [hcolumn, hline]
    rfl
  obtain rfl : pixel = 0xFFFF := Option.some.inj (hsource.symm.trans hcentre)
  exact ⟨_, _, m, h, congrArg (fun b => b.target.pixels) htarget, hbytes,
    hall (by decide) 1 (by decide)⟩

end Compositor

end EmulatorOutput.Picture
