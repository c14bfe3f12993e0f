import EmulatorOutput.Proofs.StartupCheck
import EmulatorOutput.Settings.Derived

/-!
# Derived screens

The screen that follows from settings, whatever they are. Zeros are filled in from one another,
window to width, width to row length and both to the size of a resampled picture, and what comes
out is a geometry that holds its frame. A pipeline is refused over it just where the picture, drawn
as chosen, is larger than the frame buffer.
-/

namespace EmulatorOutput

namespace Word

/-- A number that stands for a size: a word, and not zero. -/
structure IsSize (n : Nat) : Prop where
  pos : 0 < n
  lt_limit : n < limit

theorem saturatingMul_lt (a b : Nat) : saturatingMul a b < limit := by
  have hlimit : 0 < limit := by decide
  unfold saturatingMul
  omega

theorem IsSize.max_right {n : Nat} (h : IsSize n) {m : Nat} (hm : m < limit) :
    IsSize (max m n) := by
  obtain ⟨hpos, hlt⟩ := h
  constructor
  · omega
  · omega

theorem isSize_of_ne_zero {n : UInt64} (h : n ≠ 0) : IsSize n.toNat where
  pos := Nat.pos_of_ne_zero fun h0 => h (UInt64.toNat_inj.mp h0)
  lt_limit := n.toNat_lt_size

end Word

open Word (IsSize)

namespace Picture

theorem isSize_sourceWidth : IsSize sourceWidth := ⟨by decide, by decide⟩

theorem isSize_sourceHeight : IsSize sourceHeight := ⟨by decide, by decide⟩

/-- The width that fits a window, with its division checked. -/
def checkedFitWidth (windowWidth windowHeight sourceWidth sourceHeight : Nat) :
    Except Fault Nat :=
  if windowHeight = 0 ∨ sourceWidth = 0 then .ok sourceWidth
  else do
    let width ← Word.div (Word.saturatingMul windowWidth sourceHeight) windowHeight
    return max width sourceWidth

theorem checkedFitWidth_eq (windowWidth windowHeight sourceWidth sourceHeight : Nat) :
    checkedFitWidth windowWidth windowHeight sourceWidth sourceHeight =
      .ok (fitWidth windowWidth windowHeight sourceWidth sourceHeight) := by
  unfold checkedFitWidth fitWidth
  split
  · rfl
  · rename_i h
    have hheight : windowHeight ≠ 0 := fun h0 => h (.inl h0)
    rw [Word.div, if_neg hheight]
    rfl

theorem isSize_fitWidth (windowWidth windowHeight sourceHeight : Nat) {sourceWidth : Nat}
    (h : IsSize sourceWidth) :
    IsSize (fitWidth windowWidth windowHeight sourceWidth sourceHeight) := by
  unfold fitWidth
  split
  · exact h
  · exact h.max_right (Nat.lt_of_le_of_lt (Nat.div_le_self _ _) (Word.saturatingMul_lt _ _))

namespace ScaleMode

/-- Each block, or the resampled picture, has pixels in both directions. -/
def Proper : ScaleMode → Prop
  | .positioned factor => IsSize factor
  | .bilinear width height | .nearest width height => IsSize width ∧ IsSize height

variable {width height stride targetHeight : Nat}

theorem exists_plan_iff {mode : ScaleMode} :
    (∃ p, mode.plan width height stride targetHeight = .ok p) ↔
      ∃ w h, mode.outputSize? width height = some (w, h) ∧
        0 < w ∧ 0 < h ∧ w ≤ stride ∧ h ≤ targetHeight := by
  constructor
  · rintro ⟨p, hp⟩
    obtain ⟨hsize, hfits, -⟩ := plan_eq_ok_iff.mp hp
    exact ⟨p.width, p.height, hsize, hfits⟩
  · rintro ⟨w, h, hsize, hfits⟩
    exact ⟨⟨centerOffset stride w, w, h⟩, plan_eq_ok_iff.mpr ⟨hsize, hfits, rfl⟩⟩

/-- A block too large for a word is too large for the target as well. -/
theorem exists_plan_positioned_iff (factor : Nat) (hwidth : 0 < width) (hheight : 0 < height)
    (hstride : stride < Word.limit) (htarget : targetHeight < Word.limit) :
    (∃ p, (positioned factor).plan width height stride targetHeight = .ok p) ↔
      width * blockSide factor ≤ stride ∧ height * blockSide factor ≤ targetHeight := by
  rw [exists_plan_iff]
  constructor
  · rintro ⟨w, h, hsize, -, -, hw, hh⟩
    obtain ⟨rfl, rfl⟩ := outputSize?_positioned hsize
    exact ⟨hw, hh⟩
  · rintro ⟨hw, hh⟩
    have hacross := Word.mul?_eq_some_iff.mpr ⟨Nat.lt_of_le_of_lt hw hstride, rfl⟩
    have hdown := Word.mul?_eq_some_iff.mpr ⟨Nat.lt_of_le_of_lt hh htarget, rfl⟩
    have hside := blockSide_pos factor
    refine ⟨_, _, ?_, Nat.mul_pos hwidth hside, Nat.mul_pos hheight hside, hw, hh⟩
    rw [outputSize?, hacross, hdown]
    rfl

theorem exists_plan_resampled_iff {mode : ScaleMode} {w h : Nat}
    (hmode : mode = .bilinear w h ∨ mode = .nearest w h) (hw : 0 < w) (hh : 0 < h) :
    (∃ p, mode.plan width height stride targetHeight = .ok p) ↔
      w ≤ stride ∧ h ≤ targetHeight := by
  have hsize : mode.outputSize? width height = some (w, h) := by
    rcases hmode with rfl | rfl
    · rfl
    · rfl
  rw [exists_plan_iff, hsize]
  constructor
  · rintro ⟨_, _, hsame, -, -, hfits⟩
    cases hsame
    exact hfits
  · intro hfits
    exact ⟨w, h, rfl, hw, hh, hfits⟩

end ScaleMode

namespace Pipeline

variable {φ : Type} [FrameTarget φ] {c : Compositor} {target : φ} {size : Nat × Nat}

theorem exists_start_iff :
    (∃ p, (start c target size).outcome = .ok p) ↔
      ∃ r, c.mode.plan size.1 size.2 (FrameTarget.stride target) (FrameTarget.height target) =
        .ok r := by
  constructor
  · rintro ⟨p, hp⟩
    exact (start_eq_ok_iff.mp hp).1
  · intro hplan
    exact ⟨_, start_eq_ok_iff.mpr ⟨hplan, rfl⟩⟩

/-- What does not start is refused for a reason. -/
theorem refused_of_not_started (h : ¬ ∃ p, (start c target size).outcome = .ok p) :
    ∃ e, (start c target size).outcome = .error (.failure e) := by
  cases hstart : (start c target size).outcome with
  | ok p => exact absurd ⟨p, hstart⟩ h
  | error stop =>
    obtain ⟨e, -, rfl⟩ := start_eq_error_iff.mp hstart
    exact ⟨e, rfl⟩

end Pipeline

end Picture

namespace Settings

open Picture (FrameBuffer Pipeline ScaleMode checkedFitWidth fitWidth sourceHeight sourceWidth)

theorem isSize_orElse (given : UInt64) {fallback : Nat} (h : IsSize fallback) :
    IsSize (orElse given fallback) := by
  unfold orElse
  split
  · exact h
  · rename_i hgiven
    exact Word.isSize_of_ne_zero hgiven

namespace Video

/-- The width of the frame buffer, computed with checked arithmetic. -/
def checkedWidth (v : Video) : Except Fault Nat :=
  if v.width = 0 then
    if v.windowWidth = 0 ∨ v.windowHeight = 0 then .ok sourceWidth
    else checkedFitWidth v.windowWidth.toNat v.windowHeight.toNat sourceWidth sourceHeight
  else .ok v.width.toNat

theorem checkedWidth_eq (v : Video) : v.checkedWidth = .ok v.frameWidth := by
  unfold checkedWidth frameWidth orElse
  split
  · split
    · rfl
    · exact Picture.checkedFitWidth_eq _ _ _ _
  · rfl

theorem isSize_frameWidth (v : Video) : IsSize v.frameWidth := by
  apply isSize_orElse
  split
  · exact Picture.isSize_sourceWidth
  · exact Picture.isSize_fitWidth _ _ _ Picture.isSize_sourceWidth

theorem isSize_frameHeight (v : Video) : IsSize v.frameHeight :=
  isSize_orElse _ Picture.isSize_sourceHeight

theorem isSize_stride (v : Video) : IsSize v.screen.stride :=
  v.isSize_frameWidth.max_right v.stride.toNat_lt_size

theorem mode_proper (v : Video) : v.mode.Proper := by
  have hwidth := isSize_orElse v.outputWidth v.isSize_frameWidth
  have hheight := isSize_orElse v.outputHeight v.isSize_frameHeight
  unfold mode
  cases v.scale with
  | positioned =>
    have hone : IsSize 1 := ⟨by decide, by decide⟩
    exact hone.max_right v.factor.toNat_lt_size
  | bilinear => exact ⟨hwidth, hheight⟩
  | nearest => exact ⟨hwidth, hheight⟩

/-- The picture of the source, drawn as the settings say, is no larger than the frame buffer. -/
def Fits (v : Video) : Prop :=
  let stride := v.screen.stride
  let height := v.screen.height
  match v.scale with
  | .positioned =>
    sourceWidth * max v.factor.toNat 1 ≤ stride ∧ sourceHeight * max v.factor.toNat 1 ≤ height
  | .bilinear | .nearest =>
    orElse v.outputWidth v.screen.width ≤ stride ∧ orElse v.outputHeight height ≤ height

theorem fits_of_unset {v : Video} (hscale : v.scale ≠ .positioned) (hwidth : v.outputWidth = 0)
    (hheight : v.outputHeight = 0) : v.Fits := by
  have hrow : orElse v.outputWidth v.screen.width ≤ v.screen.stride := by
    rw [orElse, if_pos hwidth]
    exact Nat.le_max_right _ _
  have hrows : orElse v.outputHeight v.screen.height ≤ v.screen.height := by
    rw [orElse, if_pos hheight]
  unfold Fits
  cases hchoice : v.scale with
  | positioned => exact absurd hchoice hscale
  | bilinear => exact ⟨hrow, hrows⟩
  | nearest => exact ⟨hrow, hrows⟩

theorem exists_plan_iff_fits (v : Video) : (∃ p, v.screen.plan = .ok p) ↔ v.Fits := by
  have hmode := v.mode_proper
  change (∃ p, v.mode.plan sourceWidth sourceHeight v.screen.stride v.screen.height = .ok p) ↔ _
  unfold Fits
  unfold mode at hmode ⊢
  cases hscale : v.scale with
  | positioned =>
    have hside : ScaleMode.blockSide (max v.factor.toNat 1) = max v.factor.toNat 1 :=
      Nat.max_eq_left (Nat.le_max_right _ _)
    have hplan := ScaleMode.exists_plan_positioned_iff (max v.factor.toNat 1)
      Picture.isSize_sourceWidth.pos Picture.isSize_sourceHeight.pos v.isSize_stride.lt_limit
      v.isSize_frameHeight.lt_limit
    rw [hside] at hplan
    exact hplan
  | bilinear =>
    rw [hscale] at hmode
    exact ScaleMode.exists_plan_resampled_iff (.inl rfl) hmode.1.pos hmode.2.pos
  | nearest =>
    rw [hscale] at hmode
    exact ScaleMode.exists_plan_resampled_iff (.inr rfl) hmode.1.pos hmode.2.pos

/-- Any settings come to a screen. Its rows hold its frame, all sizes are words, and none that
drawing depends on is zero. Over a frame buffer made for it, a pipeline starts just if the picture
fits, and is else refused. A resampled picture whose size is not given always fits. -/
theorem screen_consistent (v : Video) :
    let s := v.screen
    v.checkedWidth = .ok s.width ∧
    IsSize s.width ∧ IsSize s.height ∧ IsSize s.stride ∧ s.width ≤ s.stride ∧ s.mode.Proper ∧
    ∀ b, (FrameBuffer.create s.width s.height s.stride s.format).outcome = .ok b →
      let started := (Pipeline.start s.compositor b (sourceWidth, sourceHeight)).outcome
      ((∃ p, started = .ok p) ↔ v.Fits) ∧
      (¬ v.Fits → ∃ e, started = .error (.failure e)) ∧
      (v.scale ≠ .positioned → v.outputWidth = 0 → v.outputHeight = 0 →
        ∃ p, started = .ok p) := by
  intro s
  refine ⟨v.checkedWidth_eq, v.isSize_frameWidth, v.isSize_frameHeight, v.isSize_stride,
    Nat.le_max_right _ _, v.mode_proper, fun b hb => ?_⟩
  obtain ⟨-, rfl⟩ := FrameBuffer.eq_of_create hb
  intro started
  have hstart : (∃ p, started = .ok p) ↔ v.Fits :=
    Pipeline.exists_start_iff.trans v.exists_plan_iff_fits
  refine ⟨hstart, fun hlarge => ?_, fun hscale hwidth hheight => ?_⟩
  · exact Pipeline.refused_of_not_started (mt hstart.mp hlarge)
  · exact hstart.mpr (fits_of_unset hscale hwidth hheight)

/-- Over a window twice as wide as it is high, a resampled picture starts. In blocks of two by two
pixels it is too large. -/
theorem screen_consistent_wideWindow :
    let resampled : Video := { windowWidth := 1280, windowHeight := 640, scale := .bilinear }
    let doubled : Video := { windowWidth := 1280, windowHeight := 640, factor := 2 }
    ∃ b b' : FrameBuffer,
      (FrameBuffer.create 288 144 288 .rgb565Be).outcome = .ok b ∧
      (FrameBuffer.create 288 144 288 .rgb565).outcome = .ok b' ∧
      (∃ p, (Pipeline.start resampled.screen.compositor b (160, 144)).outcome = .ok p) ∧
      ∃ e, (Pipeline.start doubled.screen.compositor b' (160, 144)).outcome =
        .error (.failure e) := by
  intro resampled doubled
  have hb : (FrameBuffer.create 288 144 288 .rgb565Be).outcome = .ok _ := rfl
  have hb' : (FrameBuffer.create 288 144 288 .rgb565).outcome = .ok _ := rfl
  have hwidth : resampled.screen.width = 288 ∧ resampled.screen.stride = 288 := by decide
  have hwidth' : doubled.screen.width = 288 ∧ doubled.screen.stride = 288 := by decide
  obtain ⟨-, -, -, -, -, -, hresampled⟩ := screen_consistent resampled
  obtain ⟨-, -, -, -, -, -, hdoubled⟩ := screen_consistent doubled
  rw [hwidth.1, hwidth.2] at hresampled
  rw [hwidth'.1, hwidth'.2] at hdoubled
  obtain ⟨-, -, hstarts⟩ := hresampled _ hb
  obtain ⟨-, hrefused, -⟩ := hdoubled _ hb'
  have hlarge : ¬ doubled.Fits := fun h => absurd h.1 (by decide)
  exact ⟨_, _, hb, hb', hstarts (by decide) rfl rfl, hrefused hlarge⟩

end Video

end Settings

end EmulatorOutput
