import EmulatorOutput.Proofs.BilinearRange
import EmulatorOutput.Proofs.ExactPositions
import Mathlib.Tactic.FieldSimp
import Mathlib.Tactic.Linarith
import Mathlib.Tactic.NormNum

/-!
# The error of bilinear pixels

How far a bilinear pixel is from the exact value at its position. The position is rounded down to
1/256 in each direction, which moves the value by less than 1/4 each, and the mean is rounded down
to a whole number: less than 3/2 in all.
-/

namespace EmulatorOutput.Picture

/-! ## Interpolation -/

/-- The value that lies the part `t` of the way from `a` to `b`. -/
def lerp (t a b : ℚ) : ℚ := (1 - t) * a + t * b

theorem abs_lerp_le {t a b m : ℚ} (h₀ : 0 ≤ t) (h₁ : t ≤ 1) (ha : |a| ≤ m) (hb : |b| ≤ m) :
    |lerp t a b| ≤ m := by
  obtain ⟨ha₀, ha₁⟩ := abs_le.mp ha
  obtain ⟨hb₀, hb₁⟩ := abs_le.mp hb
  have hrest : 0 ≤ 1 - t := by linarith
  have hlow : (1 - t) * -m + t * -m ≤ lerp t a b :=
    add_le_add (mul_le_mul_of_nonneg_left ha₀ hrest) (mul_le_mul_of_nonneg_left hb₀ h₀)
  have hhigh : lerp t a b ≤ (1 - t) * m + t * m :=
    add_le_add (mul_le_mul_of_nonneg_left ha₁ hrest) (mul_le_mul_of_nonneg_left hb₁ h₀)
  rw [abs_le]
  constructor
  · linarith
  · linarith

/-- Interpolation between four values, across at `s` and then down at `t`. -/
def bilerp (s t a b c d : ℚ) : ℚ := lerp t (lerp s a b) (lerp s c d)

/-- Moving the position moves the value by no more than the values are apart. -/
theorem abs_bilerp_sub_le {s s' t t' a b c d m : ℚ} (hs : 0 ≤ s' ∧ s' ≤ 1) (ht : 0 ≤ t ∧ t ≤ 1)
    (hab : |b - a| ≤ m) (hcd : |d - c| ≤ m) (hac : |c - a| ≤ m) (hbd : |d - b| ≤ m) :
    |bilerp s t a b c d - bilerp s' t' a b c d| ≤ (|s - s'| + |t - t'|) * m := by
  have hsplit : bilerp s t a b c d - bilerp s' t' a b c d =
      (s - s') * lerp t (b - a) (d - c) + (t - t') * lerp s' (c - a) (d - b) := by
    simp only [bilerp, lerp]
    ring
  have hacross : |(s - s') * lerp t (b - a) (d - c)| ≤ |s - s'| * m := by
    rw [abs_mul]
    exact mul_le_mul_of_nonneg_left (abs_lerp_le ht.1 ht.2 hab hcd) (abs_nonneg _)
  have hdown : |(t - t') * lerp s' (c - a) (d - b)| ≤ |t - t'| * m := by
    rw [abs_mul]
    exact mul_le_mul_of_nonneg_left (abs_lerp_le hs.1 hs.2 hac hbd) (abs_nonneg _)
  calc |bilerp s t a b c d - bilerp s' t' a b c d|
      ≤ |(s - s') * lerp t (b - a) (d - c)| + |(t - t') * lerp s' (c - a) (d - b)| :=
        hsplit ▸ abs_add_le _ _
    _ ≤ |s - s'| * m + |t - t'| * m := add_le_add hacross hdown
    _ = (|s - s'| + |t - t'|) * m := by ring

/-! ## Values -/

namespace Channel

theorem abs_value_sub_le (ch : Channel) (q r : UInt16) :
    |(ch.value q : ℚ) - ch.value r| ≤ 63 := by
  have hmost : ch.most ≤ 63 := by cases ch <;> decide
  have hq : (ch.value q : ℚ) ≤ 63 := by exact_mod_cast Nat.le_trans (ch.value_le q) hmost
  have hr : (ch.value r : ℚ) ≤ 63 := by exact_mod_cast Nat.le_trans (ch.value_le r) hmost
  have hq₀ : (0 : ℚ) ≤ ch.value q := Nat.cast_nonneg _
  have hr₀ : (0 : ℚ) ≤ ch.value r := Nat.cast_nonneg _
  rw [abs_le]
  constructor
  · linarith
  · linarith

end Channel

/-- The weighted mean of four neighbours is the value between them, rounded down. -/
theorem mean_weigh_bounds (v : UInt16 → Nat) {dx dy : Nat} (hx : dx ≤ 256) (hy : dy ≤ 256)
    (a b c d : UInt16) :
    (mean v (weigh dx dy a b c d) : ℚ) ≤ bilerp (dx / 256) (dy / 256) (v a) (v b) (v c) (v d) ∧
      bilerp (dx / 256) (dy / 256) (v a) (v b) (v c) (v d) <
        (mean v (weigh dx dy a b c d) : ℚ) + 1 := by
  have hfloor : mean v (weigh dx dy a b c d) =
      ⌊bilerp (dx / 256) (dy / 256) (v a) (v b) (v c) (v d)⌋₊ := by
    have hvalue : bilerp (dx / 256) (dy / 256) (v a) (v b) (v c) (v d) =
        (((weigh dx dy a b c d).map fun e => e.1 * v e.2).sum : ℕ) / (65536 : ℕ) := by
      simp only [weigh, List.map_cons, List.map_nil, List.sum_cons, List.sum_nil, bilerp, lerp]
      push_cast [Nat.cast_sub hx, Nat.cast_sub hy]
      field_simp
      ring
    rw [hvalue, Nat.floor_div_eq_div, mean, totalWeight_weigh hx hy]
  have hpos : 0 ≤ bilerp (dx / 256) (dy / 256) (v a) (v b) (v c) (v d) := by
    have hdx : (dx : ℚ) / 256 ≤ 1 := by
      rw [div_le_one (by norm_num)]
      exact_mod_cast hx
    have hdy : (dy : ℚ) / 256 ≤ 1 := by
      rw [div_le_one (by norm_num)]
      exact_mod_cast hy
    have hrest : 0 ≤ 1 - (dx : ℚ) / 256 := by linarith
    have hbelow : 0 ≤ 1 - (dy : ℚ) / 256 := by linarith
    rw [bilerp, lerp, lerp, lerp]
    positivity
  rw [hfloor]
  exact ⟨Nat.floor_le hpos, Nat.lt_floor_add_one _⟩

namespace Image

def valueBetween (i : Image) (ch : Channel) (column line : Sample) (s t : ℚ) : ℚ :=
  bilerp s t (ch.value (i.colour column.index line.index))
    (ch.value (i.colour column.next line.index)) (ch.value (i.colour column.index line.next))
    (ch.value (i.colour column.next line.next))

theorem mixed_bounds (i : Image) (ch : Channel) {column line : Sample}
    (hx : column.weight ≤ 256) (hy : line.weight ≤ 256) :
    (ch.value (i.mixed column line) : ℚ) ≤
        i.valueBetween ch column line (column.weight / 256) (line.weight / 256) ∧
      i.valueBetween ch column line (column.weight / 256) (line.weight / 256) <
        (ch.value (i.mixed column line) : ℚ) + 1 := by
  rw [value_mixed ch hx hy]
  exact mean_weigh_bounds ch.value hx hy _ _ _ _

theorem abs_valueBetween_sub_le (i : Image) (ch : Channel) (column line : Sample)
    (s : ℚ) {s' t : ℚ} (t' : ℚ) (hs : 0 ≤ s' ∧ s' ≤ 1) (ht : 0 ≤ t ∧ t ≤ 1) :
    |i.valueBetween ch column line s t - i.valueBetween ch column line s' t'| ≤
      (|s - s'| + |t - t'|) * 63 :=
  abs_bilerp_sub_le hs ht (ch.abs_value_sub_le _ _) (ch.abs_value_sub_le _ _)
    (ch.abs_value_sub_le _ _) (ch.abs_value_sub_le _ _)

/-- The exact value of a channel at a position of the source, between the four pixels around it.
Behind the last column and the last row these are repeated. -/
def exactValue (i : Image) (ch : Channel) (u v : ℚ) : ℚ :=
  let x := ⌊u⌋₊
  let y := ⌊v⌋₊
  let x' := min (x + 1) (i.width - 1)
  let y' := min (y + 1) (i.height - 1)
  bilerp (u - x) (v - y) (ch.value (i.colour x y)) (ch.value (i.colour x' y))
    (ch.value (i.colour x y')) (ch.value (i.colour x' y'))

theorem exactValue_eq (i : Image) (p : Placement) (ch : Channel) (x y : Nat) :
    i.exactValue ch (exactPosition x i.width p.width) (exactPosition y i.height p.height) =
      i.valueBetween ch (sampleAt x i.width p.width) (sampleAt y i.height p.height)
        (exactPosition x i.width p.width - (sampleAt x i.width p.width).index)
        (exactPosition y i.height p.height - (sampleAt y i.height p.height).index) := by
  simp only [exactValue, floor_exactPosition]
  rfl

/-- Rounding the position down costs less than 1/2, and rounding the mean down less than 1. -/
theorem bilinearColour_near (i : Image) (p : Placement) (ch : Channel) (x y : Nat) :
    |(ch.value (i.bilinearColour p x y) : ℚ) -
      i.exactValue ch (exactPosition x i.width p.width) (exactPosition y i.height p.height)| <
        3 / 2 := by
  obtain ⟨hx₀, hx₁⟩ := weight_bounds x i.width p.width
  obtain ⟨hy₀, hy₁⟩ := weight_bounds y i.height p.height
  have hwx := sampleAt_weight_lt x i.width p.width
  have hwy := sampleAt_weight_lt y i.height p.height
  have hmean := i.mixed_bounds ch (Nat.le_of_lt hwx) (Nat.le_of_lt hwy)
  rw [exactValue_eq]
  change |(ch.value (i.mixed (sampleAt x i.width p.width) (sampleAt y i.height p.height)) : ℚ) -
    _| < _
  generalize exactPosition x i.width p.width - _ = s at *
  generalize exactPosition y i.height p.height - _ = t at *
  generalize sampleAt x i.width p.width = column at *
  generalize sampleAt y i.height p.height = line at *
  have hcolumn : (column.weight : ℚ) ≤ 255 := by exact_mod_cast Nat.le_of_lt_succ hwx
  have hline : (line.weight : ℚ) ≤ 255 := by exact_mod_cast Nat.le_of_lt_succ hwy
  have hcolumn₀ : (0 : ℚ) ≤ column.weight := Nat.cast_nonneg _
  have hline₀ : (0 : ℚ) ≤ line.weight := Nat.cast_nonneg _
  have hacross : |(column.weight : ℚ) / 256 - s| ≤ 1 / 256 := by
    rw [abs_le]
    constructor
    · linarith
    · linarith
  have hdown : |(line.weight : ℚ) / 256 - t| ≤ 1 / 256 := by
    rw [abs_le]
    constructor
    · linarith
    · linarith
  have hs : 0 ≤ s ∧ s ≤ 1 := ⟨by linarith, by linarith⟩
  have hweight : 0 ≤ (line.weight : ℚ) / 256 ∧ (line.weight : ℚ) / 256 ≤ 1 :=
    ⟨by linarith, by linarith⟩
  have hmove := i.abs_valueBetween_sub_le ch column line (column.weight / 256) t hs hweight
  obtain ⟨hmove₀, hmove₁⟩ := abs_le.mp hmove
  rw [abs_lt]
  constructor
  · linarith
  · linarith

end Image

namespace Compositor

variable {φ : Type} [FrameTarget φ] {c c' : Compositor} {target target' : φ} {i : Image}

/-- Each channel of a bilinear pixel is less than 3/2 from its exact value, and the pixel is
encoded in its place. -/
theorem composite_near_exact {w h : Nat} (hmode : c.mode = .bilinear w h)
    (hok : (c.composite target i).outcome = .ok (c', target', .ok ())) :
    let s := FrameTarget.opened target
    ∃ (p : Placement) (m : Memory),
      c.mode.plan i.width i.height s.stride s.height = .ok p ∧ p.width = w ∧ p.height = h ∧
      target' = FrameTarget.shown target m ∧
      ∀ x y, x < w → y < h → ∃ pixel : UInt16,
        ({ s with pixels := m } : Surface).pixelBytes (p.x + x) y = s.format.encode pixel ∧
        ∀ ch : Channel,
          |(ch.value pixel : ℚ) -
            i.exactValue ch (exactPosition x i.width w) (exactPosition y i.height h)| < 3 / 2 := by
  intro s
  obtain ⟨p, t, hdraw, htarget, -⟩ := drawing_of_composite hok
  obtain ⟨rfl, rfl⟩ := hdraw.size_of_bilinear hmode
  refine ⟨p, t.pixels, hdraw.plan_eq, rfl, rfl, htarget, fun x y hx hy => ?_⟩
  have hpixel := hdraw.pixelBytes_eq hx hy
  rw [hmode] at hpixel
  exact ⟨i.bilinearColour p x y, hpixel, fun ch => i.bilinearColour_near p ch x y⟩

theorem composite_near_exact_twoDots :
    ∃ (c' : Compositor) (target' : HostBuffer) (m : Memory) (pixel : UInt16),
      (({ mode := .bilinear 5 2 } : Compositor).composite roomyHost twoDots).outcome =
        .ok (c', target', .ok ()) ∧
      target'.target.pixels = m ∧
      ({ roomyHost.target with pixels := m } : Surface).pixelBytes 1 0 =
        PixelFormat.rgb565Be.encode pixel ∧
      |(Channel.red.value pixel : ℚ) - 39 / 5| < 3 / 2 := by
  have h : (({ mode := .bilinear 5 2 } : Compositor).composite roomyHost twoDots).outcome =
    .ok (_, _, .ok ()) := rfl
  obtain ⟨p, m, hplan, -, -, htarget, hpixels⟩ := composite_near_exact rfl h
  obtain rfl : { x := 0, width := 5, height := 2 } = p := Except.ok.inj hplan
  obtain ⟨pixel, hbytes, hnear⟩ := hpixels 1 0 (by decide) (by decide)
  have hleft : Channel.red.value (twoDots.colour 0 0) = 2 := by decide
  have hright : Channel.red.value (twoDots.colour 1 0) = 31 := by decide
  have hexact : twoDots.exactValue .red (exactPosition 1 2 5) (exactPosition 0 1 2) = 39 / 5 := by
    have hx : ⌊exactPosition 1 2 5⌋₊ = 0 := floor_exactPosition 1 2 5
    have hy : ⌊exactPosition 0 1 2⌋₊ = 0 := floor_exactPosition 0 1 2
    simp only [Image.exactValue, hx, hy]
    change bilerp _ _ (Channel.red.value (twoDots.colour 0 0) : ℚ)
      (Channel.red.value (twoDots.colour 1 0)) (Channel.red.value (twoDots.colour 0 0))
      (Channel.red.value (twoDots.colour 1 0)) = _
    rw [hleft, hright]
    norm_num [bilerp, lerp, exactPosition]
  exact ⟨_, _, m, pixel, h, congrArg (fun b => b.target.pixels) htarget, hbytes,
    hexact ▸ hnear .red⟩

end Compositor

end EmulatorOutput.Picture
