import EmulatorOutput.Proofs.ChannelMeans
import EmulatorOutput.Proofs.ComposedFrames
import Mathlib.Algebra.Order.Group.Abs
import Mathlib.Algebra.Order.Group.Int

/-!
# The range of bilinear pixels

A bilinear pixel never overshoots: in each channel it lies between source pixels that have a weight
in it. Where source and target are of one size, these are the pixel's own one and its neighbours
above and to the left.
-/

namespace EmulatorOutput.Picture

namespace Channel

/-- A channel of `q` is neither below nor above that channel of all the given pixels. -/
def Between (ch : Channel) (qs : List UInt16) (q : UInt16) : Prop :=
  (∃ a ∈ qs, ch.value a ≤ ch.value q) ∧ ∃ b ∈ qs, ch.value q ≤ ch.value b

theorem Between.mono {ch : Channel} {qs rs : List UInt16} {q : UInt16} (h : ch.Between qs q)
    (hsub : ∀ a ∈ qs, a ∈ rs) : ch.Between rs q := by
  obtain ⟨⟨a, ha, hle⟩, b, hb, hge⟩ := h
  exact ⟨⟨a, hsub a ha, hle⟩, b, hsub b hb, hge⟩

/-- Two values between the same pixels differ by no more than two of these pixels. -/
theorem Between.error_le {ch : Channel} {qs : List UInt16} {q r : UInt16}
    (h : ch.Between qs q) (hr : r ∈ qs) :
    ∃ a ∈ qs, ∃ b ∈ qs,
      |(ch.value q : ℤ) - ch.value r| ≤ (ch.value a : ℤ) - ch.value b := by
  obtain ⟨⟨a, ha, hle⟩, b, hb, hge⟩ := h
  rcases Nat.le_total (ch.value q) (ch.value r) with hbelow | habove
  · refine ⟨r, hr, a, ha, ?_⟩
    rw [abs_le]
    omega
  · refine ⟨b, hb, r, hr, ?_⟩
    rw [abs_le]
    omega

end Channel

namespace Image

/-- The four source pixels around a position, with their weights. -/
def weighed (i : Image) (column line : Sample) : List (Nat × UInt16) :=
  weigh column.weight line.weight (i.colour column.index line.index)
    (i.colour column.next line.index) (i.colour column.index line.next)
    (i.colour column.next line.next)

/-- The source pixels that have a weight at a position. -/
def support (i : Image) (column line : Sample) : List UInt16 :=
  ((i.weighed column line).filter fun e => e.1 ≠ 0).map Prod.snd

/-- The source pixels of a two by two block, from its last column and row. The first column and
the first row of the picture have no other before them. -/
def block (i : Image) (x y : Nat) : List UInt16 :=
  [x - 1, x].flatMap fun u => [y - 1, y].map fun v => i.colour u v

variable {i : Image} {column line : Sample}

theorem mem_support_of_mem {e : Nat × UInt16} (he : e ∈ i.weighed column line) (hweight : e.1 ≠ 0) :
    e.2 ∈ i.support column line := by
  apply List.mem_map_of_mem
  rw [List.mem_filter]
  exact ⟨he, by simpa using hweight⟩

theorem value_mixed (ch : Channel) (hx : column.weight ≤ 256) (hy : line.weight ≤ 256) :
    ch.value (i.mixed column line) = mean ch.value (i.weighed column line) :=
  value_blend ch hx hy _ _ _ _

theorem mixed_between (ch : Channel) (hx : column.weight ≤ 256) (hy : line.weight ≤ 256) :
    ch.Between (i.support column line) (i.mixed column line) := by
  have hpos : 0 < totalWeight (i.weighed column line) := by
    rw [weighed, totalWeight_weigh hx hy]
    decide
  obtain ⟨a, ha, haweight, hle⟩ := exists_le_mean (v := ch.value) hpos
  obtain ⟨b, hb, hbweight, hge⟩ := exists_mean_le (v := ch.value) hpos
  rw [← value_mixed ch hx hy] at hle hge
  exact ⟨⟨a.2, mem_support_of_mem ha haweight, hle⟩, b.2, mem_support_of_mem hb hbweight, hge⟩

/-- The second column and the second row only count if they have a weight. -/
theorem exists_of_mem_support {q : UInt16} (h : q ∈ i.support column line) :
    ∃ u v, q = i.colour u v ∧ (u = column.index ∨ u = column.next ∧ column.weight ≠ 0) ∧
      (v = line.index ∨ v = line.next ∧ line.weight ≠ 0) := by
  obtain ⟨e, he, rfl⟩ := List.mem_map.mp h
  obtain ⟨hmem, hweight⟩ := List.mem_filter.mp he
  simp only [weighed, weigh, List.mem_cons, List.not_mem_nil, or_false] at hmem
  rcases hmem with rfl | rfl | rfl | rfl
  · exact ⟨_, _, rfl, .inl rfl, .inl rfl⟩
  · have hx : column.weight ≠ 0 := fun h => by simp [h] at hweight
    exact ⟨_, _, rfl, .inr ⟨rfl, hx⟩, .inl rfl⟩
  · have hy : line.weight ≠ 0 := fun h => by simp [h] at hweight
    exact ⟨_, _, rfl, .inl rfl, .inr ⟨rfl, hy⟩⟩
  · have hx : column.weight ≠ 0 := fun h => by simp [h] at hweight
    have hy : line.weight ≠ 0 := fun h => by simp [h] at hweight
    exact ⟨_, _, rfl, .inr ⟨rfl, hx⟩, .inr ⟨rfl, hy⟩⟩

theorem mem_block {u v x y : Nat} (hu : u = x ∨ u + 1 = x) (hv : v = y ∨ v + 1 = y) :
    i.colour u v ∈ i.block x y := by
  have hcolumn : u ∈ [x - 1, x] := by
    rw [List.mem_pair]
    omega
  have hrow : v ∈ [y - 1, y] := by
    rw [List.mem_pair]
    omega
  exact List.mem_flatMap.mpr ⟨u, hcolumn, List.mem_map.mpr ⟨v, hrow, rfl⟩⟩

/-- In a target of the source's own size only the block that a pixel ends has a weight in it. -/
theorem support_self {x y : Nat} (hx : x < i.width) (hy : y < i.height) :
    ∀ q ∈ i.support (sampleAt x i.width i.width) (sampleAt y i.height i.height),
      q ∈ i.block x y := by
  intro q hq
  obtain ⟨u, v, rfl, hu, hv⟩ := exists_of_mem_support hq
  have hcolumn := sampleAt_self hx
  have hline := sampleAt_self hy
  apply mem_block
  · omega
  · omega

theorem colour_mem_pixels {u v : Nat} (hi : i.check = .ok ()) (hu : u < i.width)
    (hv : v < i.height) : i.colour u v ∈ i.pixels :=
  Array.mem_of_getElem? (getElem?_colour hi hu hv)

theorem mixed_eq_of_solid {q : UInt16} (hi : i.check = .ok ()) (hsolid : ∀ r ∈ i.pixels, r = q)
    (hx : column.weight ≤ 256) (hy : line.weight ≤ 256)
    (hcolumn : column.index < i.width ∧ column.next < i.width)
    (hline : line.index < i.height ∧ line.next < i.height) : i.mixed column line = q := by
  have hsupport : ∀ a ∈ i.support column line, a = q := by
    intro a ha
    obtain ⟨u, v, rfl, hu, hv⟩ := exists_of_mem_support ha
    exact hsolid _ (colour_mem_pixels hi (by omega) (by omega))
  apply Channel.eq_of_value
  intro ch
  obtain ⟨⟨a, ha, hle⟩, b, hb, hge⟩ := mixed_between ch hx hy (i := i)
  rw [hsupport a ha] at hle
  rw [hsupport b hb] at hge
  exact Nat.le_antisymm hge hle

end Image

namespace Compositor

variable {φ : Type} [FrameTarget φ] {c c' : Compositor} {target target' : φ} {i : Image}

/-- Bilinear resampling never overshoots. Each channel of a pixel is the mean of that channel over
its neighbours, and so lies between those of them that have a weight. One colour stays that
colour, and at the source's own size a pixel stays within its block. -/
theorem composite_never_overshoots {w h : Nat} (hmode : c.mode = .bilinear w h)
    (hok : (c.composite target i).outcome = .ok (c', target', .ok ())) :
    let s := FrameTarget.opened target
    ∃ m : Memory, target' = FrameTarget.shown target m ∧
      ∀ x y, x < w → y < h → ∃ (column line : Sample) (pixel : UInt16),
        bilinearSample x i.width w = .ok column ∧ bilinearSample y i.height h = .ok line ∧
        (column.index < i.width ∧ column.next < i.width) ∧
        (line.index < i.height ∧ line.next < i.height) ∧
        ({ s with pixels := m } : Surface).pixelBytes ((s.stride - w) / 2 + x) y =
          s.format.encode pixel ∧
        (∀ ch : Channel, ch.value pixel = mean ch.value (i.weighed column line) ∧
          ch.Between (i.support column line) pixel) ∧
        (∀ q, (∀ r ∈ i.pixels, r = q) → pixel = q) ∧
        (w = i.width → h = i.height → ∀ ch : Channel, ch.Between (i.block x y) pixel ∧
          ∃ a ∈ i.block x y, ∃ b ∈ i.block x y,
            |(ch.value pixel : ℤ) - ch.value (i.colour x y)| ≤
              (ch.value a : ℤ) - ch.value b) := by
  intro s
  obtain ⟨p, t, hdraw, htarget, -⟩ := drawing_of_composite hok
  obtain ⟨rfl, rfl⟩ := hdraw.size_of_bilinear hmode
  obtain ⟨hacross, hdown⟩ := hdraw.sampled _ _ hmode
  obtain ⟨⟨hw, hh⟩, -⟩ := (Image.check_eq_ok_iff i).mp hdraw.sound
  refine ⟨t.pixels, htarget, fun x y hx hy => ?_⟩
  have hcolumn := And.intro (sampleAt_index_lt hw (Nat.le_of_lt hx))
    (sampleAt_next_lt x p.width hw)
  have hline := And.intro (sampleAt_index_lt hh (Nat.le_of_lt hy))
    (sampleAt_next_lt y p.height hh)
  have hwx := Nat.le_of_lt (sampleAt_weight_lt x i.width p.width)
  have hwy := Nat.le_of_lt (sampleAt_weight_lt y i.height p.height)
  have hpixel := hdraw.pixelBytes_eq hx hy
  rw [hdraw.x_eq, hmode] at hpixel
  refine ⟨_, _, i.bilinearColour p x y, hacross x hx, hdown y hy, hcolumn, hline, hpixel,
    ?_, ?_, ?_⟩
  · exact fun ch => ⟨Image.value_mixed ch hwx hwy, Image.mixed_between ch hwx hwy⟩
  · exact fun q hsolid => Image.mixed_eq_of_solid hdraw.sound hsolid hwx hwy hcolumn hline
  · intro hwidth hheight ch
    have hsub : ∀ q ∈ i.support (sampleAt x i.width p.width) (sampleAt y i.height p.height),
        q ∈ i.block x y := by
      rw [hwidth, hheight]
      exact Image.support_self (hwidth ▸ hx) (hheight ▸ hy)
    have hbetween := (Image.mixed_between ch hwx hwy).mono hsub
    exact ⟨hbetween, hbetween.error_le (Image.mem_block (.inl rfl) (.inl rfl))⟩

theorem composite_never_overshoots_twoDots :
    ∃ (c' : Compositor) (target' : HostBuffer) (m : Memory) (pixel : UInt16),
      (({ mode := .bilinear 2 1 } : Compositor).composite roomyHost twoDots).outcome =
        .ok (c', target', .ok ()) ∧
      target'.target.pixels = m ∧
      ({ roomyHost.target with pixels := m } : Surface).pixelBytes 2 0 =
        PixelFormat.rgb565Be.encode pixel ∧
      Channel.red.value pixel = 16 ∧ (∀ ch : Channel, ch.Between [0x1234, 0xFFFF] pixel) ∧
      ∀ ch : Channel, ch.Between (twoDots.block 1 0) pixel := by
  have h : (({ mode := .bilinear 2 1 } : Compositor).composite roomyHost twoDots).outcome =
    .ok (_, _, .ok ()) := rfl
  obtain ⟨m, htarget, hpixels⟩ := composite_never_overshoots rfl h
  obtain ⟨column, line, pixel, hcolumn, hline, -, -, hbytes, hmean, -, hself⟩ :=
    hpixels 1 0 (by decide) (by decide)
  obtain rfl : column = ⟨0, 1, 128⟩ := (bilinearSample_eq_ok_iff.mp hcolumn).2
  obtain rfl : line = ⟨0, 0, 0⟩ := (bilinearSample_eq_ok_iff.mp hline).2
  have hred : mean Channel.red.value (twoDots.weighed ⟨0, 1, 128⟩ ⟨0, 0, 0⟩) = 16 := by decide
  have hsupport : twoDots.support ⟨0, 1, 128⟩ ⟨0, 0, 0⟩ = [0x1234, 0xFFFF] := by decide
  exact ⟨_, _, m, pixel, h, congrArg (fun b => b.target.pixels) htarget, hbytes,
    (hmean .red).1.trans hred, fun ch => hsupport ▸ (hmean ch).2,
    fun ch => (hself rfl rfl ch).1⟩

end Compositor

end EmulatorOutput.Picture
