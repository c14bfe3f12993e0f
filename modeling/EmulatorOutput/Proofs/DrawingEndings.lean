import EmulatorOutput.Proofs.CheckedEndings
import EmulatorOutput.Proofs.ComposedFrames

/-!
# How drawing ends

A placement that lies in the rows of a surface is drawn without leaving them, and every source
pixel that is asked for is there. All that may break off is the arithmetic of sample positions,
whose products need not be words. It breaks off exactly if one of them is too large.
-/

namespace EmulatorOutput

open Checked

def Fault.IsOverflow (f : Fault) : Prop := f = .addOverflow ∨ f = .mulOverflow

namespace Word

variable {a b bound : Nat}

theorem mul_ends (h : a * b ≤ bound) :
    Ends (mul a b) (fun c => c = a * b ∧ c < limit)
      fun f => f.IsOverflow ∧ ¬ bound < limit := by
  refine (mulBelow_ends limit a b).mono_fail ?_
  rintro _ ⟨rfl, hover⟩
  exact ⟨.inr rfl, by omega⟩

theorem add_ends (h : a + b ≤ bound) :
    Ends (add a b) (fun c => c = a + b ∧ c < limit)
      fun f => f.IsOverflow ∧ ¬ bound < limit := by
  refine (addBelow_ends limit a b).mono_fail ?_
  rintro _ ⟨rfl, hover⟩
  exact ⟨.inl rfl, by omega⟩

end Word

namespace Picture

open Surface (HasRow)

theorem PixelFormat.two_le_bytesPerPixel (f : PixelFormat) : 2 ≤ f.bytesPerPixel := by
  cases f <;> decide

/-! ## Positions -/

/-- The positions of all samples that a picture of the given size is resampled at are words. -/
def ScaleMode.PositionsFit (mode : ScaleMode) (width height : Nat) : Prop :=
  match mode with
  | .positioned _ => True
  | .bilinear w h =>
    (width - 1) * (w - 1) * 65536 < Word.limit ∧ (height - 1) * (h - 1) * 65536 < Word.limit
  | .nearest w h =>
    (w - 1) * width * 2 + w < Word.limit ∧ (h - 1) * height * 2 + h < Word.limit

instance (mode : ScaleMode) (width height : Nat) : Decidable (mode.PositionsFit width height) :=
  match mode with
  | .positioned _ => .isTrue trivial
  | .bilinear _ _ => inferInstanceAs (Decidable (_ ∧ _))
  | .nearest _ _ => inferInstanceAs (Decidable (_ ∧ _))

section Samples

variable {dst srcSize dstSize : Nat}

theorem bilinearSample_ends (hsrc : 0 < srcSize) (hdst : dst < dstSize) :
    Ends (bilinearSample dst srcSize dstSize)
      (fun r => r = sampleAt dst srcSize dstSize ∧ (srcSize - 1) * dst * 65536 < Word.limit)
      fun f => f.IsOverflow ∧ ¬ (srcSize - 1) * (dstSize - 1) * 65536 < Word.limit := by
  have hlast : (srcSize - 1) * dst ≤ (srcSize - 1) * (dstSize - 1) :=
    Nat.mul_le_mul_left _ (by omega)
  unfold bilinearSample
  refine Ends.bind_ok (Word.sub_eq_ok_iff.mpr ⟨hsrc, rfl⟩) ?_
  refine (Word.mul_ends (by omega)).bind ?_
  rintro _ ⟨rfl, -⟩
  refine (Word.mul_ends (by omega)).bind ?_
  rintro _ ⟨rfl, hword⟩
  refine Ends.bind_ok (Word.div_eq_ok_iff.mpr ⟨by omega, rfl⟩) ?_
  exact ⟨(sampleAt_eq_fixed dst srcSize dstSize).symm, hword⟩

theorem nearestIndex_ends (hsrc : 0 < srcSize) (hdst : dst < dstSize)
    (htwice : dstSize * 2 < Word.limit) :
    Ends (nearestIndex dst srcSize dstSize)
      (fun r => r = nearestAt dst srcSize dstSize ∧ dst * srcSize * 2 + dstSize < Word.limit)
      fun f => f.IsOverflow ∧ ¬ (dstSize - 1) * srcSize * 2 + dstSize < Word.limit := by
  have hlast : dst * srcSize ≤ (dstSize - 1) * srcSize := Nat.mul_le_mul_right _ (by omega)
  unfold nearestIndex
  refine (Word.mul_ends (by omega)).bind ?_
  rintro _ ⟨rfl, -⟩
  refine (Word.mul_ends (by omega)).bind ?_
  rintro _ ⟨rfl, -⟩
  refine (Word.add_ends (by omega)).bind ?_
  rintro _ ⟨rfl, hword⟩
  refine Ends.bind_ok (Word.mul_eq_ok_iff.mpr ⟨htwice, rfl⟩) ?_
  refine Ends.bind_ok (Word.div_eq_ok_iff.mpr ⟨by omega, rfl⟩) ?_
  refine Ends.bind_ok (Word.sub_eq_ok_iff.mpr ⟨hsrc, rfl⟩) ?_
  exact ⟨rfl, hword⟩

end Samples

/-! ## Reading a picture -/

namespace Image

variable {i : Image} {x y : Nat}

theorem exists_row (hi : i.check = .ok ()) (hy : y < i.height) : ∃ r, i.row y = .ok r := by
  obtain ⟨⟨hpos, -⟩, hword, hsize⟩ := (check_eq_ok_iff i).mp hi
  have hnext : (y + 1) * i.width ≤ i.width * i.height := by
    rw [Nat.mul_comm i.width]
    exact Nat.mul_le_mul_right _ hy
  have hstart : y * i.width ≤ (y + 1) * i.width := Nat.mul_le_mul_right _ (Nat.le_succ y)
  have hlines : y + 1 ≤ (y + 1) * i.width := Nat.le_mul_of_pos_right _ hpos
  simp only [row, bind_eq_ok_iff, Word.mul_eq_ok_iff, Word.add_eq_ok_iff]
  refine ⟨i.pixels.extract (y * i.width) ((y + 1) * i.width), _, ⟨by omega, rfl⟩, _,
    ⟨by omega, rfl⟩, _, ⟨by omega, rfl⟩, ?_⟩
  rw [if_pos ⟨hstart, by omega⟩]
  rfl

theorem pixelAt_row {r : Array UInt16} (h : i.row y = .ok r) (hx : x < i.width) :
    pixelAt r x = .ok (i.colour x y) := by
  rw [pixelAt, getElem?_row h hx]

theorem pixel_mixed {column line : Sample} {top bottom : Array UInt16}
    (htop : i.row line.index = .ok top) (hbottom : i.row line.next = .ok bottom)
    (hindex : column.index < i.width) (hnext : column.next < i.width) :
    (do
      let a ← pixelAt top column.index
      let b ← pixelAt top column.next
      let c ← pixelAt bottom column.index
      let d ← pixelAt bottom column.next
      return blend a b c d column.weight line.weight) = Except.ok (i.mixed column line) := by
  rw [pixelAt_row htop hindex, pixelAt_row htop hnext, pixelAt_row hbottom hindex,
    pixelAt_row hbottom hnext]
  rfl

end Image

/-! ## Writing to a surface -/

namespace Surface

/-- The surfaces differ at most in their bytes. -/
def SameShape (s t : Surface) : Prop := t = { s with pixels := t.pixels }

/-- `t` is `s` with other bytes, as many as before. -/
structure Redrawn (s t : Surface) : Prop where
  shape : s.SameShape t
  size_eq : t.pixels.size = s.pixels.size

/-- The region of a placement is not empty, and lies in the rows and the bytes of a surface. -/
structure Accommodates (s : Surface) (p : Placement) : Prop where
  wide : 0 < p.width
  tall : 0 < p.height
  fits : (p.x + p.width) * s.format.bytesPerPixel ≤ s.pitch
  rows_lt : p.height * s.pitch < Word.limit
  rows_le : p.height * s.pitch ≤ s.pixels.size

variable {s t u : Surface} {p : Placement} {y : Nat}

namespace SameShape

theorem trans (h : s.SameShape t) (h' : t.SameShape u) : s.SameShape u := by
  rw [SameShape] at h h' ⊢
  rw [h', h]

theorem stride_eq (h : s.SameShape t) : t.stride = s.stride := by rw [h]

theorem height_eq (h : s.SameShape t) : t.height = s.height := by rw [h]

theorem format_eq (h : s.SameShape t) : t.format = s.format := by rw [h]

theorem pitch_eq (h : s.SameShape t) : t.pitch = s.pitch := by
  rw [h]
  rfl

theorem position_eq (h : s.SameShape t) (x y : Nat) : t.position x y = s.position x y := by
  rw [h]
  rfl

end SameShape

namespace Redrawn

theorem refl (s : Surface) : s.Redrawn s := ⟨rfl, rfl⟩

theorem trans (h : s.Redrawn t) (h' : t.Redrawn u) : s.Redrawn u :=
  ⟨h.shape.trans h'.shape, h'.size_eq.trans h.size_eq⟩

theorem of_writeRow {column : Nat} {bs : List UInt8} (h : s.writeRow y column bs = .ok t) :
    s.Redrawn t := by
  obtain ⟨-, -, rfl⟩ := writeRow_eq_ok_iff.mp h
  exact ⟨rfl, Memory.size_write _ _ _⟩

theorem of_clear (h : s.clear = .ok t) : s.Redrawn t := by
  obtain ⟨-, -, rfl⟩ := clear_eq_ok_iff.mp h
  exact ⟨rfl, rfl⟩

theorem format_eq (h : s.Redrawn t) : t.format = s.format := h.shape.format_eq

theorem pitch_eq (h : s.Redrawn t) : t.pitch = s.pitch := h.shape.pitch_eq

end Redrawn

namespace Accommodates

theorem redrawn (h : s.Accommodates p) (ht : s.Redrawn t) : t.Accommodates p := by
  obtain ⟨hwide, htall, hfits, hlt, hle⟩ := h
  refine ⟨hwide, htall, ?_, ?_, ?_⟩
  · rwa [ht.format_eq, ht.pitch_eq]
  · rwa [ht.pitch_eq]
  · rwa [ht.pitch_eq, ht.size_eq]

theorem two_le_pitch (h : s.Accommodates p) : 2 ≤ s.pitch := by
  have hone : s.format.bytesPerPixel ≤ (p.x + p.width) * s.format.bytesPerPixel :=
    Nat.le_mul_of_pos_left _ (Nat.add_pos_right _ h.wide)
  exact s.format.two_le_bytesPerPixel.trans (hone.trans h.fits)

theorem hasRow (h : s.Accommodates p) (hy : y < p.height) : s.HasRow y := by
  have hle : (y + 1) * s.pitch ≤ p.height * s.pitch := Nat.mul_le_mul_right _ hy
  have hrow : y + 1 ≤ (y + 1) * s.pitch :=
    Nat.le_mul_of_pos_right _ (Nat.lt_of_lt_of_le Nat.zero_lt_two h.two_le_pitch)
  have hlt := h.rows_lt
  exact ⟨by omega, by omega, hle.trans h.rows_le⟩

theorem pitch_lt (s : Surface) : s.pitch < Word.limit := by
  have hpitch : s.pitch ≤ Word.limit - 1 := Nat.min_le_right _ _
  have hlimit : 0 < Word.limit := by decide
  omega

theorem width_lt (h : s.Accommodates p) : p.width * 2 < Word.limit := by
  have htwice : p.width * 2 ≤ (p.x + p.width) * s.format.bytesPerPixel :=
    Nat.mul_le_mul (Nat.le_add_left _ _) s.format.two_le_bytesPerPixel
  exact Nat.lt_of_le_of_lt (htwice.trans h.fits) (pitch_lt s)

theorem height_lt (h : s.Accommodates p) : p.height * 2 < Word.limit :=
  Nat.lt_of_le_of_lt (Nat.mul_le_mul_left _ h.two_le_pitch) h.rows_lt

theorem writeRow (h : s.Accommodates p) (hy : y < p.height) {qs : List UInt16}
    (hqs : qs.length = p.width) :
    ∃ t, s.writeRow y (p.x * s.format.bytesPerPixel) (encodeRow s.format qs) = .ok t := by
  refine ⟨_, writeRow_eq_ok_iff.mpr ⟨h.hasRow hy, ?_, rfl⟩⟩
  rw [length_encodeRow, hqs, ← Nat.add_mul]
  exact h.fits

end Accommodates

end Surface

/-! ## The modes -/

open Surface (Redrawn)

variable {i : Image} {s : Surface} {p : Placement}

theorem copy_of_writeRow {t : Surface} {y start room side : Nat} {row : List UInt16}
    (hside : 0 < side) (hrow : row ≠ [])
    (hroom : row.length * (s.format.bytesPerPixel * side) = room)
    (hblock : s.format.bytesPerPixel * side < Word.limit)
    (h : s.writeRow y start (encodeRow s.format (row.flatMap (List.replicate side))) = .ok t) :
    (if side = 1 ∧ s.format = .rgb565 then copyVerbatim s y start room row
      else copyBlocks s y start room side row) = .ok t := by
  split
  · rename_i hfast
    obtain ⟨rfl, hformat⟩ := hfast
    have hsame : row.flatMap (List.replicate 1) = row := List.flatMap_singleton' row
    rw [hformat] at hroom h
    rw [hsame] at h
    exact copyVerbatim_eq_ok_iff.mpr ⟨hroom, h⟩
  · exact (copyBlocks_eq_ok_iff hside hrow hroom).mpr ⟨hblock, h⟩

/-- Writing a row of blocks to one row of the placement. -/
theorem copyRow_ends {t : Surface} {target side : Nat} {row : List UInt16} (hside : 0 < side)
    (hs : s.Accommodates p) (ht : s.Redrawn t) (htarget : target < p.height) (hrow : row ≠ [])
    (hcount : row.length * side = p.width) :
    Ends (do
      let start := p.x * s.format.bytesPerPixel
      let room ← t.room target start (start + p.width * s.format.bytesPerPixel)
      if side = 1 ∧ t.format = .rgb565 then copyVerbatim t target start room row
      else copyBlocks t target start room side row) s.Redrawn fun _ => False := by
  have hfits := hs.fits
  have hpitch := Surface.Accommodates.pitch_lt s
  rw [Nat.add_mul] at hfits
  have hroom : row.length * (t.format.bytesPerPixel * side) = p.width * s.format.bytesPerPixel := by
    rw [← hcount, ht.format_eq]
    ring
  have hblock : t.format.bytesPerPixel * side ≤ p.width * s.format.bytesPerPixel := by
    rw [← hroom]
    exact Nat.le_mul_of_pos_left _ (List.length_pos_iff.mpr hrow)
  have hwidth : (row.flatMap (List.replicate side)).length = p.width := by
    simp [List.length_flatMap, List.map_const', hcount]
  obtain ⟨u, hu⟩ := (hs.redrawn ht).writeRow htarget hwidth
  refine Ends.bind_ok (Surface.room_eq_ok_iff.mpr ⟨(hs.redrawn ht).hasRow htarget, ?_, rfl⟩) ?_
  · rw [ht.pitch_eq]
    omega
  · rw [Nat.add_sub_cancel_left]
    rw [ht.format_eq] at hu
    refine Ends.of_ok (copy_of_writeRow hside hrow hroom (by omega) ?_) (ht.trans (.of_writeRow hu))
    rw [ht.format_eq]
    exact hu

theorem copyPositioned_ends {side : Nat} (hside : 0 < side) (hs : s.Accommodates p)
    (hi : i.check = .ok ()) (hwidth : p.width = i.width * side)
    (hheight : p.height = i.height * side) :
    Ends (copyPositioned i s p side) s.Redrawn fun _ => False := by
  have hpos : 0 < i.width := Nat.pos_of_mul_pos_right (hwidth ▸ hs.wide)
  have hfits := hs.fits
  have hpitch := Surface.Accommodates.pitch_lt s
  have hwords := hs.height_lt
  rw [Nat.add_mul] at hfits
  unfold copyPositioned
  refine Ends.bind_ok (Word.mul_eq_ok_iff.mpr ⟨by omega, rfl⟩) ?_
  refine Ends.bind_ok (Word.mul_eq_ok_iff.mpr ⟨by omega, rfl⟩) ?_
  refine Ends.bind_ok (Word.add_eq_ok_iff.mpr ⟨by omega, rfl⟩) ?_
  refine Ends.foldlM_range (P := fun _ t => s.Redrawn t) (.refl s) ?_
  intro y hy t ht
  obtain ⟨row, hrow⟩ := Image.exists_row hi hy
  have hlength : row.toList.length = i.width := Image.size_row hrow
  have hfilled : row.toList ≠ [] := by
    rw [← List.length_pos_iff, hlength]
    exact hpos
  refine Ends.bind_ok hrow ?_
  refine Ends.foldlM_range (P := fun _ u => s.Redrawn u) ht ?_
  intro rep hrep u hu
  have htarget : y * side + rep < p.height := by
    have hlast : (y + 1) * side ≤ i.height * side := Nat.mul_le_mul_right _ hy
    rw [Nat.succ_mul] at hlast
    omega
  refine Ends.bind_ok (Word.mul_eq_ok_iff.mpr ⟨by omega, rfl⟩) ?_
  refine Ends.bind_ok (Word.add_eq_ok_iff.mpr ⟨by omega, rfl⟩) ?_
  exact copyRow_ends hside hs hu htarget hfilled (by rw [hlength, hwidth])

theorem writeColumns_ends {α : Type} {t : Surface} {y : Nat} {pixel : α → Except Fault UInt16}
    {columns : List α} {Q : Prop} {fail : Fault → Prop} (colour : α → UInt16)
    (hs : s.Accommodates p) (ht : s.Redrawn t) (hy : y < p.height)
    (hcount : columns.length = p.width) (hpixel : ∀ c ∈ columns, pixel c = .ok (colour c))
    (hQ : Q) : Ends (writeColumns t p y pixel columns) (fun u => s.Redrawn u ∧ Q) fail := by
  have hfilled : columns ≠ [] := by
    rw [← List.length_pos_iff, hcount]
    exact hs.wide
  obtain ⟨u, hu⟩ := (hs.redrawn ht).writeRow hy ((List.length_map colour).trans hcount)
  exact Ends.of_ok ((writeColumns_eq_ok_iff hfilled).mpr ⟨_, mapM_eq_ok_map hpixel, hu⟩)
    ⟨ht.trans (.of_writeRow hu), hQ⟩

theorem resampleBilinear_ends (hs : s.Accommodates p) (hi : i.check = .ok ()) :
    Ends (resampleBilinear i s p)
      (fun t => s.Redrawn t ∧ (ScaleMode.bilinear p.width p.height).PositionsFit i.width i.height)
      fun f => f.IsOverflow ∧
        ¬ (ScaleMode.bilinear p.width p.height).PositionsFit i.width i.height := by
  obtain ⟨⟨hwidth, hheight⟩, -⟩ := (Image.check_eq_ok_iff i).mp hi
  unfold resampleBilinear
  refine ((Ends.mapM fun x hx => bilinearSample_ends hwidth (List.mem_range.mp hx)).mono_fail
    fun f hf => ⟨hf.1, fun hfit => hf.2 hfit.1⟩).bind ?_
  rintro _ ⟨rfl, hacross⟩
  refine (Ends.foldlM_range_each (P := s.Redrawn)
    (Q := fun y => (i.height - 1) * y * 65536 < Word.limit) (.refl s) ?_).mono_post ?_
  · intro y hy t ht
    refine ((bilinearSample_ends hheight hy).mono_fail
      fun f hf => ⟨hf.1, fun hfit => hf.2 hfit.2⟩).bind ?_
    rintro _ ⟨rfl, hword⟩
    obtain ⟨top, htop⟩ := Image.exists_row hi (sampleAt_index_lt hheight (Nat.le_of_lt hy))
    obtain ⟨bottom, hbottom⟩ := Image.exists_row hi (sampleAt_next_lt y p.height hheight)
    refine Ends.bind_ok htop ?_
    refine Ends.bind_ok hbottom ?_
    refine writeColumns_ends (fun c => i.mixed c (sampleAt y i.height p.height)) hs ht hy
      (by simp) ?_ hword
    intro c hc
    obtain ⟨x, hx, rfl⟩ := List.mem_map.mp hc
    exact Image.pixel_mixed htop hbottom
      (sampleAt_index_lt hwidth (Nat.le_of_lt (List.mem_range.mp hx)))
      (sampleAt_next_lt x p.width hwidth)
  · rintro t ⟨ht, hdown⟩
    exact ⟨ht, hacross _ (List.mem_range.mpr (Nat.sub_one_lt_of_lt hs.wide)),
      hdown _ (Nat.sub_one_lt_of_lt hs.tall)⟩

theorem resampleNearest_ends (hs : s.Accommodates p) (hi : i.check = .ok ()) :
    Ends (resampleNearest i s p)
      (fun t => s.Redrawn t ∧ (ScaleMode.nearest p.width p.height).PositionsFit i.width i.height)
      fun f => f.IsOverflow ∧
        ¬ (ScaleMode.nearest p.width p.height).PositionsFit i.width i.height := by
  obtain ⟨⟨hwidth, hheight⟩, -⟩ := (Image.check_eq_ok_iff i).mp hi
  unfold resampleNearest
  refine ((Ends.mapM fun x hx =>
    nearestIndex_ends hwidth (List.mem_range.mp hx) hs.width_lt).mono_fail
      fun f hf => ⟨hf.1, fun hfit => hf.2 hfit.1⟩).bind ?_
  rintro _ ⟨rfl, hacross⟩
  refine (Ends.foldlM_range_each (P := s.Redrawn)
    (Q := fun y => y * i.height * 2 + p.height < Word.limit) (.refl s) ?_).mono_post ?_
  · intro y hy t ht
    refine ((nearestIndex_ends hheight hy hs.height_lt).mono_fail
      fun f hf => ⟨hf.1, fun hfit => hf.2 hfit.2⟩).bind ?_
    rintro _ ⟨rfl, hword⟩
    obtain ⟨row, hrow⟩ := Image.exists_row hi (nearestAt_lt y p.height hheight)
    refine Ends.bind_ok hrow ?_
    refine writeColumns_ends (fun x => i.colour x (nearestAt y i.height p.height)) hs ht hy
      (by simp) ?_ hword
    intro c hc
    obtain ⟨x, -, rfl⟩ := List.mem_map.mp hc
    exact Image.pixelAt_row hrow (nearestAt_lt x p.width hwidth)
  · rintro t ⟨ht, hdown⟩
    exact ⟨ht, hacross _ (List.mem_range.mpr (Nat.sub_one_lt_of_lt hs.wide)),
      hdown _ (Nat.sub_one_lt_of_lt hs.tall)⟩

namespace Compositor

variable {c : Compositor} {b : Surface}

theorem write_ends (hb : b.Accommodates p) (hi : i.check = .ok ())
    (hsize : c.mode.outputSize? i.width i.height = some (p.width, p.height)) :
    Ends (c.write b i p) (fun t => b.Redrawn t ∧ c.mode.PositionsFit i.width i.height)
      fun f => f.IsOverflow ∧ ¬ c.mode.PositionsFit i.width i.height := by
  unfold write
  cases hmode : c.mode with
  | positioned factor =>
    rw [hmode] at hsize
    obtain ⟨hwidth, hheight⟩ := ScaleMode.outputSize?_positioned hsize
    exact ((copyPositioned_ends (ScaleMode.blockSide_pos factor) hb hi hwidth hheight).mono_post
      fun _ h => ⟨h, trivial⟩).mono_fail fun _ h => h.elim
  | bilinear w h =>
    rw [hmode] at hsize
    obtain ⟨rfl, rfl⟩ := Prod.mk.inj (Option.some.inj hsize)
    exact resampleBilinear_ends hb hi
  | nearest w h =>
    rw [hmode] at hsize
    obtain ⟨rfl, rfl⟩ := Prod.mk.inj (Option.some.inj hsize)
    exact resampleNearest_ends hb hi

theorem holdsRows_iff :
    holdsRows s = true ↔ s.pitch * s.height < Word.limit ∧ s.pitch * s.height ≤ s.pixels.size := by
  unfold holdsRows
  split
  · rename_i size hsize
    obtain ⟨hword, rfl⟩ := Word.mul?_eq_some_iff.mp hsize
    simp [hword]
  · rename_i hnone
    simp only [Bool.false_eq_true, false_iff, not_and]
    intro hword
    rw [Word.mul?, if_pos hword] at hnone
    cases hnone

theorem exists_prepare (h : holdsRows s = true) : ∃ b, c.prepare s p = .ok b ∧ s.Redrawn b := by
  obtain ⟨hword, hroom⟩ := holdsRows_iff.mp h
  unfold prepare
  split
  · have hclear := Surface.clear_eq_ok_iff.mpr ⟨hword, hroom, rfl⟩
    exact ⟨_, hclear, .of_clear hclear⟩
  · exact ⟨s, rfl, .refl s⟩

end Compositor

end Picture

end EmulatorOutput
