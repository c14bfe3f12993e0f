import EmulatorOutput.Proofs.PaintedRows
import EmulatorOutput.Proofs.SamplePositions

/-!
# Drawn pictures

Each mode paints the rows of the placement from the top one down, and nothing else. What a pixel's
colour is depends on the mode: that of the source pixel whose block it lies in, a mixture of four,
or that of the nearest one.
-/

namespace EmulatorOutput.Picture

open Checked

namespace Image

/-- The pixel in column `x` of row `y`, black outside the picture. -/
def colour (i : Image) (x y : Nat) : UInt16 := i.pixels.getD (y * i.width + x) 0

theorem check_eq_ok_iff (i : Image) :
    i.check = .ok () ↔
      (0 < i.width ∧ 0 < i.height) ∧ i.width * i.height < Word.limit ∧
        i.pixels.size = i.width * i.height := by
  rw [← Word.mul?_eq_some_iff]
  unfold check
  split
  · rename_i h
    exact ⟨fun _ => ⟨⟨by omega, by omega⟩, h.2.2⟩, fun _ => rfl⟩
  · rename_i h
    refine ⟨nofun, fun hsound => absurd ?_ h⟩
    exact ⟨by omega, by omega, hsound.2⟩

theorem getElem?_colour {i : Image} (hi : i.check = .ok ()) {x y : Nat} (hx : x < i.width)
    (hy : y < i.height) : i.pixels[y * i.width + x]? = some (i.colour x y) := by
  have hsize := ((check_eq_ok_iff i).mp hi).2.2
  have hlast : (y + 1) * i.width ≤ i.height * i.width := Nat.mul_le_mul_right _ hy
  rw [Nat.succ_mul, Nat.mul_comm i.height] at hlast
  have hin : y * i.width + x < i.pixels.size := by omega
  rw [colour, Array.getD, dif_pos hin]
  exact Array.getElem?_eq_getElem hin

theorem row_eq_ok {i : Image} {y : Nat} {r : Array UInt16} (h : i.row y = .ok r) :
    y * i.width + i.width ≤ i.pixels.size ∧
      r = i.pixels.extract (y * i.width) (y * i.width + i.width) := by
  simp only [row, bind_eq_ok_iff, Word.mul_eq_ok_iff, Word.add_eq_ok_iff] at h
  obtain ⟨_, ⟨-, rfl⟩, _, ⟨-, rfl⟩, _, ⟨-, rfl⟩, h⟩ := h
  rw [Nat.succ_mul] at h
  split at h
  · rename_i hin
    cases h
    exact ⟨hin.2, rfl⟩
  · cases h

theorem getElem?_row {i : Image} {y x : Nat} {r : Array UInt16} (h : i.row y = .ok r)
    (hx : x < i.width) : r[x]? = some (i.colour x y) := by
  obtain ⟨hin, rfl⟩ := row_eq_ok h
  have hpos : y * i.width + x < i.pixels.size := by omega
  rw [Array.getElem?_extract, if_pos (by omega), colour, Array.getD, dif_pos hpos]
  exact Array.getElem?_eq_getElem hpos

theorem size_row {i : Image} {y : Nat} {r : Array UInt16} (h : i.row y = .ok r) :
    r.size = i.width := by
  obtain ⟨hin, rfl⟩ := row_eq_ok h
  rw [Array.size_extract]
  omega

theorem colour_of_pixelAt {i : Image} {y x : Nat} {r : Array UInt16} {q : UInt16}
    (h : i.row y = .ok r) (hq : pixelAt r x = .ok q) : q = i.colour x y := by
  unfold pixelAt at hq
  split at hq
  · rename_i p hp
    cases hq
    have hx : x < i.width := size_row h ▸ (Array.getElem?_eq_some_iff.mp hp).1
    rw [getElem?_row h hx] at hp
    exact (Option.some.inj hp).symm
  · cases hq

theorem toList_row {i : Image} {y : Nat} {r : Array UInt16} (h : i.row y = .ok r) :
    r.toList = (List.range i.width).map fun x => i.colour x y := by
  apply List.ext_getElem?
  intro x
  rw [Array.getElem?_toList, List.getElem?_map]
  by_cases hx : x < i.width
  · rw [getElem?_row h hx, List.getElem?_range hx, Option.map_some]
  · have hsize := size_row h
    rw [Array.getElem?_eq_none (by omega), List.getElem?_eq_none (by rw [List.length_range]; omega),
      Option.map_none]

/-- The mixture of four pixels that a pair of samples stands for. -/
def mixed (i : Image) (column line : Sample) : UInt16 :=
  blend (i.colour column.index line.index) (i.colour column.next line.index)
    (i.colour column.index line.next) (i.colour column.next line.next) column.weight line.weight

theorem eq_mixed {i : Image} {column line : Sample} {top bottom : Array UInt16} {q : UInt16}
    (htop : i.row line.index = .ok top) (hbottom : i.row line.next = .ok bottom)
    (hq : (do
      let a ← pixelAt top column.index
      let b ← pixelAt top column.next
      let c ← pixelAt bottom column.index
      let d ← pixelAt bottom column.next
      return blend a b c d column.weight line.weight) = Except.ok q) :
    q = i.mixed column line := by
  simp only [bind_eq_ok_iff] at hq
  obtain ⟨a, ha, b, hb, c, hc, d, hd, hq⟩ := hq
  cases hq
  rw [mixed, ← colour_of_pixelAt htop ha, ← colour_of_pixelAt htop hb,
    ← colour_of_pixelAt hbottom hc, ← colour_of_pixelAt hbottom hd]

def blockColour (i : Image) (side x y : Nat) : UInt16 := i.colour (x / side) (y / side)

def bilinearColour (i : Image) (p : Placement) (x y : Nat) : UInt16 :=
  i.mixed (sampleAt x i.width p.width) (sampleAt y i.height p.height)

def nearestColour (i : Image) (p : Placement) (x y : Nat) : UInt16 :=
  i.colour (nearestAt x i.width p.width) (nearestAt y i.height p.height)

end Image

/-! ## Positioned copies -/

/-- Repeating each of some values gives every one its own block of positions. -/
theorem flatMap_replicate_range {α : Type} (g : Nat → α) {side : Nat} (hside : 0 < side)
    (n : Nat) : ((List.range n).map g).flatMap (List.replicate side) =
      (List.range (n * side)).map fun x => g (x / side) := by
  induction n with
  | zero => rw [Nat.zero_mul]; rfl
  | succ n ih =>
    have hblock : ((List.range side).map fun x => g ((n * side + x) / side)) =
        List.replicate side (g n) := by
      rw [List.eq_replicate_iff, List.length_map, List.length_range]
      refine ⟨rfl, fun q hq => ?_⟩
      obtain ⟨x, hx, rfl⟩ := List.mem_map.mp hq
      have hin : x / side = 0 := Nat.div_eq_of_lt (List.mem_range.mp hx)
      rw [Nat.mul_comm, Nat.mul_add_div hside, hin, Nat.add_zero]
    rw [List.range_succ, List.map_append, List.flatMap_append, ih, Nat.succ_mul, List.range_add,
      List.map_append, List.map_map]
    congr 1
    rw [List.map_singleton, List.flatMap_singleton, ← hblock]
    rfl

open Surface (Painted)

variable {s t : Surface} {i : Image} {p : Placement}

theorem writeRow_of_copy {y start room side : Nat} {row : List UInt16} (hside : 0 < side)
    (hrow : row ≠ []) (hroom : row.length * (s.format.bytesPerPixel * side) = room)
    (h : (if side = 1 ∧ s.format = .rgb565 then copyVerbatim s y start room row
      else copyBlocks s y start room side row) = .ok t) :
    s.writeRow y start (encodeRow s.format (row.flatMap (List.replicate side))) = .ok t := by
  split at h
  · rename_i hfast
    have hsame : row.flatMap (List.replicate 1) = row := List.flatMap_singleton' row
    rw [hfast.1, hfast.2, hsame]
    exact (copyVerbatim_eq_ok_iff.mp h).2
  · exact ((copyBlocks_eq_ok_iff hside hrow hroom).mp h).2

/-- Each source row fills the rows of its blocks. -/
theorem copyPositioned_painted {side : Nat} (hside : 0 < side) (hpos : 0 < p.width)
    (hwidth : p.width = i.width * side) (hheight : p.height = i.height * side)
    (h : copyPositioned i s p side = .ok t) :
    Painted s p (i.blockColour side) p.height t := by
  simp only [copyPositioned, bind_eq_ok_iff, Word.mul_eq_ok_iff, Word.add_eq_ok_iff] at h
  obtain ⟨_, ⟨-, rfl⟩, _, ⟨-, rfl⟩, _, ⟨-, rfl⟩, h⟩ := h
  rw [hheight]
  refine foldlM_range_induction (P := fun k u => Painted s p (i.blockColour side) (k * side) u)
    ?_ ?_ h
  · rw [Nat.zero_mul]
    exact Painted.none s p _
  · intro y _ u u' hu hpass
    obtain ⟨row, hrow, hpass⟩ := bind_eq_ok_iff.mp hpass
    have hlength : row.toList.length = i.width := Image.size_row hrow
    have hfilled : row.toList ≠ [] := by
      rw [← List.length_pos_iff, hlength]
      exact Nat.pos_of_mul_pos_right (hwidth ▸ hpos)
    have hcolours (rep : Nat) (hrep : rep < side) :
        row.toList.flatMap (List.replicate side) =
          Painted.line p (i.blockColour side) (y * side + rep) := by
      have hy : (y * side + rep) / side = y := by
        rw [Nat.mul_comm, Nat.mul_add_div hside, Nat.div_eq_of_lt hrep, Nat.add_zero]
      rw [Image.toList_row hrow, flatMap_replicate_range _ hside, Painted.line, hwidth]
      simp only [Image.blockColour, hy]
    rw [Nat.succ_mul]
    refine foldlM_range_induction
      (P := fun rep v => Painted s p (i.blockColour side) (y * side + rep) v) hu ?_ hpass
    intro rep hrep v v' hv hwrite
    simp only [bind_eq_ok_iff, Word.mul_eq_ok_iff, Word.add_eq_ok_iff] at hwrite
    obtain ⟨_, ⟨-, rfl⟩, _, ⟨-, rfl⟩, room, hroom, hwrite⟩ := hwrite
    have hfull : row.toList.length * (v.format.bytesPerPixel * side) = room := by
      rw [(Surface.room_eq_ok_iff.mp hroom).2.2, Nat.add_sub_cancel_left, hlength, hwidth,
        hv.format_eq]
      ring
    have hrowWrite := writeRow_of_copy hside hfilled hfull hwrite
    rw [hcolours rep hrep, hv.format_eq] at hrowWrite
    exact hv.row hrowWrite

/-! ## Resampling -/

/-- Each column of a placement and each of its first `n` rows has a sample. -/
def Sampled (i : Image) (p : Placement) (n : Nat) : Prop :=
  (∀ x < p.width, bilinearSample x i.width p.width = .ok (sampleAt x i.width p.width)) ∧
    ∀ y < n, bilinearSample y i.height p.height = .ok (sampleAt y i.height p.height)

theorem resampleBilinear_painted (hpos : 0 < p.width) (h : resampleBilinear i s p = .ok t) :
    Painted s p (i.bilinearColour p) p.height t ∧ Sampled i p p.height := by
  rw [resampleBilinear, bind_eq_ok_iff] at h
  obtain ⟨columns, hcolumns, h⟩ := h
  have hsamples : columns = (List.range p.width).map fun x => sampleAt x i.width p.width :=
    eq_map_of_mapM (fun x _ r hr => (bilinearSample_eq_ok_iff.mp hr).2) hcolumns
  have hfilled : columns ≠ [] :=
    ne_nil_of_mapM (List.range_eq_nil.not.mpr (Nat.pos_iff_ne_zero.mp hpos)) hcolumns
  have hacross : ∀ x < p.width,
      bilinearSample x i.width p.width = .ok (sampleAt x i.width p.width) := by
    intro x hx
    obtain ⟨r, hr⟩ := exists_ok_of_mapM hcolumns x (List.mem_range.mpr hx)
    rw [hr, (bilinearSample_eq_ok_iff.mp hr).2]
  refine foldlM_range_induction
    (P := fun n u => Painted s p (i.bilinearColour p) n u ∧ Sampled i p n) ?_ ?_ h
  · exact ⟨Painted.none s p _, hacross, fun y hy => absurd hy (Nat.not_lt_zero y)⟩
  · rintro y _ u u' ⟨hu, -, hdown⟩ hpass
    obtain ⟨line, hline, hpass⟩ := bind_eq_ok_iff.mp hpass
    obtain ⟨top, htop, hpass⟩ := bind_eq_ok_iff.mp hpass
    obtain ⟨bottom, hbottom, hpass⟩ := bind_eq_ok_iff.mp hpass
    obtain ⟨pixels, hpixels, hwrite⟩ := (writeColumns_eq_ok_iff hfilled).mp hpass
    have hat : line = sampleAt y i.height p.height := (bilinearSample_eq_ok_iff.mp hline).2
    have hmixed : pixels = columns.map fun c => i.mixed c line :=
      eq_map_of_mapM (fun c _ q hq => Image.eq_mixed htop hbottom hq) hpixels
    have hcolours : pixels = Painted.line p (i.bilinearColour p) y := by
      rw [hmixed, hsamples, List.map_map, hat]
      rfl
    rw [hcolours, hu.format_eq] at hwrite
    refine ⟨hu.row hwrite, hacross, fun z hz => ?_⟩
    rcases Nat.lt_or_eq_of_le (Nat.le_of_lt_succ hz) with habove | rfl
    · exact hdown z habove
    · rw [hline, hat]

theorem resampleNearest_painted (hpos : 0 < p.width) (h : resampleNearest i s p = .ok t) :
    Painted s p (i.nearestColour p) p.height t := by
  rw [resampleNearest, bind_eq_ok_iff] at h
  obtain ⟨columns, hcolumns, h⟩ := h
  have hfilled : columns ≠ [] :=
    ne_nil_of_mapM (List.range_eq_nil.not.mpr (Nat.pos_iff_ne_zero.mp hpos)) hcolumns
  have hindices : columns = (List.range p.width).map fun x => nearestAt x i.width p.width :=
    eq_map_of_mapM (fun x _ r hr => nearestIndex_eq_ok hr) hcolumns
  refine foldlM_range_induction (P := fun n u => Painted s p (i.nearestColour p) n u) ?_ ?_ h
  · exact Painted.none s p _
  · intro y _ u u' hu hpass
    obtain ⟨line, hline, hpass⟩ := bind_eq_ok_iff.mp hpass
    obtain ⟨row, hrow, hpass⟩ := bind_eq_ok_iff.mp hpass
    obtain ⟨pixels, hpixels, hwrite⟩ := (writeColumns_eq_ok_iff hfilled).mp hpass
    have hat : line = nearestAt y i.height p.height := nearestIndex_eq_ok hline
    have hpicked : pixels = columns.map fun x => i.colour x line :=
      eq_map_of_mapM (fun x _ q hq => Image.colour_of_pixelAt hrow hq) hpixels
    have hcolours : pixels = Painted.line p (i.nearestColour p) y := by
      rw [hpicked, hindices, List.map_map, hat]
      rfl
    rw [hcolours, hu.format_eq] at hwrite
    exact hu.row hwrite

end EmulatorOutput.Picture
