import EmulatorOutput.Picture.Compositor
import EmulatorOutput.Proofs.CheckedLoops
import EmulatorOutput.Proofs.WorkBuffer

/-!
# Writes to a row

Two writes of which the second begins where the first ends are one write. So all loops that write
pixels one behind the other come to a single write of the row's bytes, and break off where that
does.
-/

namespace EmulatorOutput.Picture

open Checked

def encodeRow (format : PixelFormat) (pixels : List UInt16) : List UInt8 :=
  pixels.flatMap format.encode

theorem length_encodeRow (format : PixelFormat) (pixels : List UInt16) :
    (encodeRow format pixels).length = pixels.length * format.bytesPerPixel := by
  induction pixels with
  | nil => simp [encodeRow]
  | cons q qs ih =>
    have hcons : encodeRow format (q :: qs) = format.encode q ++ encodeRow format qs := rfl
    rw [hcons, List.length_append, ih, format.length_encode, List.length_cons, Nat.succ_mul]
    omega

namespace Surface

/-- A row that lies in the buffer as a whole. -/
def HasRow (s : Surface) (y : Nat) : Prop :=
  y + 1 < Word.limit ∧ (y + 1) * s.pitch < Word.limit ∧ (y + 1) * s.pitch ≤ s.pixels.size

variable {s t : Surface} {y column : Nat}

theorem rowStart_eq_ok_iff {a : Nat} : s.rowStart y = .ok a ↔ s.HasRow y ∧ a = y * s.pitch := by
  have hle : y * s.pitch ≤ (y + 1) * s.pitch := Nat.mul_le_mul_right _ (Nat.le_succ y)
  simp only [rowStart, HasRow, bind_eq_ok_iff, Word.mul_eq_ok_iff, Word.add_eq_ok_iff]
  constructor
  · rintro ⟨_, ⟨-, rfl⟩, _, ⟨hnext, rfl⟩, _, ⟨hstop, rfl⟩, h⟩
    split at h
    · rename_i hin
      cases h
      exact ⟨⟨hnext, hstop, hin.2⟩, rfl⟩
    · cases h
  · rintro ⟨⟨hnext, hstop, hin⟩, rfl⟩
    refine ⟨_, ⟨by omega, rfl⟩, _, ⟨hnext, rfl⟩, _, ⟨hstop, rfl⟩, ?_⟩
    rw [if_pos ⟨hle, hin⟩]
    rfl

theorem room_eq_ok_iff {start stop n : Nat} :
    s.room y start stop = .ok n ↔
      s.HasRow y ∧ (start ≤ stop ∧ stop ≤ s.pitch) ∧ n = stop - start := by
  simp only [room, bind_eq_ok_iff, rowStart_eq_ok_iff]
  constructor
  · rintro ⟨_, ⟨hrow, -⟩, h⟩
    split at h
    · rename_i hin
      cases h
      exact ⟨hrow, hin, rfl⟩
    · cases h
  · rintro ⟨hrow, hin, rfl⟩
    refine ⟨_, ⟨hrow, rfl⟩, ?_⟩
    rw [if_pos hin]
    rfl

theorem writeRow_eq_ok_iff {bs : List UInt8} :
    s.writeRow y column bs = .ok t ↔
      s.HasRow y ∧ column + bs.length ≤ s.pitch ∧
        t = { s with pixels := s.pixels.write (y * s.pitch + column) bs } := by
  rw [writeRow, bind_eq_ok_iff]
  constructor
  · rintro ⟨start, hstart, h⟩
    obtain ⟨hrow, rfl⟩ := rowStart_eq_ok_iff.mp hstart
    split at h
    · rename_i hfits
      cases h
      exact ⟨hrow, hfits, rfl⟩
    · cases h
  · rintro ⟨hrow, hfits, rfl⟩
    refine ⟨_, rowStart_eq_ok_iff.mpr ⟨hrow, rfl⟩, ?_⟩
    rw [if_pos hfits]
    rfl

theorem format_of_writeRow {bs : List UInt8} (h : s.writeRow y column bs = .ok t) :
    t.format = s.format := by
  obtain ⟨-, -, rfl⟩ := writeRow_eq_ok_iff.mp h
  rfl

theorem clear_eq_ok_iff :
    s.clear = .ok t ↔
      s.pitch * s.height < Word.limit ∧ s.pitch * s.height ≤ s.pixels.size ∧
        t = { s with pixels := s.pixels.erase (s.pitch * s.height) } := by
  simp only [clear, bind_eq_ok_iff, Word.mul_eq_ok_iff]
  constructor
  · rintro ⟨_, ⟨hword, rfl⟩, h⟩
    split at h
    · rename_i hin
      cases h
      exact ⟨hword, hin, rfl⟩
    · cases h
  · rintro ⟨hword, hin, rfl⟩
    refine ⟨_, ⟨hword, rfl⟩, ?_⟩
    rw [if_pos hin]
    rfl

theorem writeRow_append_iff {as bs : List UInt8} :
    s.writeRow y column (as ++ bs) = .ok t ↔
      ∃ u, s.writeRow y column as = .ok u ∧ u.writeRow y (column + as.length) bs = .ok t := by
  have hjoin (hrow : s.HasRow y) (hfits : column + as.length ≤ s.pitch) :
      s.pixels.write (y * s.pitch + column) (as ++ bs) =
        (s.pixels.write (y * s.pitch + column) as).write
          (y * s.pitch + (column + as.length)) bs := by
    have hin : (y + 1) * s.pitch ≤ s.pixels.size := hrow.2.2
    rw [Nat.succ_mul] at hin
    rw [Memory.write_append as bs (by omega), Nat.add_assoc]
  simp only [writeRow_eq_ok_iff, List.length_append, ← Nat.add_assoc column]
  constructor
  · rintro ⟨hrow, hfits, rfl⟩
    refine ⟨_, ⟨hrow, by omega, rfl⟩, ?_, hfits, ?_⟩
    · simpa [HasRow, pitch] using hrow
    · rw [hjoin hrow (by omega)]
      rfl
  · rintro ⟨_, ⟨hrow, hfits, rfl⟩, -, hrest, rfl⟩
    refine ⟨hrow, hrest, ?_⟩
    rw [hjoin hrow hfits]
    rfl

end Surface

/-! ## Loops -/

variable {α : Type} {s t : Surface} {y start size : Nat} {f : α → List UInt8}

/-- Pieces that are written one behind the other are written as one. -/
theorem foldlM_write_iff {step : Surface → α × Nat → Except Fault Surface} {format : PixelFormat}
    (hlength : ∀ a, (f a).length = size)
    (hstep : ∀ u v a n, u.format = format →
      (step u (a, n) = .ok v ↔ u.writeRow y (start + n * size) (f a) = .ok v))
    (hformat : s.format = format) (n : Nat) (a : α) (as : List α) :
    ((a :: as).zipIdx n).foldlM step s = .ok t ↔
      s.writeRow y (start + n * size) ((a :: as).flatMap f) = .ok t := by
  induction as generalizing s n a with
  | nil =>
    simp only [List.zipIdx_cons, List.zipIdx_nil, List.foldlM_cons, List.foldlM_nil,
      List.flatMap_cons, List.flatMap_nil, List.append_nil, bind_pure]
    exact hstep s t a n hformat
  | cons b bs ih =>
    rw [List.zipIdx_cons, List.foldlM_cons, bind_eq_ok_iff, List.flatMap_cons,
      Surface.writeRow_append_iff, hlength]
    have hnext : start + n * size + size = start + (n + 1) * size := by
      rw [Nat.succ_mul, Nat.add_assoc]
    rw [hnext]
    constructor
    · rintro ⟨u, hu, hrest⟩
      have hwrite := (hstep s u a n hformat).mp hu
      exact ⟨u, hwrite, (ih ((Surface.format_of_writeRow hwrite).trans hformat) _ _).mp hrest⟩
    · rintro ⟨u, hwrite, hrest⟩
      refine ⟨u, (hstep s u a n hformat).mpr hwrite, ?_⟩
      exact (ih ((Surface.format_of_writeRow hwrite).trans hformat) _ _).mpr hrest

theorem writePieces_eq_ok_iff {write : Surface → Nat → α → Except Fault Surface} {room : Nat}
    {values : List α} (hlength : ∀ a, (f a).length = size)
    (hwrite : ∀ u v n a, u.format = s.format →
      (write u n a = .ok v ↔ u.writeRow y n (f a) = .ok v))
    (hsize : 0 < size) (hroom : values.length * size = room) (hvalues : values ≠ []) :
    writePieces write s start room size values = .ok t ↔
      s.writeRow y start (values.flatMap f) = .ok t := by
  have hall : values.take (room / size) = values := by
    rw [← hroom, Nat.mul_div_cancel _ hsize, List.take_length]
  obtain ⟨a, as, rfl⟩ := List.exists_cons_of_ne_nil hvalues
  have hloop : ((a :: as).zipIdx 0).foldlM (fun u e => write u (start + e.2 * size) e.1) s = .ok t ↔
      s.writeRow y (start + 0 * size) ((a :: as).flatMap f) = .ok t :=
    foldlM_write_iff hlength (fun u v a n hu => hwrite u v (start + n * size) a hu) rfl 0 a as
  rw [Nat.zero_mul, Nat.add_zero] at hloop
  rw [writePieces, hall]
  exact hloop

theorem writeBlock_eq_ok_iff {factor n : Nat} {q : UInt16} (hfactor : 0 < factor) :
    writeBlock y (s.format.bytesPerPixel * factor) s n q = .ok t ↔
      s.writeRow y n (encodeRow s.format (List.replicate factor q)) = .ok t := by
  have hpos : 0 < s.format.bytesPerPixel := s.format.bytesPerPixel_pos
  rw [writeBlock, Nat.mul_div_cancel_left _ hpos]
  apply writePieces_eq_ok_iff s.format.length_encode
  · intro u v n q hu
    rw [hu]
  · exact hpos
  · rw [List.length_replicate, Nat.mul_comm]
  · rw [← List.length_pos_iff, List.length_replicate]
    exact hfactor

/-- If the blocks of a row fill its place, each pixel has a block and none is left out. -/
theorem copyBlocks_eq_ok_iff {factor room : Nat} {row : List UInt16} (hfactor : 0 < factor)
    (hrow : row ≠ []) (hroom : row.length * (s.format.bytesPerPixel * factor) = room) :
    copyBlocks s y start room factor row = .ok t ↔
      s.format.bytesPerPixel * factor < Word.limit ∧
        s.writeRow y start (encodeRow s.format (row.flatMap (List.replicate factor))) = .ok t := by
  have hsize : 0 < s.format.bytesPerPixel * factor :=
    Nat.mul_pos s.format.bytesPerPixel_pos hfactor
  have hblocks : row.flatMap (fun q => encodeRow s.format (List.replicate factor q)) =
      encodeRow s.format (row.flatMap (List.replicate factor)) := List.flatMap_assoc.symm
  have hpieces : writePieces (writeBlock y (s.format.bytesPerPixel * factor)) s start room
      (s.format.bytesPerPixel * factor) row = .ok t ↔
        s.writeRow y start (encodeRow s.format (row.flatMap (List.replicate factor))) = .ok t := by
    rw [← hblocks]
    apply writePieces_eq_ok_iff
    · intro q
      rw [length_encodeRow, List.length_replicate, Nat.mul_comm]
    · intro u v n q hu
      rw [← hu]
      exact writeBlock_eq_ok_iff hfactor
    · exact hsize
    · exact hroom
    · exact hrow
  simp only [copyBlocks, bind_eq_ok_iff, Word.mul_eq_ok_iff]
  constructor
  · rintro ⟨_, ⟨hword, rfl⟩, h⟩
    exact ⟨hword, hpieces.mp h⟩
  · rintro ⟨hword, h⟩
    exact ⟨_, ⟨hword, rfl⟩, hpieces.mpr h⟩

theorem copyVerbatim_eq_ok_iff {room : Nat} {row : List UInt16} :
    copyVerbatim s y start room row = .ok t ↔
      row.length * 2 = room ∧ s.writeRow y start (encodeRow .rgb565 row) = .ok t := by
  have hlength : (row.flatMap Bytes.little16).length = row.length * 2 :=
    length_encodeRow .rgb565 row
  unfold copyVerbatim
  dsimp only
  rw [hlength]
  split
  · rename_i hroom
    exact ⟨fun h => ⟨hroom, h⟩, fun h => h.2⟩
  · rename_i hroom
    exact ⟨nofun, fun h => absurd h.1 hroom⟩

/-- The position of a column that fits its row is a word. -/
theorem writePixel_eq_ok_iff {p : Placement} {x : Nat} {q : UInt16} :
    writePixel s p x y q = .ok t ↔
      s.writeRow y (p.x * s.format.bytesPerPixel + x * s.format.bytesPerPixel)
        (s.format.encode q) = .ok t := by
  rw [← Nat.add_mul]
  simp only [writePixel, bind_eq_ok_iff, Word.add_eq_ok_iff, Word.mul_eq_ok_iff]
  constructor
  · rintro ⟨_, ⟨-, rfl⟩, _, ⟨-, rfl⟩, h⟩
    exact h
  · intro h
    obtain ⟨-, hfits, -⟩ := Surface.writeRow_eq_ok_iff.mp h
    have hpitch : s.pitch ≤ Word.limit - 1 := Nat.min_le_right _ _
    have hlimit : 0 < Word.limit := by decide
    have hcolumn : p.x + x ≤ (p.x + x) * s.format.bytesPerPixel :=
      Nat.le_mul_of_pos_right _ s.format.bytesPerPixel_pos
    exact ⟨_, ⟨by omega, rfl⟩, _, ⟨by omega, rfl⟩, h⟩

theorem writeColumns_eq_ok_iff {p : Placement} {pixel : α → Except Fault UInt16}
    {columns : List α} (hcolumns : columns ≠ []) :
    writeColumns s p y pixel columns = .ok t ↔
      ∃ qs, columns.mapM pixel = .ok qs ∧
        s.writeRow y (p.x * s.format.bytesPerPixel) (encodeRow s.format qs) = .ok t := by
  have hloop : writeColumns s p y pixel columns = .ok t ↔
      ∃ qs, columns.mapM pixel = .ok qs ∧
        qs.zipIdx.foldlM (fun u e => writePixel u p e.2 y e.1) s = .ok t :=
    foldlM_bind_eq_ok_iff (f := pixel) (g := fun u e => writePixel u p e.2 y e.1)
  rw [hloop]
  have hstep (u v : Surface) (q : UInt16) (n : Nat) (hu : u.format = s.format) :
      writePixel u p n y q = .ok v ↔
        u.writeRow y (p.x * s.format.bytesPerPixel + n * s.format.bytesPerPixel)
          (s.format.encode q) = .ok v := by
    rw [← hu]
    exact writePixel_eq_ok_iff
  refine exists_congr fun qs => and_congr_right fun hqs => ?_
  obtain ⟨q, qs, rfl⟩ := List.exists_cons_of_ne_nil (ne_nil_of_mapM hcolumns hqs)
  have hrow : (q :: qs).zipIdx.foldlM (fun u e => writePixel u p e.2 y e.1) s = .ok t ↔
      s.writeRow y (p.x * s.format.bytesPerPixel + 0 * s.format.bytesPerPixel)
        (encodeRow s.format (q :: qs)) = .ok t :=
    foldlM_write_iff s.format.length_encode hstep rfl 0 q qs
  rwa [Nat.zero_mul, Nat.add_zero] at hrow

end EmulatorOutput.Picture
