import EmulatorOutput.Proofs.RowWrites

/-!
# Painted rows

What a surface holds after the first rows of a picture have been written to their place: in these
rows each column of the place holds its pixel, and every other byte is what it was.
-/

namespace EmulatorOutput.Picture

theorem getElem?_encodeRow (format : PixelFormat) (pixels : List UInt16) (x k : Nat)
    (hk : k < format.bytesPerPixel) :
    (encodeRow format pixels)[x * format.bytesPerPixel + k]? =
      pixels[x]?.bind fun q => (format.encode q)[k]? := by
  induction pixels generalizing x with
  | nil => simp [encodeRow]
  | cons q qs ih =>
    have hcons : encodeRow format (q :: qs) = format.encode q ++ encodeRow format qs := rfl
    have hlength : (format.encode q).length = format.bytesPerPixel := format.length_encode q
    rw [hcons]
    cases x with
    | zero =>
      rw [Nat.zero_mul, Nat.zero_add, List.getElem?_append_left (by omega)]
      rfl
    | succ x =>
      have hpos : (x + 1) * format.bytesPerPixel + k =
          format.bytesPerPixel + (x * format.bytesPerPixel + k) := by
        rw [Nat.succ_mul]
        omega
      rw [hpos, List.getElem?_append_right (by omega), hlength, Nat.add_sub_cancel_left, ih]
      rfl

namespace Surface

/-- The position of the first byte of a pixel. -/
def position (s : Surface) (x y : Nat) : Nat := y * s.pitch + x * s.format.bytesPerPixel

/-- The bytes of the pixel in column `x` of row `y`. -/
def pixelBytes (s : Surface) (x y : Nat) : List UInt8 :=
  (s.pixels.extract (s.position x y) (s.position x y + s.format.bytesPerPixel)).toList

theorem pixelBytes_eq {s : Surface} {x y : Nat} {bs : List UInt8}
    (hlength : bs.length = s.format.bytesPerPixel)
    (h : ∀ k < s.format.bytesPerPixel, s.pixels.bytes[s.position x y + k]? = bs[k]?) :
    s.pixelBytes x y = bs := by
  apply List.ext_getElem?
  intro k
  rw [pixelBytes, Memory.bytes_extract, Array.getElem?_toList, Array.getElem?_extract]
  by_cases hk : k < s.format.bytesPerPixel
  · have hbyte := h k hk
    rw [List.getElem?_eq_getElem (hlength ▸ hk)] at hbyte
    have hin : s.position x y + k < s.pixels.bytes.size := (Array.getElem?_eq_some_iff.mp hbyte).1
    rw [if_pos (by omega), hbyte, List.getElem?_eq_getElem (hlength ▸ hk)]
  · rw [if_neg (by omega), List.getElem?_eq_none (by omega)]

/-- Whether a byte position lies in the columns of a place in row `y`. -/
def Spans (s : Surface) (p : Placement) (y k : Nat) : Prop :=
  s.position p.x y ≤ k ∧ k < s.position (p.x + p.width) y

/-- In the first `n` rows of a place stand the given colours, and all other bytes are as in `s`. -/
structure Painted (s : Surface) (p : Placement) (colour : Nat → Nat → UInt16) (n : Nat)
    (t : Surface) : Prop where
  geometry_eq : t = { s with pixels := t.pixels }
  size_eq : t.pixels.size = s.pixels.size
  fits : 0 < n → (p.x + p.width) * s.format.bytesPerPixel ≤ s.pitch
  byte_eq : ∀ x y k, x < p.width → y < n → k < s.format.bytesPerPixel →
    t.pixels.bytes[s.position (p.x + x) y + k]? = (s.format.encode (colour x y))[k]?
  kept : ∀ k, (∀ y < n, ¬ s.Spans p y k) → t.pixels.bytes[k]? = s.pixels.bytes[k]?

namespace Painted

variable {s t t' : Surface} {p : Placement} {colour : Nat → Nat → UInt16} {n : Nat}

theorem none (s : Surface) (p : Placement) (colour : Nat → Nat → UInt16) :
    Painted s p colour 0 s where
  geometry_eq := rfl
  size_eq := rfl
  fits := fun h => absurd h (Nat.lt_irrefl 0)
  byte_eq := fun _ _ _ _ hy => absurd hy (Nat.not_lt_zero _)
  kept := fun _ _ => rfl

theorem format_eq (h : Painted s p colour n t) : t.format = s.format := by
  rw [h.geometry_eq]

def line (p : Placement) (colour : Nat → Nat → UInt16) (y : Nat) : List UInt16 :=
  (List.range p.width).map fun x => colour x y

/-- One more row. It lies behind all rows above it, so these stay as they are. -/
theorem row (h : Painted s p colour n t)
    (hrow : t.writeRow n (p.x * s.format.bytesPerPixel) (encodeRow s.format (line p colour n)) =
      .ok t') : Painted s p colour (n + 1) t' := by
  obtain ⟨⟨-, -, hrows⟩, hfits, ht'⟩ := writeRow_eq_ok_iff.mp hrow
  have hpitch : t.pitch = s.pitch := by rw [h.geometry_eq]; rfl
  have hlength : (encodeRow s.format (line p colour n)).length =
      p.width * s.format.bytesPerPixel := by
    rw [length_encodeRow, line, List.length_map, List.length_range]
  rw [hpitch, Nat.succ_mul, h.size_eq] at hrows
  rw [hlength, hpitch] at hfits
  have hstart : n * t.pitch + p.x * s.format.bytesPerPixel = s.position p.x n := by
    rw [hpitch, position]
  rw [hstart] at ht'
  have hend : s.position p.x n + p.width * s.format.bytesPerPixel =
      s.position (p.x + p.width) n := by
    rw [position, position, Nat.add_mul, Nat.add_assoc]
  have hin : s.position p.x n + (encodeRow s.format (line p colour n)).length ≤
      t.pixels.bytes.size := by
    rw [hlength, Memory.size_bytes, h.size_eq, position]
    omega
  have hbytes : t'.pixels.bytes = Bytes.writeAt t.pixels.bytes (s.position p.x n)
      (encodeRow s.format (line p colour n)) := by
    rw [ht']
    exact Memory.bytes_write _ _ _
  refine ⟨?_, ?_, ?_, ?_, ?_⟩
  · rw [ht', h.geometry_eq]
  · rw [ht', ← h.size_eq]
    exact Memory.size_write _ _ _
  · intro _
    rw [Nat.add_mul]
    exact hfits
  · intro x y k hx hy hk
    have hinner : x * s.format.bytesPerPixel + s.format.bytesPerPixel ≤
        p.width * s.format.bytesPerPixel := by
      rw [← Nat.succ_mul]
      exact Nat.mul_le_mul_right _ hx
    have hpos : s.position (p.x + x) y + k =
        s.position p.x y + (x * s.format.bytesPerPixel + k) := by
      rw [position, position, Nat.add_mul]
      omega
    rw [hpos, hbytes]
    rcases Nat.lt_or_eq_of_le (Nat.le_of_lt_succ hy) with habove | rfl
    · have hle : (y + 1) * s.pitch ≤ n * s.pitch := Nat.mul_le_mul_right _ habove
      rw [Nat.succ_mul] at hle
      rw [Bytes.getElem?_writeAt_of_lt _ (by simp only [position]; omega), ← hpos]
      exact h.byte_eq x y k hx habove hk
    · rw [Bytes.getElem?_writeAt_of_mem _ (by omega) hin, getElem?_encodeRow _ _ _ _ hk, line,
        List.getElem?_map, List.getElem?_range hx]
      rfl
  · intro k hk
    have hold := h.kept k fun y hy => hk y (Nat.lt_succ_of_lt hy)
    have hnew : ¬ s.Spans p n k := hk n (Nat.lt_succ_self n)
    rw [Spans, ← hend] at hnew
    rw [hbytes, ← hold]
    by_cases hlt : k < s.position p.x n
    · exact Bytes.getElem?_writeAt_of_lt _ hlt
    · exact Bytes.getElem?_writeAt_of_le _ (by omega)

theorem pixelBytes_eq (h : Painted s p colour n t) {x y : Nat} (hx : x < p.width) (hy : y < n) :
    t.pixelBytes (p.x + x) y = s.format.encode (colour x y) := by
  have hposition : t.position (p.x + x) y = s.position (p.x + x) y := by
    rw [h.geometry_eq]
    rfl
  apply Surface.pixelBytes_eq
  · rw [h.format_eq, PixelFormat.length_encode]
  · intro k hk
    rw [hposition]
    exact h.byte_eq x y k hx hy (h.format_eq ▸ hk)

end Painted

end Surface

end EmulatorOutput.Picture
