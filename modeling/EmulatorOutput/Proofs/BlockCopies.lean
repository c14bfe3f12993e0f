import EmulatorOutput.Proofs.ComposedFrames

/-!
# Block copies

A positioned copy repeats each pixel of the source in a square block. Copying rows as they are in
memory, where blocks have one pixel, is no different from encoding pixel by pixel.
-/

namespace EmulatorOutput.Picture

theorem copyBlocks_of_copyVerbatim {u v : Surface} {y start room : Nat} {row : List UInt16}
    (hformat : u.format = .rgb565) (hrow : row ≠ [])
    (h : copyVerbatim u y start room row = .ok v) : copyBlocks u y start room 1 row = .ok v := by
  obtain ⟨hroom, hwrite⟩ := copyVerbatim_eq_ok_iff.mp h
  have hsame : row.flatMap (List.replicate 1) = row := List.flatMap_singleton' row
  have hsize : u.format.bytesPerPixel * 1 = 2 := by rw [hformat]; rfl
  rw [copyBlocks_eq_ok_iff Nat.one_pos hrow (by rw [hsize, hroom]), hsize, hformat, hsame]
  exact ⟨by decide, hwrite⟩

namespace Compositor

variable {φ : Type} [FrameTarget φ] {c c' : Compositor} {target target' : φ} {i : Image}

/-- A positioned copy is exact. A pixel of the placement is the encoding of the source pixel whose
block it lies in, and where a row is copied verbatim, encoding its pixels would do the same. -/
theorem composite_copies_blocks {factor : Nat} (hmode : c.mode = .positioned factor)
    (h : (c.composite target i).outcome = .ok (c', target', .ok ())) :
    let s := FrameTarget.opened target
    let side := max factor 1
    (∃ m : Memory, target' = FrameTarget.shown target m ∧
      ∀ x y, x < i.width * side → y < i.height * side →
        ∃ q, i.pixels[y / side * i.width + x / side]? = some q ∧
          ({ s with pixels := m } : Surface).pixelBytes ((s.stride - i.width * side) / 2 + x) y =
            s.format.encode q) ∧
    ∀ (u v : Surface) (y start room : Nat) (row : List UInt16),
      u.format = .rgb565 → row ≠ [] → copyVerbatim u y start room row = .ok v →
        copyBlocks u y start room 1 row = .ok v := by
  intro s side
  refine ⟨?_, fun _ _ _ _ _ _ => copyBlocks_of_copyVerbatim⟩
  obtain ⟨p, t, hdraw, htarget, -⟩ := drawing_of_composite h
  have hside : 0 < side := ScaleMode.blockSide_pos factor
  obtain ⟨hsize, -, -⟩ := ScaleMode.plan_eq_ok_iff.mp hdraw.plan_eq
  rw [hmode] at hsize
  obtain ⟨hwidth, hheight⟩ : p.width = i.width * side ∧ p.height = i.height * side :=
    ScaleMode.outputSize?_positioned hsize
  refine ⟨t.pixels, htarget, fun x y hx hy => ?_⟩
  have hcolumn : x / side < i.width := Nat.div_lt_of_lt_mul (by rwa [Nat.mul_comm])
  have hrow : y / side < i.height := Nat.div_lt_of_lt_mul (by rwa [Nat.mul_comm])
  refine ⟨i.colour (x / side) (y / side), Image.getElem?_colour hdraw.sound hcolumn hrow, ?_⟩
  have hpixel := hdraw.pixelBytes_eq (hwidth ▸ hx) (hheight ▸ hy)
  rw [hdraw.x_eq, hwidth, hmode] at hpixel
  exact hpixel

theorem composite_copies_blocks_doubled :
    ∃ (c' : Compositor) (target' : HostBuffer) (m : Memory),
      (({ mode := .positioned 2 } : Compositor).composite roomyHost twoDots).outcome =
        .ok (c', target', .ok ()) ∧
      target'.target.pixels = m ∧
      ({ roomyHost.target with pixels := m } : Surface).pixelBytes 1 1 = [0x12, 0x34] ∧
      ({ roomyHost.target with pixels := m } : Surface).pixelBytes 2 0 = [0xFF, 0xFF] := by
  have h : (({ mode := .positioned 2 } : Compositor).composite roomyHost twoDots).outcome =
    .ok (_, _, .ok ()) := rfl
  obtain ⟨⟨m, htarget, hpixels⟩, -⟩ := composite_copies_blocks rfl h
  obtain ⟨q, hq, hleft⟩ := hpixels 1 1 (by decide) (by decide)
  obtain ⟨r, hr, hright⟩ := hpixels 2 0 (by decide) (by decide)
  obtain rfl : (0x1234 : UInt16) = q := Option.some.inj hq
  obtain rfl : (0xFFFF : UInt16) = r := Option.some.inj hr
  exact ⟨_, _, m, h, congrArg (fun b => b.target.pixels) htarget, hleft, hright⟩

end Compositor

end EmulatorOutput.Picture
