import EmulatorOutput.Proofs.DrawnPictures

/-!
# Composed frames

What a frame that was drawn leaves behind. It passed every check, the surface was blanked if the
policy says so, and the mode of the compositor painted the placement. All else is as it was.
-/

namespace EmulatorOutput.Picture

open Checked

namespace ScaleMode

/-- The colour of each pixel of a placement. -/
def colour (mode : ScaleMode) (i : Image) (p : Placement) : Nat → Nat → UInt16 :=
  match mode with
  | .positioned factor => i.blockColour (blockSide factor)
  | .bilinear _ _ => i.bilinearColour p
  | .nearest _ _ => i.nearestColour p

theorem blockSide_pos (factor : Nat) : 0 < blockSide factor := by
  unfold blockSide
  omega

theorem plan_eq_ok_iff {mode : ScaleMode} {width height stride targetHeight : Nat}
    {p : Placement} :
    mode.plan width height stride targetHeight = .ok p ↔
      mode.outputSize? width height = some (p.width, p.height) ∧
        (0 < p.width ∧ 0 < p.height ∧ p.width ≤ stride ∧ p.height ≤ targetHeight) ∧
          p.x = centerOffset stride p.width := by
  unfold plan
  cases mode.outputSize? width height with
  | none => simp
  | some size =>
    obtain ⟨w, h⟩ := size
    simp only [Placement.centered_eq_ok_iff, Option.some.injEq, Prod.mk.injEq]
    constructor
    · rintro ⟨hfits, rfl⟩
      exact ⟨⟨rfl, rfl⟩, hfits, rfl⟩
    · rintro ⟨⟨rfl, rfl⟩, hfits, hx⟩
      refine ⟨hfits, ?_⟩
      rw [← hx]

theorem outputSize?_positioned {factor width height w h : Nat}
    (hsize : (positioned factor).outputSize? width height = some (w, h)) :
    w = width * blockSide factor ∧ h = height * blockSide factor := by
  simp only [outputSize?, Option.bind_eq_bind, Option.bind_eq_some_iff,
    Word.mul?_eq_some_iff] at hsize
  obtain ⟨_, ⟨-, rfl⟩, _, ⟨-, rfl⟩, hsize⟩ := hsize
  cases hsize
  exact ⟨rfl, rfl⟩

end ScaleMode

theorem ClearPolicy.applies_iff (policy : ClearPolicy) (width stride : Nat) :
    policy.applies width stride = true ↔
      policy = .always ∨ policy = .whenNarrower ∧ width < stride := by
  cases policy <;> simp [applies]

open Surface (Painted)

namespace Compositor

variable {c : Compositor} {s b t : Surface} {i : Image} {p : Placement}

/-- `b` is `s`, with zeros in all rows if the policy blanks them for this placement. -/
structure Blanked (c : Compositor) (s : Surface) (p : Placement) (b : Surface) : Prop where
  geometry_eq : b = { s with pixels := b.pixels }
  size_eq : b.pixels.size = s.pixels.size
  byte_eq : ∀ k < s.pitch * s.height, b.pixels.bytes[k]? =
    if c.clear = .always ∨ c.clear = .whenNarrower ∧ p.width < s.stride then some 0
    else s.pixels.bytes[k]?
  kept : ∀ k, s.pitch * s.height ≤ k → b.pixels.bytes[k]? = s.pixels.bytes[k]?

theorem blanked_of_prepare (h : c.prepare s p = .ok b) : Blanked c s p b := by
  unfold prepare at h
  have happlies := c.clear.applies_iff p.width s.stride
  split at h
  · rename_i hclear
    obtain ⟨-, hroom, rfl⟩ := Surface.clear_eq_ok_iff.mp h
    have hbytes := Memory.bytes_erase s.pixels (s.pitch * s.height)
    rw [Nat.min_eq_left hroom] at hbytes
    refine ⟨rfl, rfl, ?_, ?_⟩
    · intro k hk
      rw [if_pos (happlies.mp hclear), hbytes, Array.getElem?_append_left (by simpa using hk)]
      simp [hk]
    · intro k hk
      rw [hbytes, Array.getElem?_append_right (by simpa using hk), Array.size_replicate,
        Array.getElem?_extract]
      have hpos : s.pitch * s.height + (k - s.pitch * s.height) = k := by omega
      rw [hpos]
      by_cases hin : k < s.pixels.size
      · rw [if_pos (by rw [Memory.size_bytes]; omega)]
      · rw [if_neg (by rw [Memory.size_bytes]; omega),
          Array.getElem?_eq_none (by rw [Memory.size_bytes]; omega)]
  · rename_i hkeep
    cases h
    refine ⟨rfl, rfl, ?_, fun _ _ => rfl⟩
    intro k _
    rw [if_neg fun hclear => hkeep (happlies.mpr hclear)]

theorem write_painted (hplan : c.mode.plan i.width i.height s.stride s.height = .ok p)
    (h : c.write b i p = .ok t) : Painted b p (c.mode.colour i p) p.height t := by
  obtain ⟨hsize, ⟨hpos, -⟩, -⟩ := ScaleMode.plan_eq_ok_iff.mp hplan
  unfold write at h
  cases hmode : c.mode with
  | positioned factor =>
    rw [hmode] at h hsize
    obtain ⟨hwidth, hheight⟩ := ScaleMode.outputSize?_positioned hsize
    exact copyPositioned_painted (ScaleMode.blockSide_pos factor) hpos hwidth hheight h
  | bilinear w h' =>
    rw [hmode] at h
    exact (resampleBilinear_painted hpos h).1
  | nearest w h' =>
    rw [hmode] at h
    exact resampleNearest_painted hpos h

/-- All that is known of a surface `t` that a picture was drawn into, which was `s` before. -/
structure Drawing (c : Compositor) (i : Image) (s : Surface) (p : Placement) (t : Surface) :
    Prop where
  sound : i.check = .ok ()
  plan_eq : c.mode.plan i.width i.height s.stride s.height = .ok p
  painted : ∃ b, Blanked c s p b ∧ Painted b p (c.mode.colour i p) p.height t
  sampled : ∀ w h, c.mode = .bilinear w h → Sampled i p p.height

theorem drawing_of_draw (h : c.draw s i = .ok (t, .ok p)) : Drawing c i s p t := by
  unfold draw at h
  split at h
  · cases h
  rename_i hsound
  split at h
  · cases h
  rename_i q hplan
  split at h
  · obtain ⟨b, hb, h⟩ := bind_eq_ok_iff.mp h
    obtain ⟨u, ht, h⟩ := bind_eq_ok_iff.mp h
    cases h
    refine ⟨hsound, hplan, ⟨b, blanked_of_prepare hb, write_painted hplan ht⟩, ?_⟩
    intro w h hmode
    rw [write, hmode] at ht
    obtain ⟨-, ⟨hpos, -⟩, -⟩ := ScaleMode.plan_eq_ok_iff.mp hplan
    exact (resampleBilinear_painted hpos ht).2
  · cases h

namespace Drawing

theorem geometry_eq (h : Drawing c i s p t) : t = { s with pixels := t.pixels } := by
  obtain ⟨b, hblank, hpaint⟩ := h.painted
  rw [hpaint.geometry_eq, hblank.geometry_eq]

theorem size_eq (h : Drawing c i s p t) : t.pixels.size = s.pixels.size := by
  obtain ⟨b, hblank, hpaint⟩ := h.painted
  rw [hpaint.size_eq, hblank.size_eq]

theorem pixelBytes_eq (h : Drawing c i s p t) {x y : Nat} (hx : x < p.width)
    (hy : y < p.height) :
    ({ s with pixels := t.pixels } : Surface).pixelBytes (p.x + x) y =
      s.format.encode (c.mode.colour i p x y) := by
  obtain ⟨b, hblank, hpaint⟩ := h.painted
  rw [← h.geometry_eq, hpaint.pixelBytes_eq hx hy, hblank.geometry_eq]

theorem x_eq (h : Drawing c i s p t) : p.x = (s.stride - p.width) / 2 :=
  (ScaleMode.plan_eq_ok_iff.mp h.plan_eq).2.2

theorem outputSize?_eq (h : Drawing c i s p t) :
    c.mode.outputSize? i.width i.height = some (p.width, p.height) :=
  (ScaleMode.plan_eq_ok_iff.mp h.plan_eq).1

theorem size_of_bilinear (h : Drawing c i s p t) {width height : Nat}
    (hmode : c.mode = .bilinear width height) : width = p.width ∧ height = p.height := by
  have hsize := h.outputSize?_eq
  rw [hmode] at hsize
  exact Prod.mk.inj (Option.some.inj hsize)

theorem size_of_nearest (h : Drawing c i s p t) {width height : Nat}
    (hmode : c.mode = .nearest width height) : width = p.width ∧ height = p.height := by
  have hsize := h.outputSize?_eq
  rw [hmode] at hsize
  exact Prod.mk.inj (Option.some.inj hsize)

end Drawing

end Compositor

namespace FrameTarget

variable {φ : Type} [FrameTarget φ]

/-- The surface of a target that has been acquired. -/
def opened (target : φ) : Surface := surface (acquire target).1

/-- A target that was acquired, filled and released. -/
def shown (target : φ) (m : Memory) : φ := release (putPixels (acquire target).1 m)

end FrameTarget

namespace Compositor

variable {φ : Type} [FrameTarget φ] {c c' : Compositor} {target target' : φ} {i : Image}

theorem drawing_of_composite (h : (c.composite target i).outcome = .ok (c', target', .ok ())) :
    ∃ p t, Drawing c i (FrameTarget.opened target) p t ∧
      target' = FrameTarget.shown target t.pixels ∧ c' = { c with frames := c.frames + 1 } := by
  unfold composite at h
  dsimp only at h
  split at h
  · cases h
  split at h
  · cases h
  rename_i t answer hdraw
  cases answer with
  | error e => cases h
  | ok p =>
    cases h
    exact ⟨p, t, drawing_of_draw hdraw, rfl, rfl⟩

/-- Outside the columns of the placement, and below its rows, a byte of the surface belongs to no
painted pixel. -/
theorem not_spans {b : Surface} {p : Placement} {y j : Nat}
    (hfits : (p.x + p.width) * b.format.bytesPerPixel ≤ b.pitch) (hj : j < b.pitch)
    (hout : ¬ (y < p.height ∧ p.x * b.format.bytesPerPixel ≤ j ∧
      j < (p.x + p.width) * b.format.bytesPerPixel)) :
    ∀ y' < p.height, ¬ b.Spans p y' (y * b.pitch + j) := by
  rintro y' hy' ⟨hfrom, hto⟩
  rw [Surface.position] at hfrom hto
  rcases Nat.lt_trichotomy y' y with habove | rfl | hbelow
  · have hle : (y' + 1) * b.pitch ≤ y * b.pitch := Nat.mul_le_mul_right _ habove
    rw [Nat.succ_mul] at hle
    omega
  · exact hout ⟨hy', by omega, by omega⟩
  · have hle : (y + 1) * b.pitch ≤ y' * b.pitch := Nat.mul_le_mul_right _ hbelow
    rw [Nat.succ_mul] at hle
    omega

/-- Drawing stays within the placement, whatever the mode. The other bytes of the rows are blank
or as they were, the bytes behind the last row are as they were, and the frame is counted. -/
theorem composite_stays_within
    (h : (c.composite target i).outcome = .ok (c', target', .ok ())) :
    let s := FrameTarget.opened target
    ∃ (p : Placement) (m : Memory),
      c.mode.plan i.width i.height s.stride s.height = .ok p ∧
      target' = FrameTarget.shown target m ∧ m.size = s.pixels.size ∧
      p.x = (s.stride - p.width) / 2 ∧ p.x + p.width ≤ s.stride ∧ p.height ≤ s.height ∧
      (∀ y j, y < s.height → j < s.pitch →
        ¬ (y < p.height ∧ p.x * s.format.bytesPerPixel ≤ j ∧
          j < (p.x + p.width) * s.format.bytesPerPixel) →
        m.bytes[y * s.pitch + j]? =
          if c.clear = .always ∨ c.clear = .whenNarrower ∧ p.width < s.stride then some 0
          else s.pixels.bytes[y * s.pitch + j]?) ∧
      (∀ k, s.pitch * s.height ≤ k → m.bytes[k]? = s.pixels.bytes[k]?) ∧
      c' = { c with frames := c.frames + 1 } := by
  intro s
  obtain ⟨p, t, hdraw, htarget, hcount⟩ := drawing_of_composite h
  obtain ⟨-, ⟨-, hheight, hwide, htall⟩, hx⟩ := ScaleMode.plan_eq_ok_iff.mp hdraw.plan_eq
  obtain ⟨b, hblank, hpaint⟩ := hdraw.painted
  have hpitch : b.pitch = s.pitch := by
    rw [hblank.geometry_eq]
    rfl
  have hformat : b.format = s.format := by rw [hblank.geometry_eq]
  have hfits := hpaint.fits hheight
  have hcentred : p.x + p.width ≤ s.stride := hx ▸ centerOffset_add_le hwide
  refine ⟨p, t.pixels, hdraw.plan_eq, htarget, hdraw.size_eq, hx, hcentred, htall, ?_, ?_, hcount⟩
  · intro y j hy hj hout
    have hin : y * s.pitch + j < s.pitch * s.height := by
      have hle : (y + 1) * s.pitch ≤ s.height * s.pitch := Nat.mul_le_mul_right _ hy
      rw [Nat.succ_mul, Nat.mul_comm s.height] at hle
      omega
    rw [← hblank.byte_eq _ hin]
    rw [← hpitch] at hj ⊢
    rw [← hformat] at hout
    exact hpaint.kept _ (not_spans hfits hj hout)
  · intro k hk
    rw [← hblank.kept k hk]
    refine hpaint.kept k ?_
    rintro y hy ⟨-, hto⟩
    have hle : (y + 1) * s.pitch ≤ s.height * s.pitch :=
      Nat.mul_le_mul_right _ (Nat.lt_of_lt_of_le hy htall)
    rw [Nat.succ_mul, Nat.mul_comm s.height] at hle
    rw [Surface.position, hpitch] at hto
    rw [hpitch] at hfits
    omega

/-- Two rows of five pixels, and three bytes more than that. -/
def roomyHost : HostBuffer where
  target :=
    { pixels := Memory.filled 23 0xAA, stride := 5, width := 5, height := 2, format := .rgb565Be }

def twoDots : Image where
  pixels := #[0x1234, 0xFFFF]
  width := 2
  height := 1

theorem composite_stays_within_roomyHost :
    ∃ (c' : Compositor) (target' : HostBuffer) (p : Placement) (m : Memory),
      (({} : Compositor).composite roomyHost twoDots).outcome = .ok (c', target', .ok ()) ∧
      p = { x := 1, width := 2, height := 1 } ∧ target'.target.pixels = m ∧
      m.bytes[0 * 10 + 1]? = some 0 ∧ m.bytes[0 * 10 + 6]? = some 0 ∧
      m.bytes[1 * 10 + 2]? = some 0 ∧ m.bytes[20]? = some 0xAA ∧ c'.frames = 1 := by
  have h : (({} : Compositor).composite roomyHost twoDots).outcome = .ok (_, _, .ok ()) := rfl
  obtain ⟨p, m, hplan, htarget, -, -, -, -, hout, hbehind, hcount⟩ := composite_stays_within h
  have hp : p = { x := 1, width := 2, height := 1 } := Except.ok.inj (hplan.symm.trans rfl)
  subst hp
  exact ⟨_, _, _, m, h, rfl, congrArg (fun b => b.target.pixels) htarget,
    hout 0 1 (by decide) (by decide) (by decide), hout 0 6 (by decide) (by decide) (by decide),
    hout 1 2 (by decide) (by decide) (by decide),
    hbehind 20 (by decide), congrArg frames hcount⟩

end Compositor

end EmulatorOutput.Picture
