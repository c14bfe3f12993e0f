import EmulatorOutput.Proofs.FrameOutcomes

/-!
# Former pixels

What is left of the bytes that a surface held before a frame was drawn. Two surfaces of one shape
are compared, which differ in these bytes. The rows of the frame itself agree afterwards: either
they were blanked first, or the frame is as wide as they are long. The rows below the frame agree
if they were blanked, and are else what they were.
-/

namespace EmulatorOutput.Picture

open Checked

namespace Surface

variable {s o t t' : Surface} {p : Placement} {colour : Nat → Nat → UInt16} {k n y : Nat}

theorem Spans.exists_pixel (h : s.Spans p y k) :
    ∃ x j, x < p.width ∧ j < s.format.bytesPerPixel ∧ k = s.position (p.x + x) y + j := by
  obtain ⟨hfrom, hto⟩ := h
  have hsize := s.format.bytesPerPixel_pos
  have hrest : k - s.position p.x y < p.width * s.format.bytesPerPixel := by
    rw [position, Nat.add_mul] at hto
    rw [position] at hfrom ⊢
    omega
  refine ⟨(k - s.position p.x y) / s.format.bytesPerPixel,
    (k - s.position p.x y) % s.format.bytesPerPixel, (Nat.div_lt_iff_lt_mul hsize).mpr hrest,
    Nat.mod_lt _ hsize, ?_⟩
  have hparts := Nat.div_add_mod' (k - s.position p.x y) s.format.bytesPerPixel
  have hplace := Nat.add_mul p.x ((k - s.position p.x y) / s.format.bytesPerPixel)
    s.format.bytesPerPixel
  rw [position] at hfrom hparts hplace ⊢
  rw [position]
  omega

/-- Rows that are as long as a placement is wide are spanned as a whole. -/
theorem exists_spans (hwhole : p.x = 0 ∧ p.width = s.stride)
    (hfits : (p.x + p.width) * s.format.bytesPerPixel ≤ s.pitch) (hk : k < s.pitch * n) :
    ∃ y < n, s.Spans p y k := by
  have hpitch : s.pitch = s.stride * s.format.bytesPerPixel := by
    refine Nat.le_antisymm (Nat.min_le_left _ _) ?_
    rwa [hwhole.1, hwhole.2, Nat.zero_add] at hfits
  have hpos : 0 < s.pitch := Nat.pos_of_mul_pos_right (Nat.lt_of_le_of_lt (Nat.zero_le k) hk)
  have hrest := Nat.mod_lt k hpos
  have hparts := Nat.div_add_mod' k s.pitch
  refine ⟨k / s.pitch, Nat.div_lt_of_lt_mul hk, ?_⟩
  rw [Spans, position, position, hwhole.1, hwhole.2, Nat.zero_mul, Nat.zero_add, ← hpitch]
  omega

/-- The rows below a placement are not spanned. -/
theorem not_spans_below (hfits : (p.x + p.width) * s.format.bytesPerPixel ≤ s.pitch)
    (hk : s.pitch * n ≤ k) : ∀ y < n, ¬ s.Spans p y k := by
  rintro y hy ⟨-, hto⟩
  have hle : (y + 1) * s.pitch ≤ n * s.pitch := Nat.mul_le_mul_right _ hy
  rw [Nat.succ_mul, Nat.mul_comm n] at hle
  rw [position] at hto
  omega

/-- The same picture makes bytes agree where it is painted, and keeps them in agreement
elsewhere. -/
theorem Painted.agree (h : Painted s p colour n t) (h' : Painted o p colour n t')
    (hshape : s.SameShape o)
    (hk : (∃ y < n, s.Spans p y k) ∨ s.pixels.bytes[k]? = o.pixels.bytes[k]?) :
    t.pixels.bytes[k]? = t'.pixels.bytes[k]? := by
  by_cases hspan : ∃ y < n, s.Spans p y k
  · obtain ⟨y, hy, hin⟩ := hspan
    obtain ⟨x, j, hx, hj, rfl⟩ := hin.exists_pixel
    have hbyte := h'.byte_eq x y j hx hy (hshape.format_eq ▸ hj)
    rw [hshape.position_eq, hshape.format_eq] at hbyte
    rw [h.byte_eq x y j hx hy hj, hbyte]
  · have hout : ∀ y < n, ¬ s.Spans p y k := fun y hy hin => hspan ⟨y, hy, hin⟩
    rw [h.kept k hout, h'.kept k fun y hy => ?_]
    · exact hk.resolve_left hspan
    · rw [Spans, hshape.position_eq, hshape.position_eq]
      exact hout y hy

end Surface

open Surface (SameShape)

namespace Compositor

variable {c : Compositor} {i : Image} {s o t t' : Surface} {p : Placement} {k : Nat}

/-- The rows are not blanked, since the frame is as wide as they are long. -/
def SkipsBlanking (c : Compositor) (s : Surface) (p : Placement) : Prop :=
  c.clear = .whenNarrower ∧ p.width = s.stride

/-- A policy that blanks at times, and does not now, has looked at the width. -/
theorem skipsBlanking_of_not_applies (hpolicy : c.clear ≠ .never) (hwide : p.width ≤ s.stride)
    (hnot : ¬ (c.clear = .always ∨ c.clear = .whenNarrower ∧ p.width < s.stride)) :
    c.SkipsBlanking s p := by
  cases hclear : c.clear with
  | always => exact absurd (.inl hclear) hnot
  | never => exact absurd hclear hpolicy
  | whenNarrower =>
    refine ⟨hclear, Nat.le_antisymm hwide (Nat.le_of_not_lt fun hless => ?_)⟩
    exact hnot (.inr ⟨hclear, hless⟩)

theorem Accepts.of_sameShape (h : c.Accepts s i) (hshape : s.SameShape o)
    (hroom : s.pitch * s.height ≤ o.pixels.size) : c.Accepts o i := by
  obtain ⟨hfilled, hcounted, hplaced, hword, -⟩ := h
  rw [hshape]
  exact ⟨hfilled, hcounted, hplaced, hword, hroom⟩

namespace Drawing

theorem fits (h : Drawing c i s p t) : (p.x + p.width) * s.format.bytesPerPixel ≤ s.pitch := by
  obtain ⟨b, hblank, hpaint⟩ := h.painted
  have hfits := hpaint.fits (ScaleMode.plan_eq_ok_iff.mp h.plan_eq).2.1.2.1
  rw [hblank.geometry_eq] at hfits
  exact hfits

/-- All rows of the surface agree that were blanked or painted. -/
theorem agree (h : Drawing c i s p t) (h' : Drawing c i o p t') (hshape : s.SameShape o)
    (hpolicy : c.clear ≠ .never) (hk : k < s.pitch * s.height)
    (hrow : c.SkipsBlanking s p → k < s.pitch * p.height) :
    t.pixels.bytes[k]? = t'.pixels.bytes[k]? := by
  have hfits := h.fits
  obtain ⟨b, hblank, hpaint⟩ := h.painted
  obtain ⟨b', hblank', hpaint'⟩ := h'.painted
  obtain ⟨-, ⟨-, -, hwide, -⟩, hx⟩ := ScaleMode.plan_eq_ok_iff.mp h.plan_eq
  have hshape' : b.SameShape b' := by
    rw [hblank.geometry_eq, hblank'.geometry_eq, hshape]
    rfl
  refine hpaint.agree hpaint' hshape' ?_
  have hbyte := hblank.byte_eq k hk
  have hbyte' := hblank'.byte_eq k (by rwa [hshape.pitch_eq, hshape.height_eq])
  rw [hshape.stride_eq] at hbyte'
  by_cases happlies : c.clear = .always ∨ c.clear = .whenNarrower ∧ p.width < s.stride
  · rw [if_pos happlies] at hbyte hbyte'
    exact .inr (hbyte.trans hbyte'.symm)
  · have hskip := skipsBlanking_of_not_applies hpolicy hwide happlies
    have hwhole : p.x = 0 ∧ p.width = s.stride := by
      refine ⟨?_, hskip.2⟩
      rw [hx, hskip.2, centerOffset, Nat.sub_self]
    rw [hblank.geometry_eq]
    exact .inl (Surface.exists_spans hwhole hfits (hrow hskip))

/-- The rows below a frame are as they were if none was blanked. -/
theorem former_below (h : Drawing c i s p t) (hskip : c.SkipsBlanking s p)
    (hk : s.pitch * p.height ≤ k) : t.pixels.bytes[k]? = s.pixels.bytes[k]? := by
  have hfits := h.fits
  obtain ⟨b, hblank, hpaint⟩ := h.painted
  have hpitch : b.pitch = s.pitch := by
    rw [hblank.geometry_eq]
    rfl
  have hbelow : ∀ y < p.height, ¬ b.Spans p y k := by
    rw [← hpitch] at hk
    refine Surface.not_spans_below ?_ hk
    rw [hblank.geometry_eq]
    exact hfits
  rw [hpaint.kept k hbelow]
  by_cases hin : k < s.pitch * s.height
  · rw [hblank.byte_eq k hin, if_neg]
    rintro (halways | ⟨-, hless⟩)
    · rw [hskip.1] at halways
      cases halways
    · exact absurd hskip.2 (Nat.ne_of_lt hless)
  · exact hblank.kept k (Nat.le_of_not_lt hin)

end Drawing

/-- Whether a picture is drawn, and where, is the same for all surfaces of one shape. -/
theorem draw_of_sameShape (h : c.draw s i = .ok (t, .ok p)) (hshape : s.SameShape o)
    (hroom : s.pitch * s.height ≤ o.pixels.size) : ∃ t', c.draw o i = .ok (t', .ok p) := by
  have hdraw := drawing_of_draw h
  have haccept := accepts_of_drawn h
  have hfits := hdraw.fits
  have hends := haccept.draw_ends hdraw.plan_eq (haccept.accommodates hdraw.plan_eq hfits)
  have hpositions := (hends.post_of_ok h).2
  have haccept' := haccept.of_sameShape hshape hroom
  have hplan' : c.mode.plan i.width i.height o.stride o.height = .ok p := by
    rw [hshape.stride_eq, hshape.height_eq]
    exact hdraw.plan_eq
  have hfits' : (p.x + p.width) * o.format.bytesPerPixel ≤ o.pitch := by
    rwa [hshape.format_eq, hshape.pitch_eq]
  exact haccept'.exists_drawn hplan' (haccept'.accommodates hplan' hfits') hpositions

variable {φ ψ : Type} [FrameTarget φ] [FrameTarget ψ] {target target' : φ} {other : ψ}
  {c' : Compositor}

/-- Under a policy that blanks, the rows of a frame are the same whatever the target held before.
Under `whenNarrower` nothing is blanked for a frame as wide as the rows are long. The rows below
such a frame are what they were, and all others are the same. -/
theorem composite_forgets (hpolicy : c.clear ≠ .never)
    (h : (c.composite target i).outcome = .ok (c', target', .ok ()))
    (hopen : (FrameTarget.acquire other).2.1 = .ok ())
    (hshape : (FrameTarget.opened target).SameShape (FrameTarget.opened other))
    (hroom : (FrameTarget.opened other).pitch * (FrameTarget.opened other).height ≤
      (FrameTarget.opened other).pixels.size) :
    let s := FrameTarget.opened target
    let o := FrameTarget.opened other
    ∃ (p : Placement) (m m' : Memory),
      c.mode.plan i.width i.height s.stride s.height = .ok p ∧
      target' = FrameTarget.shown target m ∧
      (c.composite other i).outcome = .ok (c', FrameTarget.shown other m', .ok ()) ∧
      (∀ k < s.pitch * s.height, (c.SkipsBlanking s p → k < s.pitch * p.height) →
        m.bytes[k]? = m'.bytes[k]?) ∧
      (c.SkipsBlanking s p → ∀ k, s.pitch * p.height ≤ k →
        m.bytes[k]? = s.pixels.bytes[k]? ∧ m'.bytes[k]? = o.pixels.bytes[k]?) := by
  intro s o
  have hcases := composed c target i
  rw [h] at hcases
  cases hcases with
  | @drawn t p _ hdraw =>
    rw [hshape.pitch_eq, hshape.height_eq] at hroom
    obtain ⟨t', hdraw'⟩ := draw_of_sameShape hdraw hshape hroom
    have hdrawn := drawing_of_draw hdraw
    have hdrawn' := drawing_of_draw hdraw'
    refine ⟨p, t.pixels, t'.pixels, hdrawn.plan_eq, rfl, composite_of_drawn hopen hdraw', ?_, ?_⟩
    · exact fun k hk hrow => hdrawn.agree hdrawn' hshape hpolicy hk hrow
    · intro hskip k hk
      have hskip' : c.SkipsBlanking o p := ⟨hskip.1, hskip.2.trans hshape.stride_eq.symm⟩
      refine ⟨hdrawn.former_below hskip hk, hdrawn'.former_below hskip' ?_⟩
      rwa [hshape.pitch_eq]

/-- Two rows of two pixels, every byte the same. -/
def evenHost (v : UInt8) : HostBuffer where
  target :=
    { pixels := Memory.filled 8 v, stride := 2, width := 2, height := 2, format := .rgb565Be }

/-- Rows that are longer than the frame is wide, and hold other bytes than `roomyHost`. -/
def darkHost : HostBuffer := { roomyHost with target.pixels := Memory.blank 23 }

/-- The frame is one row. The other row is blanked under `always`, and kept under `whenNarrower`,
since the rows are as long as the frame is wide. Longer rows are blanked under both. -/
theorem composite_forgets_evenHost :
    (∃ (target' other' : HostBuffer) (c' : Compositor),
      (({ clear := .always } : Compositor).composite (evenHost 0xAA) twoDots).outcome =
        .ok (c', target', .ok ()) ∧
      (({ clear := .always } : Compositor).composite (evenHost 0) twoDots).outcome =
        .ok (c', other', .ok ()) ∧
      ∀ k < 8, target'.target.pixels.bytes[k]? = other'.target.pixels.bytes[k]?) ∧
    (∃ (target' other' : HostBuffer) (c' : Compositor),
      (({ clear := .whenNarrower } : Compositor).composite (evenHost 0xAA) twoDots).outcome =
        .ok (c', target', .ok ()) ∧
      (({ clear := .whenNarrower } : Compositor).composite (evenHost 0) twoDots).outcome =
        .ok (c', other', .ok ()) ∧
      (∀ k < 4, target'.target.pixels.bytes[k]? = other'.target.pixels.bytes[k]?) ∧
      target'.target.pixels.bytes[4]? = some 0xAA ∧ other'.target.pixels.bytes[4]? = some 0) ∧
    ∃ (target' other' : HostBuffer) (c' : Compositor),
      (({ clear := .whenNarrower } : Compositor).composite roomyHost twoDots).outcome =
        .ok (c', target', .ok ()) ∧
      (({ clear := .whenNarrower } : Compositor).composite darkHost twoDots).outcome =
        .ok (c', other', .ok ()) ∧
      ∀ k < 20, target'.target.pixels.bytes[k]? = other'.target.pixels.bytes[k]? := by
  have hopen : (FrameTarget.acquire (evenHost 0)).2.1 = .ok () := rfl
  refine ⟨?_, ?_, ?_⟩
  · have h : (({ clear := .always } : Compositor).composite (evenHost 0xAA) twoDots).outcome =
      .ok (_, _, .ok ()) := rfl
    obtain ⟨p, m, m', -, htarget, hother, hrows, -⟩ :=
      composite_forgets (by decide) h hopen rfl (by decide)
    refine ⟨_, _, _, h, hother, fun k hk => ?_⟩
    rw [htarget]
    exact hrows k hk fun hskip => nomatch hskip.1
  · have h : (({ clear := .whenNarrower } : Compositor).composite (evenHost 0xAA)
      twoDots).outcome = .ok (_, _, .ok ()) := rfl
    obtain ⟨p, m, m', hplan, htarget, hother, hrows, hbelow⟩ :=
      composite_forgets (by decide) h hopen rfl (by decide)
    obtain rfl : p = ⟨0, 2, 1⟩ := Except.ok.inj (hplan.symm.trans rfl)
    obtain ⟨hkept, hkept'⟩ := hbelow ⟨rfl, rfl⟩ 4 (by decide)
    refine ⟨_, _, _, h, hother, fun k hk => ?_, ?_, hkept'⟩
    · rw [htarget]
      exact hrows k (Nat.lt_trans hk (by decide)) fun _ => hk
    · rw [htarget]
      exact hkept
  · have h : (({ clear := .whenNarrower } : Compositor).composite roomyHost twoDots).outcome =
      .ok (_, _, .ok ()) := rfl
    have hdark : (FrameTarget.acquire darkHost).2.1 = .ok () := rfl
    obtain ⟨p, m, m', hplan, htarget, hother, hrows, -⟩ :=
      composite_forgets (by decide) h hdark rfl (by decide)
    obtain rfl : p = ⟨1, 2, 1⟩ := Except.ok.inj (hplan.symm.trans rfl)
    refine ⟨_, _, _, h, hother, fun k hk => ?_⟩
    rw [htarget]
    exact hrows k hk fun hskip => nomatch hskip.2

/-- The frame is one row as long as the rows, and the other row is kept. -/
theorem composite_keeps_lower_row :
    ∃ (target' other' : HostBuffer),
      (({} : Compositor).composite (evenHost 0xAA) twoDots).outcome =
        .ok ({ frames := 1 }, target', .ok ()) ∧
      (({} : Compositor).composite (evenHost 0) twoDots).outcome =
        .ok ({ frames := 1 }, other', .ok ()) ∧
      target'.target.pixels.bytes[4]? = some 0xAA ∧ other'.target.pixels.bytes[4]? = some 0 :=
  ⟨_, _, rfl, rfl, by decide, by decide⟩

end Compositor

end EmulatorOutput.Picture
