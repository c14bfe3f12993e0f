import EmulatorOutput.Proofs.FormerPixels

/-!
# Verbatim frames

A picture that is resampled to its own size by nearest pixels is copied. Each sample is the pixel
of its own place, so that both ways of drawing plan the same place and paint it alike, and both
reject a picture for the same reason.
-/

namespace EmulatorOutput.Picture

open Checked

/-- Between equal sizes every coordinate is nearest to itself. -/
theorem nearestAt_self {x n : Nat} (hx : x < n) : nearestAt x n n = x := by
  have hsum : x * n * 2 + n = n + n * 2 * x := by ring
  have hhalf : n / (n * 2) = 0 := Nat.div_eq_of_lt (by omega)
  have hround : (x * n * 2 + n) / (n * 2) = x := by
    rw [hsum, Nat.add_mul_div_left _ _ (by omega), hhalf, Nat.zero_add]
  rw [nearestAt, hround]
  exact Nat.min_eq_left (Nat.le_sub_one_of_lt hx)

theorem Image.nearestColour_self {i : Image} {p : Placement} {x y : Nat}
    (hwidth : p.width = i.width) (hheight : p.height = i.height) (hx : x < p.width)
    (hy : y < p.height) : i.nearestColour p x y = i.blockColour 1 x y := by
  rw [nearestColour, blockColour, Nat.div_one, Nat.div_one]
  rw [hwidth] at hx ⊢
  rw [hheight] at hy ⊢
  rw [nearestAt_self hx, nearestAt_self hy]

namespace ScaleMode

/-- A sound picture is planned alike, whether it is copied or resampled to its own size. -/
theorem plan_verbatim {i : Image} (hi : i.check = .ok ()) (stride targetHeight : Nat) :
    (nearest i.width i.height).plan i.width i.height stride targetHeight =
      (positioned 1).plan i.width i.height stride targetHeight := by
  obtain ⟨⟨hwidth, hheight⟩, hword, -⟩ := (Image.check_eq_ok_iff i).mp hi
  have hacross : i.width < Word.limit :=
    Nat.lt_of_le_of_lt (Nat.le_mul_of_pos_right _ hheight) hword
  have hdown : i.height < Word.limit :=
    Nat.lt_of_le_of_lt (Nat.le_mul_of_pos_left _ hwidth) hword
  have hsize : (positioned 1).outputSize? i.width i.height = some (i.width, i.height) := by
    simp [outputSize?, blockSide, Word.mul?, hacross, hdown]
  simp only [plan, hsize]
  rfl

/-- The last of the doubled products of the positions is less than what a whole side would need. -/
theorem positionsFit_self {width height : Nat} (hacross : width * width * 2 + width < Word.limit)
    (hdown : height * height * 2 + height < Word.limit) :
    (nearest width height).PositionsFit width height := by
  have hlast (n : Nat) : (n - 1) * n * 2 + n ≤ n * n * 2 + n := by
    have hless : (n - 1) * n ≤ n * n := Nat.mul_le_mul_right _ (Nat.sub_le n 1)
    omega
  exact ⟨Nat.lt_of_le_of_lt (hlast width) hacross, Nat.lt_of_le_of_lt (hlast height) hdown⟩

end ScaleMode

theorem Surface.Painted.congr {s t : Surface} {p : Placement} {colour colour' : Nat → Nat → UInt16}
    {n : Nat} (h : Painted s p colour n t)
    (hsame : ∀ x < p.width, ∀ y < n, colour x y = colour' x y) : Painted s p colour' n t where
  geometry_eq := h.geometry_eq
  size_eq := h.size_eq
  fits := h.fits
  byte_eq x y k hx hy hk := by
    rw [← hsame x hx y hy]
    exact h.byte_eq x y k hx hy hk
  kept := h.kept

namespace Compositor

variable {c : Compositor} {s t t' b b' : Surface} {i : Image} {p : Placement}

/-- The compositor that resamples a picture to its own size. -/
def resampling (c : Compositor) (i : Image) : Compositor :=
  { c with mode := .nearest i.width i.height }

/-- The compositor that copies a picture pixel by pixel. -/
def copying (c : Compositor) : Compositor := { c with mode := .positioned 1 }

/-- What blanking leaves depends on nothing but the policy. -/
theorem Blanked.bytes_eq {d : Compositor} (h : Blanked c s p b) (h' : Blanked d s p b')
    (hclear : d.clear = c.clear) (k : Nat) : b.pixels.bytes[k]? = b'.pixels.bytes[k]? := by
  by_cases hk : k < s.pitch * s.height
  · rw [h.byte_eq k hk, h'.byte_eq k hk, hclear]
  · rw [h.kept k (Nat.le_of_not_lt hk), h'.kept k (Nat.le_of_not_lt hk)]

/-- Why a picture is rejected depends on nothing but its plan. -/
theorem rejected_alike {d : Compositor} {e : Failure}
    (hplan : i.check = .ok () → c.mode.plan i.width i.height s.stride s.height =
      d.mode.plan i.width i.height s.stride s.height)
    (h : c.draw s i = .ok (s, .error e)) : d.draw s i = .ok (s, .error e) := by
  have hnot : ¬ c.Accepts s i := draw_rejects_iff.mp ⟨e, h⟩
  cases hi : i.check with
  | error e' =>
    simp only [draw, hi] at h ⊢
    exact h
  | ok u =>
    have hsame := hplan hi
    cases hp : c.mode.plan i.width i.height s.stride s.height with
    | error e' =>
      simp only [draw, hi, ← hsame, hp] at h ⊢
      exact h
    | ok p =>
      have hrows : ¬ holdsRows s = true :=
        fun hrows => hnot (accepts_iff.mpr ⟨hi, ⟨p, hp⟩, hrows⟩)
      simp only [draw, hi, ← hsame, hp, if_neg hrows] at h ⊢
      exact h

/-- Resampled to its own size, or copied, a picture leaves the same bytes. -/
theorem Drawing.verbatim (h : Drawing (c.resampling i) i s p t) (h' : Drawing c.copying i s p t') :
    t.pixels.bytes = t'.pixels.bytes := by
  obtain ⟨hwidth, hheight⟩ := h.size_of_nearest rfl
  obtain ⟨b, hblank, hpaint⟩ := h.painted
  obtain ⟨b', hblank', hpaint'⟩ := h'.painted
  have hcopied : Surface.Painted b p (i.blockColour 1) p.height t := hpaint.congr
    fun x hx y hy => Image.nearestColour_self hwidth.symm hheight.symm hx hy
  have hshape : b.SameShape b' := by
    rw [hblank.geometry_eq, hblank'.geometry_eq]
    rfl
  refine Array.ext_getElem? fun k => hcopied.agree hpaint' hshape (.inr ?_)
  exact hblank.bytes_eq hblank' rfl k

theorem Accepts.of_plan {d : Compositor} (h : c.Accepts s i)
    (hplan : c.mode.plan i.width i.height s.stride s.height =
      d.mode.plan i.width i.height s.stride s.height) : d.Accepts s i := by
  rw [accepts_iff, ← hplan]
  exact accepts_iff.mp h

theorem exists_drawn_verbatim (h : (c.resampling i).Accepts s i)
    (hbytes : s.pixels.size ≤ Word.maxBytes)
    (hacross : i.width * i.width * 2 + i.width < Word.limit)
    (hdown : i.height * i.height * 2 + i.height < Word.limit) :
    ∃ t t' p, (c.resampling i).draw s i = .ok (t, .ok p) ∧
      c.copying.draw s i = .ok (t', .ok p) ∧ t.pixels.bytes = t'.pixels.bytes := by
  obtain ⟨hi, ⟨p, hplan⟩, -⟩ := accepts_iff.mp h
  have hsame := ScaleMode.plan_verbatim hi s.stride s.height
  have h' : c.copying.Accepts s i := h.of_plan hsame
  have hplan' : c.copying.mode.plan i.width i.height s.stride s.height = .ok p :=
    hsame.symm.trans hplan
  obtain ⟨t, ht⟩ := h.exists_drawn hplan (h.accommodates hplan (h.fits hbytes hplan))
    (ScaleMode.positionsFit_self hacross hdown)
  obtain ⟨t', ht'⟩ :=
    h'.exists_drawn hplan' (h'.accommodates hplan' (h'.fits hbytes hplan')) trivial
  exact ⟨t, t', p, ht, ht', (drawing_of_draw ht).verbatim (drawing_of_draw ht')⟩

variable {φ : Type} [FrameTarget φ]

/-- Resampling a picture to its own size is copying it. Both are answered alike, with the same
notices. Where the answer is a failure, both leave the same target; where the picture is drawn, the
same bytes are shown. Neither breaks off, for a buffer of any size that a collection may have. -/
theorem composite_verbatim (c : Compositor) {target : φ} {i : Image}
    (hbytes : (FrameTarget.opened target).pixels.size ≤ Word.maxBytes)
    (hacross : i.width * i.width * 2 + i.width < Word.limit)
    (hdown : i.height * i.height * 2 + i.height < Word.limit) :
    let near := c.resampling i
    let copy := c.copying
    ∃ notices,
      (∃ e target', near.composite target i = ⟨.ok (near, target', .error e), notices⟩ ∧
        copy.composite target i = ⟨.ok (copy, target', .error e), notices⟩) ∨
      ∃ m m', m.bytes = m'.bytes ∧
        near.composite target i = ⟨.ok ({ near with frames := c.frames + 1 },
          FrameTarget.shown target m, .ok ()), notices⟩ ∧
        copy.composite target i = ⟨.ok ({ copy with frames := c.frames + 1 },
          FrameTarget.shown target m', .ok ()), notices⟩ := by
  intro near copy
  let opened := FrameTarget.acquire target
  cases hopen : opened.2.1 with
  | error e =>
    refine ⟨opened.2.2, .inl ⟨e, opened.1, ?_, ?_⟩⟩
    · exact composite_eq_of_refused hopen
    · exact composite_eq_of_refused hopen
  | ok u =>
    by_cases haccept : near.Accepts (FrameTarget.opened target) i
    · obtain ⟨t, t', p, ht, ht', hsame⟩ := exists_drawn_verbatim haccept hbytes hacross hdown
      refine ⟨opened.2.2 ++ [⟨.trace, s!"Composited frame {c.frames + 1} at x={p.x}"⟩],
        .inr ⟨t.pixels, t'.pixels, hsame, ?_, ?_⟩⟩
      · exact composite_eq_of_drawn hopen ht
      · exact composite_eq_of_drawn hopen ht'
    · obtain ⟨e, he⟩ := draw_rejects_iff.mpr haccept
      have he' : copy.draw (FrameTarget.opened target) i =
          .ok (FrameTarget.opened target, .error e) :=
        rejected_alike (fun hi => ScaleMode.plan_verbatim hi _ _) he
      refine ⟨opened.2.2, .inl ⟨e, FrameTarget.release opened.1, ?_, ?_⟩⟩
      · exact composite_eq_of_rejected hopen he
      · exact composite_eq_of_rejected hopen he'

/-- Two rows of five pixels in the format of the source, so that rows are copied as they are. -/
def plainHost : HostBuffer where
  target := { roomyHost.target with format := .rgb565 }

theorem composite_verbatim_plainHost :
    (FrameTarget.opened plainHost).pixels.size ≤ Word.maxBytes ∧
    twoDots.width * twoDots.width * 2 + twoDots.width < Word.limit ∧
    twoDots.height * twoDots.height * 2 + twoDots.height < Word.limit ∧
    ∃ (host host' : HostBuffer) (c c' : Compositor),
      ((({} : Compositor).resampling twoDots).composite plainHost twoDots).outcome =
        .ok (c, host, .ok ()) ∧
      (({} : Compositor).copying.composite plainHost twoDots).outcome = .ok (c', host', .ok ()) ∧
      host.target.pixels.bytes = host'.target.pixels.bytes ∧
      (host.target.pixels.bytes.toList.take 8) = [0, 0, 0x34, 0x12, 0xFF, 0xFF, 0, 0] := by
  have hbytes : (FrameTarget.opened plainHost).pixels.size ≤ Word.maxBytes := by decide
  have hacross : twoDots.width * twoDots.width * 2 + twoDots.width < Word.limit := by decide
  have hdown : twoDots.height * twoDots.height * 2 + twoDots.height < Word.limit := by decide
  have hdrawn : ((({} : Compositor).resampling twoDots).composite plainHost twoDots).outcome =
    .ok (_, _, .ok ()) := rfl
  refine ⟨hbytes, hacross, hdown, ?_⟩
  obtain ⟨notices, ⟨e, target', hnear, -⟩ | ⟨m, m', hsame, hnear, hcopy⟩⟩ :=
    composite_verbatim {} hbytes hacross hdown
  · rw [hnear] at hdrawn
    cases hdrawn
  · have hshown := congrArg (fun x => x.2.1.target.pixels.bytes)
      (Except.ok.inj (hdrawn.symm.trans (congrArg Logged.outcome hnear)))
    refine ⟨_, _, _, _, congrArg Logged.outcome hnear, congrArg Logged.outcome hcopy, hsame, ?_⟩
    exact hshown ▸ rfl

end Compositor

end EmulatorOutput.Picture
