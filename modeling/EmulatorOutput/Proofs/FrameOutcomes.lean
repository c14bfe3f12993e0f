import EmulatorOutput.Proofs.DrawingEndings

/-!
# What becomes of a frame

A frame is refused by its target, rejected by a check, broken off or drawn. Which of these it is
depends on the picture, the mode and the geometry of the surface. It breaks off exactly if it has
passed all checks and the position of one of its samples is no word.
-/

namespace EmulatorOutput.Picture

open Checked

namespace Compositor

/-- All that is checked before a picture is drawn. The picture holds one pixel for each of its
places, its region is not empty and fits the surface, and the surface holds all its rows. -/
structure Accepts (c : Compositor) (s : Surface) (i : Image) : Prop where
  filled : 0 < i.width ∧ 0 < i.height
  counted : i.width * i.height < Word.limit ∧ i.pixels.size = i.width * i.height
  placed : ∃ w h, c.mode.outputSize? i.width i.height = some (w, h) ∧
    (0 < w ∧ 0 < h) ∧ w ≤ s.stride ∧ h ≤ s.height
  held : s.pitch * s.height < Word.limit ∧ s.pitch * s.height ≤ s.pixels.size

variable {c : Compositor} {s : Surface} {i : Image} {p : Placement}

theorem accepts_iff :
    c.Accepts s i ↔
      i.check = .ok () ∧ (∃ p, c.mode.plan i.width i.height s.stride s.height = .ok p) ∧
        holdsRows s = true := by
  simp only [Image.check_eq_ok_iff, holdsRows_iff, ScaleMode.plan_eq_ok_iff]
  constructor
  · rintro ⟨hfilled, hcounted, ⟨w, h, hsize, ⟨hw, hh⟩, hwide, htall⟩, hheld⟩
    exact ⟨⟨hfilled, hcounted⟩,
      ⟨⟨centerOffset s.stride w, w, h⟩, hsize, ⟨hw, hh, hwide, htall⟩, rfl⟩, hheld⟩
  · rintro ⟨⟨hfilled, hcounted⟩, ⟨p, hsize, ⟨hw, hh, hwide, htall⟩, -⟩, hheld⟩
    exact ⟨hfilled, hcounted, ⟨p.width, p.height, hsize, ⟨hw, hh⟩, hwide, htall⟩, hheld⟩

/-- A picture is rejected by a check, before anything is written, or it has passed all checks and
nothing but a fault can come in the way. -/
theorem draw_cases (c : Compositor) (s : Surface) (i : Image) :
    (¬ c.Accepts s i ∧ ∃ e, c.draw s i = .ok (s, .error e)) ∨
    (c.Accepts s i ∧ ∃ p, c.mode.plan i.width i.height s.stride s.height = .ok p ∧
      c.draw s i = do
        let blank ← c.prepare s p
        let drawn ← c.write blank i p
        return (drawn, .ok p)) := by
  rw [accepts_iff]
  cases hcheck : i.check with
  | error e =>
    refine .inl ⟨fun h => ?_, e, by simp only [draw, hcheck]⟩
    cases h.1
  | ok u =>
    cases hplan : c.mode.plan i.width i.height s.stride s.height with
    | error e =>
      refine .inl ⟨fun h => ?_, e, by simp only [draw, hcheck, hplan]⟩
      obtain ⟨-, ⟨p, hp⟩, -⟩ := h
      cases hp
    | ok p =>
      by_cases hrows : holdsRows s = true
      · refine .inr ⟨⟨rfl, ⟨p, rfl⟩, hrows⟩, p, rfl, ?_⟩
        simp only [draw, hcheck, hplan, if_pos hrows]
      · left
        refine ⟨fun h => hrows h.2.2, ?_⟩
        simp only [draw, hcheck, hplan, if_neg hrows]
        exact ⟨_, rfl⟩

theorem draw_of_accepts (h : c.Accepts s i)
    (hplan : c.mode.plan i.width i.height s.stride s.height = .ok p) :
    c.draw s i = do
      let blank ← c.prepare s p
      let drawn ← c.write blank i p
      return (drawn, .ok p) := by
  obtain ⟨hnot, -⟩ | ⟨-, q, hq, hdraw⟩ := draw_cases c s i
  · exact absurd h hnot
  · obtain rfl : q = p := Except.ok.inj (hq.symm.trans hplan)
    exact hdraw

theorem Accepts.not_rejected {t : Surface} {e : Failure} (h : c.Accepts s i) :
    c.draw s i ≠ .ok (t, .error e) := by
  intro hreject
  obtain ⟨-, ⟨p, hplan⟩, -⟩ := accepts_iff.mp h
  rw [draw_of_accepts h hplan] at hreject
  obtain ⟨_, -, hreject⟩ := bind_eq_ok_iff.mp hreject
  obtain ⟨_, -, hreject⟩ := bind_eq_ok_iff.mp hreject
  cases hreject

/-- No check comes after a write: what is rejected has left the surface as it was. -/
theorem intact_of_rejected {t : Surface} {e : Failure} (h : c.draw s i = .ok (t, .error e)) :
    t = s := by
  obtain ⟨-, e', hdraw⟩ | ⟨haccept, -⟩ := draw_cases c s i
  · cases h.symm.trans hdraw
    rfl
  · exact absurd h haccept.not_rejected

theorem draw_rejects_iff : (∃ e, c.draw s i = .ok (s, .error e)) ↔ ¬ c.Accepts s i := by
  constructor
  · rintro ⟨e, hreject⟩ haccept
    exact haccept.not_rejected hreject
  · intro hnot
    obtain ⟨-, hreject⟩ | ⟨haccept, -⟩ := draw_cases c s i
    · exact hreject
    · exact absurd haccept hnot

theorem accepts_of_not_rejected (h : ∀ e, c.draw s i ≠ .ok (s, .error e)) : c.Accepts s i := by
  by_contra hnot
  obtain ⟨e, he⟩ := draw_rejects_iff.mpr hnot
  exact h e he

theorem accepts_of_drawn {t : Surface} (h : c.draw s i = .ok (t, .ok p)) : c.Accepts s i :=
  accepts_of_not_rejected (by simp [h])

namespace Accepts

theorem accommodates (h : c.Accepts s i)
    (hplan : c.mode.plan i.width i.height s.stride s.height = .ok p)
    (hfits : (p.x + p.width) * s.format.bytesPerPixel ≤ s.pitch) : s.Accommodates p := by
  obtain ⟨-, ⟨hwide, htall, -, hheight⟩, -⟩ := ScaleMode.plan_eq_ok_iff.mp hplan
  obtain ⟨hword, hroom⟩ := h.held
  have hrows : p.height * s.pitch ≤ s.pitch * s.height := by
    rw [Nat.mul_comm]
    exact Nat.mul_le_mul_left _ hheight
  exact ⟨hwide, htall, hfits, Nat.lt_of_le_of_lt hrows hword, hrows.trans hroom⟩

/-- The row length in bytes is exact, for a surface that holds such a row. -/
theorem pitch_eq (h : c.Accepts s i) (hbytes : s.pixels.size ≤ Word.maxBytes) :
    s.pitch = s.stride * s.format.bytesPerPixel := by
  obtain ⟨w, h', -, ⟨-, hpos⟩, -, htall⟩ := h.placed
  have hrow : s.pitch ≤ s.pitch * s.height := Nat.le_mul_of_pos_right _ (by omega)
  have hless : Word.maxBytes < Word.limit - 1 := by decide
  have hroom := h.held.2
  have hpitch : s.pitch = min (s.stride * s.format.bytesPerPixel) (Word.limit - 1) := rfl
  omega

theorem fits (h : c.Accepts s i) (hbytes : s.pixels.size ≤ Word.maxBytes)
    (hplan : c.mode.plan i.width i.height s.stride s.height = .ok p) :
    (p.x + p.width) * s.format.bytesPerPixel ≤ s.pitch := by
  obtain ⟨-, ⟨-, -, hwide, -⟩, hx⟩ := ScaleMode.plan_eq_ok_iff.mp hplan
  rw [h.pitch_eq hbytes, hx]
  exact Nat.mul_le_mul_right _ (centerOffset_add_le hwide)

theorem draw_ends (h : c.Accepts s i)
    (hplan : c.mode.plan i.width i.height s.stride s.height = .ok p)
    (hs : s.Accommodates p) :
    Ends (c.draw s i) (fun r => r.2 = .ok p ∧ c.mode.PositionsFit i.width i.height)
      fun f => f.IsOverflow ∧ ¬ c.mode.PositionsFit i.width i.height := by
  obtain ⟨hcheck, -, hrows⟩ := accepts_iff.mp h
  obtain ⟨b, hb, hblank⟩ := exists_prepare hrows (c := c) (p := p)
  have hsize := (ScaleMode.plan_eq_ok_iff.mp hplan).1
  rw [draw_of_accepts h hplan]
  refine Ends.bind_ok hb ?_
  refine (write_ends (hs.redrawn hblank) hcheck hsize).bind ?_
  exact fun t ht => ⟨rfl, ht.2⟩

theorem exists_drawn (h : c.Accepts s i)
    (hplan : c.mode.plan i.width i.height s.stride s.height = .ok p) (hs : s.Accommodates p)
    (hpositions : c.mode.PositionsFit i.width i.height) : ∃ t, c.draw s i = .ok (t, .ok p) := by
  obtain ⟨⟨t, answer⟩, hdraw, rfl, -⟩ :=
    (h.draw_ends hplan hs).exists_ok fun _ hf => hf.2 hpositions
  exact ⟨t, hdraw⟩

theorem draw_ends_of_bytes (h : c.Accepts s i) (hbytes : s.pixels.size ≤ Word.maxBytes) :
    Ends (c.draw s i) (fun _ => c.mode.PositionsFit i.width i.height)
      fun f => f.IsOverflow ∧ ¬ c.mode.PositionsFit i.width i.height := by
  obtain ⟨-, ⟨p, hplan⟩, -⟩ := accepts_iff.mp h
  have hs := h.accommodates hplan (h.fits hbytes hplan)
  exact (h.draw_ends hplan hs).mono_post fun _ hr => hr.2

end Accepts

theorem cause_of_draw {f : Fault} (hbytes : s.pixels.size ≤ Word.maxBytes)
    (hbreak : c.draw s i = .error f) :
    c.Accepts s i ∧ f.IsOverflow ∧ ¬ c.mode.PositionsFit i.width i.height := by
  have haccept : c.Accepts s i := accepts_of_not_rejected (by simp [hbreak])
  exact ⟨haccept, (haccept.draw_ends_of_bytes hbytes).fail_of_error hbreak⟩

/-- A picture that has passed all checks breaks off only at a sample position that is no word. -/
theorem draw_breaks_off_iff (hbytes : s.pixels.size ≤ Word.maxBytes) :
    (∃ f, c.draw s i = .error f) ↔
      c.Accepts s i ∧ ¬ c.mode.PositionsFit i.width i.height := by
  constructor
  · rintro ⟨f, hbreak⟩
    obtain ⟨haccept, -, hout⟩ := cause_of_draw hbytes hbreak
    exact ⟨haccept, hout⟩
  · rintro ⟨haccept, hout⟩
    have hends := haccept.draw_ends_of_bytes hbytes
    cases hdraw : c.draw s i with
    | ok r => exact absurd (hends.post_of_ok hdraw) hout
    | error f => exact ⟨f, rfl⟩

/-! ## Composing into a target -/

variable {φ : Type} [FrameTarget φ] {target : φ} {e : Failure} {f : Fault}

theorem composite_eq_of_refused (h : (FrameTarget.acquire target).2.1 = .error e) :
    c.composite target i =
      ⟨.ok (c, (FrameTarget.acquire target).1, .error e), (FrameTarget.acquire target).2.2⟩ := by
  simp only [composite, h]

theorem composite_eq_of_rejected (h : (FrameTarget.acquire target).2.1 = .ok ())
    (hdraw : c.draw (FrameTarget.opened target) i = .ok (FrameTarget.opened target, .error e)) :
    c.composite target i = ⟨.ok (c, FrameTarget.release (FrameTarget.acquire target).1, .error e),
      (FrameTarget.acquire target).2.2⟩ := by
  rw [FrameTarget.opened] at hdraw
  simp only [composite, h, hdraw, FrameTarget.putPixels_surface]

theorem composite_eq_of_drawn {t : Surface} (h : (FrameTarget.acquire target).2.1 = .ok ())
    (hdraw : c.draw (FrameTarget.opened target) i = .ok (t, .ok p)) :
    c.composite target i =
      ⟨.ok ({ c with frames := c.frames + 1 }, FrameTarget.shown target t.pixels, .ok ()),
        (FrameTarget.acquire target).2.2 ++
          [⟨.trace, s!"Composited frame {c.frames + 1} at x={p.x}"⟩]⟩ := by
  rw [FrameTarget.opened] at hdraw
  simp only [composite, h, hdraw]
  rfl

theorem composite_of_refused (h : (FrameTarget.acquire target).2.1 = .error e) :
    (c.composite target i).outcome = .ok (c, (FrameTarget.acquire target).1, .error e) := by
  rw [composite_eq_of_refused h]

theorem composite_of_rejected (h : (FrameTarget.acquire target).2.1 = .ok ())
    (hdraw : c.draw (FrameTarget.opened target) i = .ok (FrameTarget.opened target, .error e)) :
    (c.composite target i).outcome =
      .ok (c, FrameTarget.release (FrameTarget.acquire target).1, .error e) := by
  rw [composite_eq_of_rejected h hdraw]

theorem composite_of_broken (h : (FrameTarget.acquire target).2.1 = .ok ())
    (hdraw : c.draw (FrameTarget.opened target) i = .error f) :
    (c.composite target i).outcome = .error f := by
  rw [FrameTarget.opened] at hdraw
  simp only [composite, h, hdraw]

theorem composite_of_drawn {t : Surface} (h : (FrameTarget.acquire target).2.1 = .ok ())
    (hdraw : c.draw (FrameTarget.opened target) i = .ok (t, .ok p)) :
    (c.composite target i).outcome =
      .ok ({ c with frames := c.frames + 1 }, FrameTarget.shown target t.pixels, .ok ()) := by
  rw [composite_eq_of_drawn h hdraw]

/-- What becomes of a frame, and what caused it. -/
inductive Composed (c : Compositor) (target : φ) (i : Image) :
    Except Fault (Compositor × φ × Except Failure Unit) → Prop
  | refused {e : Failure} (hopen : (FrameTarget.acquire target).2.1 = .error e) :
      Composed c target i (.ok (c, (FrameTarget.acquire target).1, .error e))
  | rejected {e : Failure} (hopen : (FrameTarget.acquire target).2.1 = .ok ())
      (hdraw : c.draw (FrameTarget.opened target) i =
        .ok (FrameTarget.opened target, .error e)) :
      Composed c target i (.ok (c, FrameTarget.release (FrameTarget.acquire target).1, .error e))
  | broken {f : Fault} (hopen : (FrameTarget.acquire target).2.1 = .ok ())
      (hdraw : c.draw (FrameTarget.opened target) i = .error f) :
      Composed c target i (.error f)
  | drawn {t : Surface} {p : Placement} (hopen : (FrameTarget.acquire target).2.1 = .ok ())
      (hdraw : c.draw (FrameTarget.opened target) i = .ok (t, .ok p)) :
      Composed c target i
        (.ok ({ c with frames := c.frames + 1 }, FrameTarget.shown target t.pixels, .ok ()))

theorem composed (c : Compositor) (target : φ) (i : Image) :
    Composed c target i (c.composite target i).outcome := by
  cases hopen : (FrameTarget.acquire target).2.1 with
  | error e => exact composite_of_refused hopen ▸ .refused hopen
  | ok u =>
    cases hdraw : c.draw (FrameTarget.opened target) i with
    | error f => exact composite_of_broken hopen hdraw ▸ .broken hopen hdraw
    | ok r =>
      obtain ⟨t, answer⟩ := r
      cases answer with
      | ok p => exact composite_of_drawn hopen hdraw ▸ .drawn hopen hdraw
      | error e =>
        obtain rfl := intact_of_rejected hdraw
        exact composite_of_rejected hopen hdraw ▸ .rejected hopen hdraw

variable {c' : Compositor} {target' : φ} {answer : Except Failure Unit}

/-- A frame that is not drawn leaves everything as it was. A target that was acquired is released
once, whatever the answer is, and one that refused is not. The answer is good exactly if the
target was acquired and all checks passed. -/
theorem composite_rejects_intact
    (h : (c.composite target i).outcome = .ok (c', target', answer)) :
    let opened := FrameTarget.acquire target
    (∀ e, opened.2.1 = .error e → answer = .error e ∧ target' = opened.1) ∧
    (opened.2.1 = .ok () →
      (∀ e, answer = .error e → target' = FrameTarget.release opened.1) ∧
      (answer = .ok () →
        ∃ m, target' = FrameTarget.release (FrameTarget.putPixels opened.1 m))) ∧
    (∀ e, answer = .error e → c' = c) ∧
    (answer = .ok () ↔ opened.2.1 = .ok () ∧ c.Accepts (FrameTarget.opened target) i) := by
  intro opened
  have hcases := composed c target i
  rw [h] at hcases
  cases hcases with
  | refused hopen =>
    have hrefused : opened.2.1 = .error _ := hopen
    rw [hrefused]
    exact ⟨fun _ he => ⟨he, rfl⟩, nofun, fun _ _ => rfl, nofun, fun hok => nomatch hok.1⟩
  | rejected hopen hdraw =>
    have hacquired : opened.2.1 = .ok () := hopen
    have hreject := draw_rejects_iff.mp ⟨_, hdraw⟩
    rw [hacquired]
    exact ⟨nofun, fun _ => ⟨fun _ _ => rfl, nofun⟩, fun _ _ => rfl, nofun,
      fun hok => absurd hok.2 hreject⟩
  | drawn hopen hdraw =>
    have hacquired : opened.2.1 = .ok () := hopen
    have haccept := accepts_of_drawn hdraw
    rw [hacquired]
    exact ⟨nofun, fun _ => ⟨nofun, fun _ => ⟨_, rfl⟩⟩, nofun, fun _ => ⟨rfl, haccept⟩,
      fun _ => rfl⟩

/-- Blocks of three by three pixels are too large for the rows. -/
theorem composite_rejects_intact_roomyHost :
    ∃ (c' : Compositor) (target' : HostBuffer),
      (({ mode := .positioned 3 } : Compositor).composite roomyHost twoDots).outcome =
        .ok (c', target', .error (.geometryTooSmall 6 3 5 2)) ∧
      target'.target.pixels = roomyHost.target.pixels ∧ target'.acquired = 1 ∧
      target'.released = 1 ∧ c'.frames = 0 := by
  have h : (({ mode := .positioned 3 } : Compositor).composite roomyHost twoDots).outcome =
    .ok (_, _, .error (.geometryTooSmall 6 3 5 2)) := rfl
  obtain ⟨-, hopened, hcount, -⟩ := composite_rejects_intact h
  have htarget := (hopened rfl).1 _ rfl
  exact ⟨_, _, h, congrArg (fun b => b.target.pixels) htarget, congrArg HostBuffer.acquired htarget,
    congrArg HostBuffer.released htarget, congrArg frames (hcount _ rfl)⟩

/-- An empty region is rejected, although it fits. -/
theorem composite_rejects_empty_region :
    (FrameTarget.acquire roomyHost).2.1 = .ok () ∧
    (twoDots.width ≠ 0 ∧ twoDots.height ≠ 0) ∧
    twoDots.width * twoDots.height = twoDots.pixels.size ∧
    (∃ w h, (ScaleMode.bilinear 0 0).outputSize? twoDots.width twoDots.height = some (w, h) ∧
      w ≤ roomyHost.target.stride ∧ h ≤ roomyHost.target.height) ∧
    roomyHost.target.pitch * roomyHost.target.height ≤ roomyHost.target.pixels.size ∧
    (({ mode := .bilinear 0 0 } : Compositor).composite roomyHost twoDots).outcome =
      .ok ({ mode := .bilinear 0 0 }, { roomyHost with acquired := 1, released := 1 },
        .error (.geometryTooSmall 0 0 5 2)) :=
  ⟨rfl, by decide, rfl, ⟨0, 0, rfl, by decide⟩, by decide, rfl⟩

/-- Composing breaks off exactly if a frame that has passed all checks needs a sample whose
position is no word, and then because of an overflow. No division, no index and no slice does so. -/
theorem composite_breaks_off_iff
    (hbytes : (FrameTarget.opened target).pixels.size ≤ Word.maxBytes) :
    ((∃ f, (c.composite target i).outcome = .error f) ↔
      (FrameTarget.acquire target).2.1 = .ok () ∧ c.Accepts (FrameTarget.opened target) i ∧
        ¬ c.mode.PositionsFit i.width i.height) ∧
    ∀ f, (c.composite target i).outcome = .error f → f = .addOverflow ∨ f = .mulOverflow := by
  have hcause (f : Fault) (h : (c.composite target i).outcome = .error f) :
      (FrameTarget.acquire target).2.1 = .ok () ∧
        c.draw (FrameTarget.opened target) i = .error f := by
    have hcases := composed c target i
    rw [h] at hcases
    cases hcases with
    | broken hopen hdraw => exact ⟨hopen, hdraw⟩
  refine ⟨⟨?_, ?_⟩, ?_⟩
  · rintro ⟨f, h⟩
    obtain ⟨hopen, hdraw⟩ := hcause f h
    exact ⟨hopen, (draw_breaks_off_iff hbytes).mp ⟨f, hdraw⟩⟩
  · rintro ⟨hopen, hout⟩
    obtain ⟨f, hdraw⟩ := (draw_breaks_off_iff hbytes).mpr hout
    exact ⟨f, composite_of_broken hopen hdraw⟩
  · intro f h
    exact (cause_of_draw hbytes (hcause f h).2).2.1

theorem composite_breaks_off_iff_roomyHost :
    roomyHost.target.pixels.size ≤ Word.maxBytes ∧
      ¬ ∃ f, (({ mode := .bilinear 3 2 } : Compositor).composite roomyHost twoDots).outcome =
        .error f := by
  have hbytes : (FrameTarget.opened roomyHost).pixels.size ≤ Word.maxBytes := by decide
  refine ⟨hbytes, fun hbreak => ?_⟩
  obtain ⟨-, -, hout⟩ := (composite_breaks_off_iff hbytes).1.mp hbreak
  exact absurd (by decide) hout

/-- One row that is a pixel too wide for the positions of its samples. -/
def wideDots : Image where
  pixels := Array.replicate 16777217 0
  width := 16777217
  height := 1

def wideHost : HostBuffer where
  target :=
    { pixels := Memory.blank 33554434, stride := 16777217, width := 16777217, height := 1,
      format := .rgb565 }

theorem composite_breaks_off_wideHost :
    ∃ f, (({ mode := .bilinear 16777217 1, clear := .never } : Compositor).composite wideHost
      wideDots).outcome = .error f := by
  have hsize : wideDots.pixels.size = 16777217 := Array.size_replicate
  have haccept : ({ mode := .bilinear 16777217 1, clear := .never } : Compositor).Accepts
      wideHost.target wideDots :=
    ⟨by decide, ⟨by decide, hsize⟩, ⟨16777217, 1, rfl, by decide⟩, by decide⟩
  have hout : ¬ (ScaleMode.bilinear 16777217 1).PositionsFit wideDots.width wideDots.height := by
    decide
  obtain ⟨f, hbreak⟩ := (draw_breaks_off_iff (by decide)).mpr ⟨haccept, hout⟩
  exact ⟨f, composite_of_broken rfl hbreak⟩

end Compositor

end EmulatorOutput.Picture
