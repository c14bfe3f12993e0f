import EmulatorOutput.Picture.Pipeline
import EmulatorOutput.Proofs.BufferCreation
import EmulatorOutput.Proofs.FrameOutcomes

/-!
# The check at the start

A pipeline checks once whether pictures of some size fit its frame buffer, and each frame is
checked again. The geometry of a frame buffer and the sizes of its two buffers stay what they were
when it was created, so that the first check speaks for every frame to come.
-/

namespace EmulatorOutput.Picture

/-- A picture of the given size. Its pixels can be counted. -/
structure Image.OfSize (i : Image) (width height : Nat) : Prop where
  width_eq : i.width = width
  height_eq : i.height = height
  size_eq : i.pixels.size = width * height
  size_lt : i.pixels.size < Word.limit

theorem Image.OfSize.check {i : Image} {width height : Nat} (h : i.OfSize width height)
    (hwidth : 0 < width) (hheight : 0 < height) : i.check = .ok () := by
  obtain ⟨rfl, rfl, hsize, hlt⟩ := h
  exact (Image.check_eq_ok_iff i).mpr ⟨⟨hwidth, hheight⟩, hsize ▸ hlt, hsize⟩

namespace FrameBuffer

/-- The frame buffers there are: created, and acquired, written and released in any order. -/
inductive Made : FrameBuffer → Prop
  | created {width height stride : Nat} {format : PixelFormat} {b : FrameBuffer}
      (h : (create width height stride format).outcome = .ok b) : Made b
  | acquired {b : FrameBuffer} (hb : Made b) : Made b.acquire.1
  | written {b : FrameBuffer} {m : Memory} (hb : Made b) (hsize : m.size = b.back.size) :
      Made { b with back := m }
  | released {b : FrameBuffer} (hb : Made b) : Made b.release

/-- Each of the two buffers holds all rows. -/
structure Sized (b : FrameBuffer) (stride height : Nat) : Prop where
  stride_eq : b.stride = stride
  height_eq : b.height = height
  back_size : b.back.size = stride * height * b.format.bytesPerPixel
  front_size : b.front.size = stride * height * b.format.bytesPerPixel
  size_le : b.back.size ≤ Word.maxBytes

variable {b : FrameBuffer} {stride height : Nat} {m : Memory}

theorem sized_of_create {width height stride : Nat} {format : PixelFormat}
    (h : (create width height stride format).outcome = .ok b) : b.Sized b.stride b.height := by
  obtain ⟨hle, rfl⟩ := eq_of_create h
  exact ⟨rfl, rfl, rfl, rfl, hle⟩

namespace Sized

theorem written (hb : b.Sized stride height) (hsize : m.size = b.back.size) :
    ({ b with back := m } : FrameBuffer).Sized stride height :=
  ⟨hb.stride_eq, hb.height_eq, hsize.trans hb.back_size, hb.front_size, hsize ▸ hb.size_le⟩

theorem released (hb : b.Sized stride height) : b.release.Sized stride height := by
  unfold release
  split
  · refine ⟨hb.stride_eq, hb.height_eq, hb.front_size, hb.back_size, ?_⟩
    have hsize : b.front.size = b.back.size := hb.front_size.trans hb.back_size.symm
    exact hsize ▸ hb.size_le
  · exact hb

theorem acquired (hb : b.Sized stride height) : b.acquire.1.Sized stride height :=
  ⟨hb.stride_eq, hb.height_eq, hb.back_size, hb.front_size, hb.size_le⟩

theorem shown (hb : b.Sized stride height) (hsize : m.size = b.back.size) :
    (FrameTarget.shown b m).Sized stride height :=
  (hb.acquired.written hsize).released

theorem holdsRows (hb : b.Sized stride height) :
    Compositor.holdsRows (FrameTarget.opened b) = true := by
  have hpitch : (FrameTarget.opened b).pitch ≤ b.stride * b.format.bytesPerPixel :=
    Nat.min_le_left _ _
  have hrows : (FrameTarget.opened b).pitch * b.height ≤ b.back.size := by
    rw [hb.back_size, ← hb.stride_eq, ← hb.height_eq, Nat.mul_right_comm]
    exact Nat.mul_le_mul_right _ hpitch
  have hbytes := hb.size_le
  have hword : Word.maxBytes < Word.limit := by decide
  refine Compositor.holdsRows_iff.mpr ⟨?_, hrows⟩
  change (FrameTarget.opened b).pitch * b.height < Word.limit
  omega

end Sized

theorem Made.sized (hb : b.Made) : b.Sized b.stride b.height := by
  induction hb with
  | created h => exact sized_of_create h
  | acquired _ ih => exact ih.acquired
  | written _ hsize ih => exact ih.written hsize
  | @released b _ ih =>
    have hrelease := ih.released
    rwa [← hrelease.stride_eq, ← hrelease.height_eq] at hrelease

end FrameBuffer

namespace Compositor

variable {c : Compositor} {b : FrameBuffer} {i : Image} {p : Placement} {stride height : Nat}

/-- A picture that a plan was found for is drawn. -/
theorem exists_drawn_of_plan (hb : b.Sized stride height) (hi : i.check = .ok ())
    (hplan : c.mode.plan i.width i.height stride height = .ok p)
    (hpositions : c.mode.PositionsFit i.width i.height) :
    ∃ t, c.draw (FrameTarget.opened b) i = .ok (t, .ok p) := by
  have hplan' : c.mode.plan i.width i.height (FrameTarget.opened b).stride
      (FrameTarget.opened b).height = .ok p := by
    rw [← hb.stride_eq, ← hb.height_eq] at hplan
    exact hplan
  have haccept := accepts_iff.mpr ⟨hi, ⟨p, hplan'⟩, hb.holdsRows⟩
  exact haccept.exists_drawn hplan' (haccept.accommodates hplan' (haccept.fits hb.size_le hplan'))
    hpositions

/-- A picture that no plan was found for is rejected with the reason. -/
theorem draw_of_no_plan {s : Surface} {e : Failure} (hi : i.check = .ok ())
    (hplan : c.mode.plan i.width i.height s.stride s.height = .error e) :
    c.draw s i = .ok (s, .error e) := by
  simp only [draw, hi, hplan]

end Compositor

namespace Pipeline

section Steps

variable {φ : Type} [FrameTarget φ] {c : Compositor} {target : φ} {p q q' : Pipeline φ} {i : Image}
  {size : Nat × Nat}

theorem start_eq_ok_iff :
    (start c target size).outcome = .ok p ↔
      (∃ r, c.mode.plan size.1 size.2 (FrameTarget.stride target) (FrameTarget.height target) =
        .ok r) ∧ p = { compositor := c, target } := by
  unfold start
  dsimp only
  split
  · rename_i e hplan
    rw [hplan]
    exact ⟨nofun, fun h => nomatch h.1⟩
  · rename_i r hplan
    rw [Logged.bind_outcome_eq_ok_iff]
    constructor
    · rintro ⟨_, -, h⟩
      cases h
      exact ⟨⟨r, hplan⟩, rfl⟩
    · rintro ⟨-, rfl⟩
      exact ⟨(), rfl, rfl⟩

theorem start_eq_error_iff {stop : Stop} :
    (start c target size).outcome = .error stop ↔
      ∃ e, c.mode.plan size.1 size.2 (FrameTarget.stride target) (FrameTarget.height target) =
        .error e ∧ stop = .failure e := by
  unfold start
  dsimp only
  split
  · rename_i e hplan
    rw [hplan]
    constructor
    · intro h
      cases h
      exact ⟨e, rfl, rfl⟩
    · rintro ⟨_, he, rfl⟩
      cases he
      rfl
  · rename_i r hplan
    rw [hplan]
    exact ⟨nofun, fun h => nomatch h⟩

theorem present_eq_ok_iff {answer : Except Failure Unit} :
    (q.present i).outcome = .ok (q', answer) ↔
      (q.compositor.composite q.target i).outcome = .ok (q'.compositor, q'.target, answer) := by
  rw [present, Logged.bind_outcome_eq_ok_iff]
  constructor
  · rintro ⟨_, h, h'⟩
    cases h'
    exact h
  · intro h
    exact ⟨_, h, rfl⟩

end Steps

/-- The states that a pipeline comes to by presenting pictures, of any size. A presentation that
broke off leaves any bytes behind, and the target released. -/
inductive Reaches (p : Pipeline FrameBuffer) : Pipeline FrameBuffer → Prop
  | start : Reaches p p
  | presented {q q' : Pipeline FrameBuffer} {i : Image} {answer : Except Failure Unit}
      (hq : Reaches p q) (h : (q.present i).outcome = .ok (q', answer)) : Reaches p q'
  | brokenOff {q : Pipeline FrameBuffer} {i : Image} {f : Fault} {m : Memory}
      (hq : Reaches p q) (h : (q.present i).outcome = .error f)
      (hsize : m.size = q.target.back.size) :
      Reaches p { q with target := FrameTarget.shown q.target m }

/-- What the check at the start has looked at. -/
structure Bound (q : Pipeline FrameBuffer) (mode : ScaleMode) (stride height : Nat) : Prop where
  mode_eq : q.compositor.mode = mode
  sized : q.target.Sized stride height

variable {p q q' : Pipeline FrameBuffer} {i : Image} {mode : ScaleMode}
  {stride height : Nat}

theorem Bound.presented {answer : Except Failure Unit} (hq : q.Bound mode stride height)
    (h : (q.present i).outcome = .ok (q', answer)) : q'.Bound mode stride height := by
  obtain ⟨hmode, hsized⟩ := hq
  have hcases := Compositor.composed q.compositor q.target i
  rw [present_eq_ok_iff.mp h] at hcases
  obtain ⟨c', target'⟩ := q'
  cases hcases with
  | refused hopen => exact ⟨hmode, hsized.acquired⟩
  | rejected hopen hdraw => exact ⟨hmode, hsized.acquired.released⟩
  | drawn hopen hdraw =>
    exact ⟨hmode, hsized.shown (Compositor.drawing_of_draw hdraw).size_eq⟩

theorem Bound.of_reaches (hp : p.Bound mode stride height) (h : p.Reaches q) :
    q.Bound mode stride height := by
  induction h with
  | start => exact hp
  | presented _ h ih => exact ih.presented h
  | brokenOff _ _ hsize ih => exact ⟨ih.mode_eq, ih.sized.shown hsize⟩

/-- The check at the start agrees with the check of every frame. What it accepts is drawn in
every state that the pipeline comes to, unless a sample position is no word. What it rejects is
rejected for the same reason whenever it is drawn, with no byte changed. -/
theorem startup_check_agrees {c : Compositor} {b : FrameBuffer} {w h : Nat} (hb : b.Made)
    (hw : 0 < w) (hh : 0 < h) :
    (∀ p, (start c b (w, h)).outcome = .ok p → c.mode.PositionsFit w h →
      ∀ q, p.Reaches q → ∀ i : Image, i.OfSize w h →
        ∃ q', (q.present i).outcome = .ok (q', .ok ())) ∧
    (∀ stop, (start c b (w, h)).outcome = .error stop →
      ∃ e, stop = .failure e ∧ ∀ i : Image, i.OfSize w h →
        (c.composite b i).outcome =
          .ok (c, { b with
            inFrame := false
            back := b.front
            front := b.back
            presented := b.presented + 1 }, .error e)) := by
  constructor
  · intro p hstart hpositions q hreach i hi
    obtain ⟨⟨r, hplan⟩, rfl⟩ := start_eq_ok_iff.mp hstart
    have hbound : Bound { compositor := c, target := b } c.mode b.stride b.height :=
      ⟨rfl, hb.sized⟩
    obtain ⟨hmode, hsized⟩ := hbound.of_reaches hreach
    have hcheck := hi.check hw hh
    obtain ⟨rfl, rfl, -, -⟩ := hi
    rw [← hmode] at hpositions hplan
    obtain ⟨t, hdraw⟩ := Compositor.exists_drawn_of_plan hsized hcheck hplan hpositions
    exact ⟨⟨_, _⟩, present_eq_ok_iff.mpr (Compositor.composite_of_drawn rfl hdraw)⟩
  · intro stop hstart
    obtain ⟨e, hplan, rfl⟩ := start_eq_error_iff.mp hstart
    refine ⟨e, rfl, fun i hi => ?_⟩
    have hcheck := hi.check hw hh
    obtain ⟨rfl, rfl, -, -⟩ := hi
    have hdraw := Compositor.draw_of_no_plan (s := FrameTarget.opened b) hcheck hplan
    exact Compositor.composite_of_rejected rfl hdraw

/-- Two rows of four pixels, each with one more in memory. -/
def smallBuffer : FrameBuffer where
  width := 4
  height := 2
  stride := 5
  format := .rgb565
  back := Memory.blank 20
  front := Memory.blank 20

theorem smallBuffer_made : smallBuffer.Made :=
  .created (rfl : (FrameBuffer.create 4 2 5 .rgb565).outcome = .ok smallBuffer)

open Compositor (twoDots)

theorem twoDots_ofSize : twoDots.OfSize 2 1 := ⟨rfl, rfl, rfl, by decide⟩

/-- One pipeline has drawn the picture, and draws it again. In blocks of three by three pixels the
picture is too large. -/
theorem startup_check_agrees_smallBuffer :
    (∃ p q q' : Pipeline FrameBuffer,
      (start {} smallBuffer (2, 1)).outcome = .ok p ∧
      (p.present twoDots).outcome = .ok (q, .ok ()) ∧
      (q.present twoDots).outcome = .ok (q', .ok ())) ∧
    (start { mode := .positioned 3 } smallBuffer (2, 1)).outcome =
      .error (.failure (.geometryTooSmall 6 3 5 2)) ∧
    (({ mode := .positioned 3 } : Compositor).composite smallBuffer twoDots).outcome =
      .ok ({ mode := .positioned 3 }, { smallBuffer with presented := 1 },
        .error (.geometryTooSmall 6 3 5 2)) := by
  have hsmall := smallBuffer_made
  have hstart : (start {} smallBuffer (2, 1)).outcome =
    .ok { compositor := {}, target := smallBuffer } := rfl
  have hpresent : (({ compositor := {}, target := smallBuffer } : Pipeline FrameBuffer).present
    twoDots).outcome = .ok (_, .ok ()) := rfl
  have hfail : (start { mode := .positioned 3 } smallBuffer (2, 1)).outcome =
    .error (.failure (.geometryTooSmall 6 3 5 2)) := rfl
  obtain ⟨haccepted, -⟩ := startup_check_agrees (c := {}) (w := 2) (h := 1) hsmall (by decide)
    (by decide)
  obtain ⟨q', hagain⟩ :=
    haccepted _ hstart trivial _ (.presented .start hpresent) twoDots twoDots_ofSize
  obtain ⟨-, hrejected⟩ := startup_check_agrees (c := { mode := .positioned 3 }) (w := 2) (h := 1)
    hsmall (by decide) (by decide)
  obtain ⟨e, he, hsame⟩ := hrejected _ hfail
  cases he
  exact ⟨⟨_, _, q', hstart, hpresent, hagain⟩, hfail, hsame twoDots twoDots_ofSize⟩

end Pipeline

end EmulatorOutput.Picture
