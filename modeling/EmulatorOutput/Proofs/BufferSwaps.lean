import EmulatorOutput.Proofs.StartupCheck

/-!
# Swaps of the two buffers

What is shown while a frame buffer is acquired, written to and released in any order. Every deed
is taken apart into acts: an acquisition, a mark on the surface, or a release. A release counts
only while a frame is open. Then it shows the marks made since the release before, on top of what
was shown two releases earlier, as the two buffers take turns.
-/

namespace EmulatorOutput.Picture

/-- A write to the bytes of a surface. -/
inductive Stroke where
  | fill (v : UInt8)
  | clear
  | row (y column : Nat) (bytes : List UInt8)
  /-- From a position on, across rows too. -/
  | span (start : Nat) (bytes : List UInt8)
  deriving DecidableEq, Repr

namespace Surface

/-- A stroke that would leave the surface or the row breaks off before it writes. -/
def stroke (s : Surface) : Stroke → Except Fault Surface
  | .fill v => .ok (s.fill v)
  | .clear => s.clear
  | .row y column bytes => s.writeRow y column bytes
  | .span start bytes =>
    if start + bytes.length ≤ s.pixels.size then
      .ok { s with pixels := s.pixels.write start bytes }
    else .error .outOfRange

/-- The strokes before the first that breaks off. -/
def feasible (s : Surface) : List Stroke → List Stroke
  | [] => []
  | w :: ws =>
    match s.stroke w with
    | .ok t => w :: t.feasible ws
    | .error _ => []

variable {s t : Surface}

theorem redrawn_of_stroke {w : Stroke} (h : s.stroke w = .ok t) : s.Redrawn t := by
  cases w with
  | fill v =>
    cases h
    exact ⟨rfl, Memory.size_filled _ v⟩
  | clear => exact .of_clear h
  | row y column bytes => exact .of_writeRow h
  | span start bytes =>
    rw [stroke] at h
    split at h
    · cases h
      exact ⟨rfl, Memory.size_write _ _ _⟩
    · cases h

end Surface

/-- What leaves its marks on a surface: a stroke, or a picture. -/
inductive Mark where
  | stroke (w : Stroke)
  | picture (c : Compositor) (i : Image)

/-- The surface after a mark. A stroke that breaks off leaves none, nor does a picture that is
rejected. -/
def Mark.on : Mark → Surface → Surface
  | .stroke w, s =>
    match s.stroke w with
    | .ok t => t
    | .error _ => s
  | .picture c i, s =>
    match c.draw s i with
    | .ok (t, _) => t
    | .error _ => s

/-- A mark changes nothing but bytes. -/
theorem Mark.redrawn (m : Mark) (s : Surface) : s.Redrawn (m.on s) := by
  cases m with
  | stroke w =>
    rw [Mark.on]
    split
    · rename_i t h
      exact Surface.redrawn_of_stroke h
    · exact .refl s
  | picture c i =>
    rw [Mark.on]
    split
    · rename_i t answer h
      cases answer with
      | ok p =>
        have hdraw := Compositor.drawing_of_draw h
        exact ⟨hdraw.geometry_eq, hdraw.size_eq⟩
      | error e =>
        obtain rfl := Compositor.intact_of_rejected h
        exact .refl t
    · exact .refl s

/-- All marks, one after another. -/
def Surface.marked (s : Surface) (ms : List Mark) : Surface := ms.foldl (fun s m => m.on s) s

/-- The smallest parts of what is done to a frame buffer. -/
inductive Act where
  | acquire
  | mark (m : Mark)
  | release

/-! ## The history of a frame buffer -/

namespace Act

/-- Whether a frame is open after an act. -/
def opens : Bool → Act → Bool
  | _, .acquire => true
  | isOpen, .mark _ => isOpen
  | _, .release => false

/-- The number of releases of an open frame. -/
def closings : Bool → List Act → Nat
  | _, [] => 0
  | _, .acquire :: as => closings true as
  | isOpen, .mark _ :: as => closings isOpen as
  | true, .release :: as => closings false as + 1
  | false, .release :: as => closings false as

/-- The marks of a history, cut at each release of an open frame. The last part is not closed. -/
def layers : Bool → List Act → List (List Mark)
  | _, [] => [[]]
  | _, .acquire :: as => layers true as
  | isOpen, .mark m :: as => (layers isOpen as).modifyHead (m :: ·)
  | true, .release :: as => [] :: layers false as
  | false, .release :: as => layers false as

end Act

/-- What is shown after a number of releases. Each release shows the next layer of marks on top of
what was shown two releases earlier; the first shows it on top of what was there to be drawn
into. -/
def exhibit (back front : Surface) (layers : List (List Mark)) : Nat → Surface
  | 0 => front
  | 1 => back.marked (layers[0]?.getD [])
  | n + 2 => (exhibit back front layers n).marked (layers[n + 1]?.getD [])

theorem exhibit_succ (back front : Surface) (ms : List Mark) (layers : List (List Mark)) (n : Nat) :
    exhibit back front (ms :: layers) (n + 1) = exhibit front (back.marked ms) layers n := by
  induction n using Nat.twoStepInduction with
  | zero => rfl
  | one => rfl
  | more n ih _ =>
    rw [exhibit, ih, exhibit]
    rfl

/-- A mark made now belongs to the first layer. -/
theorem exhibit_modifyHead (back front : Surface) (m : Mark) (ms : List Mark)
    (layers : List (List Mark)) (n : Nat) :
    exhibit back front ((m :: ms) :: layers) n = exhibit (m.on back) front (ms :: layers) n := by
  induction n using Nat.twoStepInduction with
  | zero => rfl
  | one => rfl
  | more n ih _ =>
    rw [exhibit, ih, exhibit]
    rfl

/-- What is done to a frame buffer. -/
inductive Deed where
  | acquire
  | release
  | write (w : Stroke)
  /-- A frame that is acquired, written to and released. The first stroke that breaks off is the
  last. -/
  | guarded (ws : List Stroke)
  /-- A picture. If drawing it breaks off, the strokes `torn` are what has been drawn by then. -/
  | compose (c : Compositor) (i : Image) (torn : List Stroke)

namespace FrameBuffer

def act (b : FrameBuffer) : Act → FrameBuffer
  | .acquire => b.acquire.1
  | .mark m => { b with back := (m.on b.surface).pixels }
  | .release => b.release

def actAll (b : FrameBuffer) (as : List Act) : FrameBuffer := as.foldl act b

/-- Writes up to the first stroke that breaks off. -/
def writeAll (b : FrameBuffer) : List Stroke → FrameBuffer
  | [] => b
  | w :: ws =>
    match b.surface.stroke w with
    | .ok t => writeAll { b with back := t.pixels } ws
    | .error _ => b

/-- The target is released on every way out of a guarded frame and of a composition. -/
def perform (b : FrameBuffer) : Deed → FrameBuffer
  | .acquire => b.acquire.1
  | .release => b.release
  | .write w => b.writeAll [w]
  | .guarded ws => (b.acquire.1.writeAll ws).release
  | .compose c i torn =>
    match (c.composite b i).outcome with
    | .ok (_, b', _) => b'
    | .error _ => (b.acquire.1.writeAll torn).release

def performAll (b : FrameBuffer) (ds : List Deed) : FrameBuffer := ds.foldl perform b

/-- The acts that a deed consists of. -/
def actsOf (b : FrameBuffer) : Deed → List Act
  | .acquire => [.acquire]
  | .release => [.release]
  | .write w => [.mark (.stroke w)]
  | .guarded ws => .acquire :: ((b.surface.feasible ws).map (.mark ∘ .stroke) ++ [.release])
  | .compose c i torn =>
    match c.draw b.surface i with
    | .error _ =>
      .acquire :: ((b.surface.feasible torn).map (.mark ∘ .stroke) ++ [.release])
    | .ok _ => [.acquire, .mark (.picture c i), .release]

/-- The acts of all deeds in their order. -/
def history (b : FrameBuffer) : List Deed → List Act
  | [] => []
  | d :: ds => b.actsOf d ++ (b.perform d).history ds

variable {b : FrameBuffer}

theorem actAll_append (b : FrameBuffer) (as as' : List Act) :
    b.actAll (as ++ as') = (b.actAll as).actAll as' := List.foldl_append

theorem surface_of_redrawn {t : Surface} (h : b.surface.Redrawn t) :
    ({ b with back := t.pixels } : FrameBuffer).surface = t := by
  rw [h.shape]
  rfl

theorem surface_mark (b : FrameBuffer) (m : Mark) : (b.act (.mark m)).surface = m.on b.surface :=
  surface_of_redrawn (m.redrawn b.surface)

theorem writeAll_eq (b : FrameBuffer) (ws : List Stroke) :
    b.writeAll ws = b.actAll ((b.surface.feasible ws).map (.mark ∘ .stroke)) := by
  induction ws generalizing b with
  | nil => rfl
  | cons w ws ih =>
    rw [writeAll, Surface.feasible]
    cases h : b.surface.stroke w with
    | error e => rfl
    | ok t =>
      have hmark : b.act (.mark (.stroke w)) = { b with back := t.pixels } := by
        rw [act, Mark.on, h]
      have hsurface := surface_of_redrawn (Surface.redrawn_of_stroke h)
      dsimp only
      rw [ih, hsurface, List.map_cons, actAll, actAll, List.foldl_cons, Function.comp_apply, hmark]

theorem guarded_eq (b : FrameBuffer) (ws : List Stroke) :
    (b.acquire.1.writeAll ws).release =
      b.actAll (.acquire :: ((b.surface.feasible ws).map (.mark ∘ .stroke) ++ [.release])) := by
  rw [writeAll_eq, ← List.singleton_append, actAll_append, actAll_append]
  rfl

theorem compose_of_drawn {c : Compositor} {i : Image} {t : Surface} {p : Placement}
    (h : c.draw b.surface i = .ok (t, .ok p)) :
    b.actAll [.acquire, .mark (.picture c i), .release] = FrameTarget.shown b t.pixels := by
  have hmark : Mark.on (.picture c i) b.surface = t := by rw [Mark.on, h]
  exact congrArg (fun s : Surface => FrameTarget.shown b s.pixels) hmark

theorem compose_of_rejected {c : Compositor} {i : Image} {e : Failure}
    (h : c.draw b.surface i = .ok (b.surface, .error e)) :
    b.actAll [.acquire, .mark (.picture c i), .release] = b.acquire.1.release := by
  have hmark : Mark.on (.picture c i) b.surface = b.surface := by rw [Mark.on, h]
  exact congrArg (fun s : Surface => FrameTarget.shown b s.pixels) hmark

/-- A deed does what its acts do. -/
theorem perform_eq (b : FrameBuffer) (d : Deed) : b.perform d = b.actAll (b.actsOf d) := by
  cases d with
  | acquire => rfl
  | release => rfl
  | write w =>
    change b.writeAll [w] = b.act (.mark (.stroke w))
    rw [writeAll, act, Mark.on]
    cases b.surface.stroke w <;> rfl
  | guarded ws => exact guarded_eq b ws
  | compose c i torn =>
    have hcases := Compositor.composed c b i
    rw [perform, actsOf]
    generalize (c.composite b i).outcome = outcome at hcases ⊢
    cases hcases with
    | refused hopen => cases hopen
    | rejected hopen hdraw =>
      have hdraw : c.draw b.surface i = .ok (b.surface, .error _) := hdraw
      simp only [hdraw]
      exact (compose_of_rejected hdraw).symm
    | broken hopen hdraw =>
      have hdraw : c.draw b.surface i = .error _ := hdraw
      simp only [hdraw]
      exact guarded_eq b torn
    | drawn hopen hdraw =>
      have hdraw : c.draw b.surface i = .ok (_, .ok _) := hdraw
      simp only [hdraw]
      exact (compose_of_drawn hdraw).symm

theorem performAll_eq (b : FrameBuffer) (ds : List Deed) :
    b.performAll ds = b.actAll (b.history ds) := by
  induction ds generalizing b with
  | nil => rfl
  | cons d ds ih =>
    have hrest := ih (b.perform d)
    rw [history, actAll_append, ← perform_eq, ← hrest]
    rfl

/-! ## What every act keeps -/

/-- The shown buffer as a surface. -/
def shownSurface (b : FrameBuffer) : Surface := { b.surface with pixels := b.front }

theorem inFrame_actAll (b : FrameBuffer) (as : List Act) :
    (b.actAll as).inFrame = as.foldl Act.opens b.inFrame := by
  induction as generalizing b with
  | nil => rfl
  | cons a as ih =>
    have hstep : (b.act a).inFrame = Act.opens b.inFrame a := by
      cases a with
      | acquire => rfl
      | mark m => rfl
      | release => cases h : b.inFrame <;> simp [act, release, h, Act.opens]
    rw [List.foldl_cons, ← hstep]
    exact ih (b.act a)

theorem release_of_closed (h : b.inFrame = false) : b.release = b := by
  rw [release, h]
  rfl

theorem release_of_open (h : b.inFrame = true) :
    b.release = { b with
      inFrame := false
      back := b.front
      front := b.back
      presented := b.presented + 1 } := by
  rw [release, h]
  rfl

theorem presented_actAll (b : FrameBuffer) (as : List Act) :
    (b.actAll as).presented = b.presented + Act.closings b.inFrame as := by
  induction as generalizing b with
  | nil => rfl
  | cons a as ih =>
    have hrest := ih (b.act a)
    change ((b.act a).actAll as).presented = _
    cases a with
    | acquire => exact hrest
    | mark m => exact hrest
    | release =>
      cases h : b.inFrame with
      | false =>
        rw [act, release_of_closed h] at hrest ⊢
        rwa [h] at hrest
      | true =>
        rw [act, release_of_open h] at hrest ⊢
        rw [hrest, Act.closings]
        exact Nat.add_right_comm _ _ _

theorem exists_layers (isOpen : Bool) (as : List Act) :
    ∃ ms rest, Act.layers isOpen as = ms :: rest := by
  induction as generalizing isOpen with
  | nil => exact ⟨[], [], rfl⟩
  | cons a as ih =>
    cases a with
    | acquire => exact ih true
    | mark m =>
      obtain ⟨ms, rest, h⟩ := ih isOpen
      exact ⟨m :: ms, rest, by rw [Act.layers, h, List.modifyHead_cons]⟩
    | release =>
      cases isOpen with
      | false => exact ih false
      | true => exact ⟨[], _, rfl⟩

theorem shownSurface_actAll (b : FrameBuffer) (as : List Act) :
    (b.actAll as).shownSurface =
      exhibit b.surface b.shownSurface (Act.layers b.inFrame as)
        (Act.closings b.inFrame as) := by
  induction as generalizing b with
  | nil => rfl
  | cons a as ih =>
    have hrest := ih (b.act a)
    change ((b.act a).actAll as).shownSurface = _
    rw [hrest]
    cases a with
    | acquire => rfl
    | mark m =>
      obtain ⟨ms, rest, h⟩ := exists_layers b.inFrame as
      have hshown : (b.act (.mark m)).shownSurface = b.shownSurface := rfl
      have hopen : (b.act (.mark m)).inFrame = b.inFrame := rfl
      rw [surface_mark, hshown, hopen, Act.layers, Act.closings, h, List.modifyHead_cons,
        exhibit_modifyHead]
    | release =>
      cases h : b.inFrame with
      | false =>
        rw [act, release_of_closed h, h]
        rfl
      | true =>
        rw [act, release_of_open h, Act.layers, Act.closings, exhibit_succ]
        rfl

theorem Sized.actAll {stride height : Nat} (hb : b.Sized stride height) (as : List Act) :
    (b.actAll as).Sized stride height := by
  induction as generalizing b with
  | nil => exact hb
  | cons a as ih =>
    refine ih (b := b.act a) ?_
    cases a with
    | acquire => exact hb.acquired
    | mark m => exact hb.written (m.redrawn b.surface).size_eq
    | release => exact hb.released

theorem format_actAll (b : FrameBuffer) (as : List Act) : (b.actAll as).format = b.format := by
  induction as generalizing b with
  | nil => rfl
  | cons a as ih =>
    have hstep : (b.act a).format = b.format := by
      cases a with
      | acquire => rfl
      | mark m => rfl
      | release => cases h : b.inFrame <;> simp [act, release, h]
    exact (ih (b.act a)).trans hstep

/-- Nothing is shown, and nothing is counted, but by the release of an open frame. -/
theorem act_keeps_front {a : Act} (h : ¬ (a = .release ∧ b.inFrame = true)) :
    (b.act a).front = b.front ∧ (b.act a).presented = b.presented := by
  cases a with
  | acquire => exact ⟨rfl, rfl⟩
  | mark m => exact ⟨rfl, rfl⟩
  | release =>
    have hclosed : b.inFrame = false := Bool.eq_false_iff.mpr fun hopen => h ⟨rfl, hopen⟩
    rw [act, release_of_closed hclosed]
    exact ⟨rfl, rfl⟩

theorem acquire_of_open (h : b.inFrame = true) : b.acquire.1 = b := by
  rw [acquire, ← h]

/-- No frame is torn. At every point of every history the releases of an open frame have been
counted, both buffers have their size, and the shown bytes are the layer of marks that was closed
last, on top of what was shown two releases earlier. Only the release of an open frame changes
what is shown. To acquire an open frame, or to release none, does nothing. -/
theorem shows_whole_frames {width height stride : Nat} {format : PixelFormat} {b₀ : FrameBuffer}
    (h : (create width height stride format).outcome = .ok b₀) (ds : List Deed) :
    let size := stride * height * format.bytesPerPixel
    let blank : Surface := { pixels := Memory.blank size, stride, width, height, format }
    b₀.performAll ds = b₀.actAll (b₀.history ds) ∧
    ∀ before after, b₀.history ds = before ++ after →
      let b := b₀.actAll before
      b.presented = Act.closings false before ∧
      b.inFrame = before.foldl Act.opens false ∧
      b.back.size = size ∧ b.front.size = size ∧
      b.front = (exhibit blank blank (Act.layers false before) b.presented).pixels ∧
      ∀ a ∈ after.head?,
        (a = .acquire → b.inFrame = true → b.act a = b) ∧
        (a = .release → b.inFrame = false → b.act a = b) ∧
        (¬ (a = .release ∧ b.inFrame = true) →
          (b.act a).front = b.front ∧ (b.act a).presented = b.presented) ∧
        (a = .release → b.inFrame = true →
          (b.act a).front = b.back ∧ (b.act a).presented = b.presented + 1) := by
  intro size blank
  refine ⟨performAll_eq b₀ ds, fun before after _ => ?_⟩
  intro b
  have hsized : b.Sized b₀.stride b₀.height := (sized_of_create h).actAll before
  have hformat : b.format = b₀.format := format_actAll b₀ before
  obtain ⟨-, rfl⟩ := eq_of_create h
  have hpresented : b.presented = Act.closings false before :=
    (presented_actAll _ before).trans (Nat.zero_add _)
  have hfront : b.front = (exhibit blank blank (Act.layers false before) b.presented).pixels := by
    rw [hpresented]
    exact congrArg Surface.pixels (shownSurface_actAll _ before)
  refine ⟨hpresented, inFrame_actAll _ before, ?_, ?_, hfront, fun a _ => ⟨?_, ?_, ?_, ?_⟩⟩
  · rw [hsized.back_size, hformat]
  · rw [hsized.front_size, hformat]
  · rintro rfl hopen
    exact acquire_of_open hopen
  · rintro rfl hclosed
    exact release_of_closed hclosed
  · exact act_keeps_front
  · rintro rfl hopen
    rw [act, release_of_open hopen]
    exact ⟨rfl, rfl⟩

/-- A guarded frame whose last stroke breaks off, a release too many, an unguarded frame acquired
twice, and a picture that is too large. -/
def roughUse : List Deed :=
  [.guarded [.row 1 2 [0x12, 0x34], .row 2 0 [0xFF]], .release, .write (.span 0 [0x56]), .acquire,
    .write (.fill 0xAA), .acquire, .release,
    .compose { mode := .positioned 3 } Compositor.twoDots []]

theorem shows_whole_frames_roughUse :
    ∃ b₀ : FrameBuffer, (create 4 2 8 .rgb565Be).outcome = .ok b₀ ∧
      (b₀.performAll roughUse).presented = 3 ∧ (b₀.performAll roughUse).front.size = 32 ∧
      (b₀.performAll roughUse).front.bytes[18]? = some 0x12 := by
  have h : (create 4 2 8 .rgb565Be).outcome = .ok _ := rfl
  obtain ⟨hacts, hpoints⟩ := shows_whole_frames h roughUse
  obtain ⟨hpresented, -, -, hsize, hfront, -⟩ := hpoints _ [] (List.append_nil _).symm
  rw [← hacts] at hpresented hsize hfront
  refine ⟨_, h, hpresented, hsize, ?_⟩
  rw [hfront]
  decide

end FrameBuffer

end EmulatorOutput.Picture
