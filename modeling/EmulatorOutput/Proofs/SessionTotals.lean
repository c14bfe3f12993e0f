import EmulatorOutput.Proofs.CarriedSound
import EmulatorOutput.Proofs.SessionInvariants
import EmulatorOutput.Proofs.Sessions
import EmulatorOutput.Proofs.StartupCheck

/-!
# The totals of a session

A session counts for itself what it has done, turn by turn, while the stream, the compositor and
the frame buffer keep counts of their own. A `Traced` core keeps a record of what it did in each of
its cycles, against which all of these counts are held.
-/

namespace EmulatorOutput.Session

open Picture (Compositor FrameBuffer FrameTarget Image Pipeline)
open Sound (Stream Tally)

/-! ## What a core has done -/

def Action.isPicture : Action → Bool
  | .video _ => true
  | .audio _ | .send _ => false

/-- A core with a record of its cycles: whether its samples were wanted, and what it did. Being
reset does not take the record away. -/
structure Traced (κ : Type) where
  core : κ
  cycles : List (Bool × List Action) := []

namespace Traced

variable {κ : Type}

instance [Core κ] : Core (Traced κ) where
  cycle w soundWanted := do
    let (core, actions) ← Core.cycle w.core soundWanted
    return ({ core, cycles := w.cycles ++ [(soundWanted, actions)] }, actions)
  reset w := { w with core := Core.reset w.core }
  frameSize w := Core.frameSize w.core
  version w := Core.version w.core
  name w := Core.name w.core

/-- The bursts that were taken, in their order. -/
def bursts (w : Traced κ) : List (List Int16) :=
  w.cycles.flatMap fun (soundWanted, actions) => burstsTaken soundWanted actions

/-- The number of pictures shown by the core. -/
def pictures (w : Traced κ) : Nat :=
  (w.cycles.flatMap Prod.snd).countP Action.isPicture

theorem cycles_of_cycle [Core κ] {w w' : Traced κ} {soundWanted : Bool} {actions : List Action}
    (h : Core.cycle w soundWanted = .ok (w', actions)) :
    w'.cycles = w.cycles ++ [(soundWanted, actions)] := by
  obtain ⟨r, -, h⟩ := Checked.bind_eq_ok_iff.mp h
  cases h
  rfl

variable {w w' : Traced κ} {soundWanted : Bool} {actions : List Action}

theorem bursts_of_cycles (h : w'.cycles = w.cycles ++ [(soundWanted, actions)]) :
    w'.bursts = w.bursts ++ burstsTaken soundWanted actions := by
  rw [bursts, h, List.flatMap_append, List.flatMap_singleton]
  rfl

theorem pictures_of_cycles (h : w'.cycles = w.cycles ++ [(soundWanted, actions)]) :
    w'.pictures = w.pictures + actions.countP Action.isPicture := by
  rw [pictures, h, List.flatMap_append, List.flatMap_singleton, List.countP_append]
  rfl

end Traced

/-! ## Pictures -/

/-- What has become of a pipeline, if there is one, when so many pictures were shown, so many of
them presented and the others dropped. -/
inductive Shown : Option (Pipeline FrameBuffer) → Nat → Option (Pipeline FrameBuffer) → Nat → Nat →
    Prop where
  | dark {pictures : Nat} : Shown none pictures none 0 0
  | lit {p q : Pipeline FrameBuffer} {pictures presented dropped : Nat}
      (hcount : presented + dropped = pictures)
      (htarget : q.target.presented = p.target.presented + pictures)
      (hcompositor : q.compositor.frames = p.compositor.frames + presented) :
      Shown (some p) pictures (some q) presented dropped

namespace Shown

variable {a b c : Option (Pipeline FrameBuffer)} {n n' presented presented' dropped dropped' : Nat}

theorem nothing : ∀ a : Option (Pipeline FrameBuffer), Shown a 0 a 0 0
  | none => .dark
  | some _ => .lit rfl rfl rfl

theorem trans (h : Shown a n b presented dropped) (h' : Shown b n' c presented' dropped') :
    Shown a (n + n') c (presented + presented') (dropped + dropped') := by
  cases h with
  | dark =>
    cases h' with
    | dark => exact .dark
  | lit hcount htarget hcompositor =>
    cases h' with
    | lit hcount' htarget' hcompositor' => exact .lit (by omega) (by omega) (by omega)

theorem of_none (h : Shown none n b presented dropped) :
    b = none ∧ presented = 0 ∧ dropped = 0 := by
  cases h
  exact ⟨rfl, rfl, rfl⟩

theorem of_some {p : Pipeline FrameBuffer} (h : Shown (some p) n b presented dropped) :
    ∃ q, b = some q ∧ presented + dropped = n ∧
      q.target.presented = p.target.presented + n ∧
      q.compositor.frames = p.compositor.frames + presented := by
  cases h with
  | lit hcount htarget hcompositor => exact ⟨_, rfl, hcount, htarget, hcompositor⟩

end Shown

/-- A picture that does not break off is presented or dropped, and shown by the frame buffer in
either case. -/
theorem shown_of_present {p q : Pipeline FrameBuffer} {i : Image} {answer : Except Failure Unit}
    (h : (p.present i).outcome = .ok (q, answer)) :
    (answer = .ok () ∧ Shown (some p) 1 (some q) 1 0) ∨
      ∃ e, answer = .error e ∧ Shown (some p) 1 (some q) 0 1 := by
  have hcases := Compositor.composed p.compositor p.target i
  rw [Pipeline.present_eq_ok_iff.mp h] at hcases
  obtain ⟨c', target'⟩ := q
  cases hcases with
  -- a frame buffer can always be acquired
  | refused hopen => cases hopen
  -- it is released, and so shown, without a picture as well
  | rejected hopen hdraw => exact .inr ⟨_, rfl, .lit rfl rfl rfl⟩
  | drawn hopen hdraw => exact .inl ⟨rfl, .lit rfl rfl rfl⟩

namespace Turn

variable {α : Type} {t t' t'' : Turn α (Pipeline FrameBuffer)}

/-- From one turn to the other so many pictures were shown, and counted. -/
def Shows (t : Turn α (Pipeline FrameBuffer)) (pictures : Nat)
    (t' : Turn α (Pipeline FrameBuffer)) : Prop :=
  ∃ presented dropped, Shown t.picture pictures t'.picture presented dropped ∧
    t'.presented = t.presented + presented ∧ t'.dropped = t.dropped + dropped

theorem Shows.trans {m n : Nat} (h : t.Shows m t') (h' : t'.Shows n t'') : t.Shows (m + n) t'' := by
  obtain ⟨presented, dropped, hshown, hpresented, hdropped⟩ := h
  obtain ⟨presented', dropped', hshown', hpresented', hdropped'⟩ := h'
  exact ⟨_, _, hshown.trans hshown', by omega, by omega⟩

theorem shows_of_samePicture (h : t.SamePicture t') : t.Shows 0 t' :=
  ⟨0, 0, h.picture_eq ▸ Shown.nothing t.picture, h.presented_eq, h.dropped_eq⟩

theorem shows_presentVideo {i : Image} (h : (t.presentVideo i).outcome = .ok t') :
    t.Shows 1 t' := by
  obtain ⟨hnone, rfl⟩ | ⟨p, ⟨q, answer⟩, hp, hpresent, rfl⟩ := presentVideo_cases h
  · exact ⟨0, 0, hnone ▸ .dark, rfl, rfl⟩
  · obtain ⟨rfl, hshown⟩ | ⟨e, rfl, hshown⟩ := shown_of_present hpresent
    · exact ⟨1, 0, hp ▸ hshown, rfl, rfl⟩
    · exact ⟨0, 1, hp ▸ hshown, rfl, rfl⟩

variable [SoundSink α]

theorem shows_perform {a : Action} (h : (t.perform a).outcome = .ok t') :
    t.Shows ([a].countP Action.isPicture) t' := by
  cases a with
  | audio samples => exact shows_of_samePicture (samePicture_pushAudio h)
  | video i => exact shows_presentVideo h
  | send c =>
    cases h
    exact shows_of_samePicture ⟨rfl, rfl, rfl, rfl⟩

theorem shows_performAll {actions : List Action} (h : (t.performAll actions).outcome = .ok t') :
    t.Shows (actions.countP Action.isPicture) t' := by
  induction actions generalizing t with
  | nil =>
    cases h
    exact shows_of_samePicture ⟨rfl, rfl, rfl, rfl⟩
  | cons a rest ih =>
    obtain ⟨t₁, h₁, h⟩ := Logged.bind_outcome_eq_ok_iff.mp h
    change t.Shows (([a] ++ rest).countP Action.isPicture) t'
    rw [List.countP_append]
    exact (shows_perform h₁).trans (ih h)

end Turn

/-! ## The totals -/

variable {κ δ : Type} [Core κ] [Sound.Device δ] {sound : Option (Stream δ)}
  {picture : Option (Pipeline FrameBuffer)}

/-- The counts of a session agree with the record of its core, and with the stream and the pipeline
that it was given. -/
structure Tallied (sound : Option (Stream δ)) (picture : Option (Pipeline FrameBuffer))
    (l : Loop (Traced κ) (Stream δ) (Pipeline FrameBuffer)) : Prop where
  frames_eq : l.totals.frames = l.core.cycles.length
  samples_eq : l.totals.samples = l.core.bursts.flatten.length
  carried : Carried sound l.core.bursts l.sound l.totals.audio
  shown : Shown picture l.core.pictures l.picture l.totals.presented l.totals.dropped

namespace Tallied

variable {l m : Loop (Traced κ) (Stream δ) (Pipeline FrameBuffer)}

/-- What the session does to its core between cycles is not on record. -/
theorem steer (h : Tallied sound picture l) {core : Traced κ}
    (hcore : core = l.core ∨ core = Core.reset l.core) (mailbox : Mailbox) (phase : Phase)
    (restarts : Nat) : Tallied sound picture (l.steer core mailbox phase restarts) := by
  have hcycles : core.cycles = l.core.cycles := by
    obtain rfl | rfl := hcore <;> rfl
  have hbursts : core.bursts = l.core.bursts := by rw [Traced.bursts, hcycles, Traced.bursts]
  have hpictures : core.pictures = l.core.pictures := by
    rw [Traced.pictures, hcycles, Traced.pictures]
  exact {
    frames_eq := h.frames_eq.trans (congrArg List.length hcycles.symm)
    samples_eq := h.samples_eq.trans (by rw [← hbursts]; rfl)
    carried := hbursts ▸ h.carried
    shown := hpictures ▸ h.shown }

theorem step (h : Tallied sound picture l) (hm : l.step.outcome = .ok m) :
    Tallied sound picture m := by
  obtain ⟨core, actions, t, hcycle, ht, rfl⟩ := Loop.step_eq_ok_iff.mp hm
  have hcycles := Traced.cycles_of_cycle hcycle
  have hbursts := Traced.bursts_of_cycles hcycles
  have hpictures := Traced.pictures_of_cycles hcycles
  obtain ⟨presented, dropped, hshown, hpresented, hdropped⟩ := Turn.shows_performAll ht
  -- the turn of a frame begins with all its counts at zero
  have hcount : t.samples = (burstsTaken l.soundWanted actions).flatten.length :=
    (Turn.heard_performAll ht).2.trans (Nat.zero_add _)
  have hpresented : t.presented = presented := hpresented.trans (Nat.zero_add _)
  have hdropped : t.dropped = dropped := hdropped.trans (Nat.zero_add _)
  exact {
    frames_eq := by
      change l.totals.frames + 1 = core.cycles.length
      rw [h.frames_eq, hcycles, List.length_append, List.length_singleton]
    samples_eq := by
      change l.totals.samples + t.samples = core.bursts.flatten.length
      rw [h.samples_eq, hcount, hbursts, List.flatten_append, List.length_append]
    carried := by
      change Carried sound core.bursts _ _
      rw [hbursts]
      exact h.carried.afterTurn core ht
    shown := by
      change Shown picture core.pictures t.picture (l.totals.presented + t.presented)
        (l.totals.dropped + t.dropped)
      rw [hpictures, hpresented, hdropped]
      exact h.shown.trans hshown }

omit [Core κ] in
theorem silenced (h : Tallied sound picture l) : Tallied sound picture l.silenced := by
  have hcarried := h.carried.silenced
  obtain ⟨link, audio, heq⟩ := l.exists_silenced_eq
  rw [heq] at hcarried ⊢
  exact ⟨h.frames_eq, h.samples_eq, hcarried, h.shown⟩

theorem kept : Kept (Tallied sound picture : Loop (Traced κ) _ _ → Prop) where
  steer := steer
  step := step
  silenced := silenced

/-- A session that begins has counted nothing. -/
theorem fresh {core : κ} {mailbox : Mailbox} {frameLimit : Option Nat}
    (h : (Loop.create { core } picture mailbox frameLimit).outcome = .ok l) :
    Tallied none picture l := by
  obtain rfl := Loop.eq_of_create h
  exact ⟨rfl, rfl, .absent, Shown.nothing picture⟩

omit [Core κ] in
/-- Nothing has been taken before a stream is attached. -/
theorem fitted (h : Tallied none picture l) (sink : Option (Except Failure (Stream δ))) :
    Tallied (sink.bind Except.toOption) picture (l.fitted sink) := by
  obtain ⟨hlink, hbursts, haudio⟩ := h.carried.of_none
  have hcarried := Carried.fitted hlink haudio sink
  obtain ⟨link, heq⟩ := l.exists_fitted_eq sink
  rw [heq] at hcarried ⊢
  exact ⟨h.frames_eq, h.samples_eq, hbursts.symm ▸ hcarried, h.shown⟩

end Tallied

/-- The counts of all parts of a session agree. After all requests the session has counted the
cycles of its core. If it has a picture pipeline, it has counted each picture as presented or
dropped, as has the frame buffer, and the compositor those presented. If a stream was attached to
it, at the beginning or later, the stream is what the bursts make of it that were taken since, one
after another; all their samples are counted, by the session and by the stream. After a run the
final counts of the stream are kept. -/
theorem Loop.totals_agree (core : κ) (picture : Option (Pipeline FrameBuffer))
    (sound : Option (Except Failure (Stream δ))) (mailbox : Mailbox) (frameLimit : Option Nat)
    (early late : List Request) {l k m : Loop (Traced κ) (Stream δ) (Pipeline FrameBuffer)}
    (hsound : ∀ s₀, sound = some (.ok s₀) → s₀.stopped = false)
    (hl : (create { core } picture mailbox frameLimit).outcome = .ok l)
    (hk : (l.serveAll early).outcome = .ok k)
    (hm : ((k.fitted sound).serveAll late).outcome = .ok m) :
    m.totals.frames = m.core.cycles.length ∧
    (picture = none →
      m.picture = none ∧ m.totals.presented = 0 ∧ m.totals.dropped = 0) ∧
    (∀ p, picture = some p → ∃ q, m.picture = some q ∧
      m.totals.presented + m.totals.dropped = m.core.pictures ∧
      q.target.presented = p.target.presented + m.core.pictures ∧
      q.compositor.frames = p.compositor.frames + m.totals.presented) ∧
    ((∀ s₀, sound ≠ some (.ok s₀)) →
      m.sound = .absent ∧ m.totals.samples = 0 ∧ m.totals.audio = none) ∧
    ∀ s₀, sound = some (.ok s₀) →
      m.totals.samples = m.core.bursts.flatten.length ∧
      (∃ s answers, (s₀.pushAll m.core.bursts).outcome = .ok (s, answers) ∧
        s.tally.samplesAccepted = s₀.tally.samplesAccepted + m.totals.samples ∧
        ((m.sound = .attached s ∧ m.totals.audio = none) ∨
          (m.sound = .closed s.close.1 ∧ m.totals.audio = some s.tally))) ∧
      ∀ n m', (m.run n).outcome = .ok m' → m'.phase = .shuttingDown →
        ∃ s answers, (s₀.pushAll m'.core.bursts).outcome = .ok (s, answers) ∧
          m'.sound = .closed s.close.1 ∧ m'.totals.audio = some s.tally := by
  have tallied : Tallied (sound.bind Except.toOption) picture m :=
    Tallied.kept.serveAll ((Tallied.kept.serveAll (Tallied.fresh hl) hk).fitted sound) hm
  have hcarried := tallied.carried
  refine ⟨tallied.frames_eq, ?_, ?_, ?_, ?_⟩
  · rintro rfl
    exact tallied.shown.of_none
  · rintro p rfl
    exact tallied.shown.of_some
  · intro hnone
    have habsent : sound.bind Except.toOption = none := by
      obtain _ | e | s₀ := sound
      · rfl
      · rfl
      · exact absurd rfl (hnone s₀)
    rw [habsent] at hcarried
    obtain ⟨hlink, hbursts, haudio⟩ := hcarried.of_none
    refine ⟨hlink, ?_, haudio⟩
    rw [tallied.samples_eq, hbursts]
    rfl
  · rintro s₀ rfl
    refine ⟨tallied.samples_eq, ?_, ?_⟩
    · obtain ⟨s, answers, hpush, hlink⟩ := hcarried.of_some
      refine ⟨s, answers, hpush, ?_, hlink⟩
      rw [tallied.samples_eq]
      exact (Stream.pushAll_of_running (hsound s₀ rfl) hpush).2
    · intro n m' hrun hend
      obtain ⟨b, hcourse, rfl⟩ := run_silenced hrun hend
      rw [core_silenced]
      obtain ⟨s, answers, hpush, hlink, haudio, -⟩ :=
        (Tallied.kept.course tallied hcourse).carried.of_silenced
      exact ⟨s, answers, hpush, hlink, haudio⟩

open Picture.Pipeline (smallBuffer)
open Sound.Stream (balky shortPeriods start_balky)

/-- A session whose core plays a burst in every frame, and shows two pictures of which the second is
larger than the screen. -/
def crowdedSession : Loop (Traced ScriptedCore) (Stream (Sound.Recorder Sound.ScriptedDevice))
    (Pipeline FrameBuffer) where
  core := { core :=
    { script := [[.audio [1, 2, 3], .video Compositor.twoDots, .video ⟨#[7, 7, 7, 7, 7, 7], 6, 1⟩]]
      size := (2, 1) } }
  picture := some { compositor := {}, target := smallBuffer }
  frameLimit := some 4

/-- One frame before the stream is attached, three with sound, a pause and a restart between them,
and one after the run. -/
theorem Loop.totals_agree_crowded :
    ∃ s₀ s k m answers,
      (Stream.start Sound.Allocator.standard shortPeriods
        ({ device := balky } : Sound.Recorder Sound.ScriptedDevice)).outcome = .ok s₀ ∧
      (crowdedSession.serveAll [.step]).outcome = .ok k ∧
      ((k.fitted (some (.ok s₀))).serveAll
        [.step, .command .pause, .step, .command (.choose .restart), .run 9, .step]).outcome =
          .ok m ∧
      (m.totals.frames, m.totals.presented, m.totals.dropped, m.totals.samples) = (5, 5, 5, 9) ∧
      m.core.cycles.length = 5 ∧ m.core.pictures = 10 ∧
      (∃ q, m.picture = some q ∧ q.target.presented = 10 ∧ q.compositor.frames = 5) ∧
      (s₀.pushAll m.core.bursts).outcome = .ok (s, answers) ∧ s.tally.samplesAccepted = 9 ∧
      m.totals.audio = some s.tally := by
  obtain ⟨s₀, h₀, -⟩ := start_balky
  have hopened := Stream.start_spec h₀
  have hcounts : (crowdedSession.serveAll [.step] >>= fun k =>
      (k.fitted ((Stream.start Sound.Allocator.standard shortPeriods
        ({ device := balky } : Sound.Recorder Sound.ScriptedDevice)).outcome.toOption.map
          .ok)).serveAll [.step, .command .pause, .step, .command (.choose .restart), .run 9,
            .step]).outcome.toOption.map (fun m => ((m.totals.frames, m.totals.presented,
              m.totals.dropped, m.totals.samples), m.totals.audio.isSome)) =
      some ((5, 5, 5, 9), true) := by
    decide +kernel
  rw [h₀] at hcounts
  obtain ⟨m, hm, hcounts⟩ := exists_of_toOption_map hcounts
  obtain ⟨k, hk, hm⟩ := Logged.bind_outcome_eq_ok_iff.mp hm
  obtain ⟨hcounts, haudio⟩ := Prod.mk.inj hcounts
  obtain ⟨hframes, hpresented, hdropped, hsamples⟩ :
      m.totals.frames = 5 ∧ m.totals.presented = 5 ∧ m.totals.dropped = 5 ∧
        m.totals.samples = 9 := by
    simpa using hcounts
  obtain ⟨hcycles, -, hpicture, -, hsound⟩ := Loop.totals_agree crowdedSession.core.core
    crowdedSession.picture (some (.ok s₀)) {} (some 4) _ _
    (by rintro _ ⟨⟩; exact hopened.stopped_eq) rfl hk hm
  obtain ⟨q, hq, hpictures, htarget, hcompositor⟩ := hpicture _ rfl
  obtain ⟨-, ⟨s, answers, hpush, haccepted, hlink⟩, -⟩ := hsound s₀ rfl
  rw [hpresented, hdropped] at hpictures
  rw [← hpictures] at htarget
  rw [hpresented] at hcompositor
  rw [hsamples, hopened.tally_eq] at haccepted
  have hkept : m.totals.audio = some s.tally := by
    obtain ⟨-, hnone⟩ | ⟨-, hkept⟩ := hlink
    · rw [hnone] at haudio
      cases haudio
    · exact hkept
  exact ⟨s₀, s, k, m, answers, h₀, hk, hm, hcounts, hcycles.symm.trans hframes, hpictures.symm,
    ⟨q, hq, htarget, hcompositor⟩, hpush, haccepted, hkept⟩

end EmulatorOutput.Session
