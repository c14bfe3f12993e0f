import EmulatorOutput.Proofs.SessionCourses
import EmulatorOutput.Session.Recording
import Mathlib.Logic.Basic

/-!
# Independent sinks

Two sessions of one core that differ in where the sound goes show the same pictures, if the core
does the same whether its samples are wanted or not; two that differ in where the pictures go make
the same sound. Each is a relation of sessions that the control and the frames keep.
-/

namespace EmulatorOutput.Session

open Sound (Tally)

variable {κ α α' ν ν' : Type}

namespace Loop

/-- The sessions agree on all but the sound. -/
structure SamePicture (E : κ → κ → Prop) (l : Loop κ α ν) (l' : Loop κ α' ν) : Prop
    extends l.SameControl E l' where
  picture_eq : l'.picture = l.picture
  reported_eq : l'.reported = l.reported
  presented_eq : l'.totals.presented = l.totals.presented
  dropped_eq : l'.totals.dropped = l.totals.dropped

/-- The sessions agree on all but the pictures. -/
structure SameSound (l : Loop κ α ν) (l' : Loop κ α ν') : Prop
    extends l.SameControl Eq l' where
  sound_eq : l'.sound = l.sound
  samples_eq : l'.totals.samples = l.totals.samples
  audio_eq : l'.totals.audio = l.totals.audio

/-! ## The sound of a session -/

/-- The session with its sound, and the counts of it, as they are given. -/
def sounding (l : Loop κ α ν) (link : SoundLink α) (audio : Option Tally) : Loop κ α ν :=
  { l with sound := link, totals.audio := audio }

/-- The session with its sound: it may have been asked for, and then it may have failed. -/
def fitted (l : Loop κ α ν) : Option (Except Failure α) → Loop κ α ν
  | none => l
  | some sink => (l.attach sink).1

theorem exists_fitted_eq (l : Loop κ α ν) (sound : Option (Except Failure α)) :
    ∃ link, l.fitted sound = l.sounding link l.totals.audio := by
  obtain _ | _ | sink := sound
  · exact ⟨l.sound, rfl⟩
  · exact ⟨l.sound, rfl⟩
  · exact ⟨.attached sink, rfl⟩

theorem SameControl.sounding {E : κ → κ → Prop} {l : Loop κ α ν} {l' : Loop κ α' ν'}
    (h : l.SameControl E l') (link : SoundLink α) (link' : SoundLink α')
    (audio audio' : Option Tally) :
    (l.sounding link audio).SameControl E (l'.sounding link' audio') :=
  ⟨h.core_rel, h.mailbox_eq, h.frameLimit_eq, h.phase_eq, h.frames_eq, h.restarts_eq⟩

/-- The pictures do not depend on the sound. -/
theorem SamePicture.sounding {E : κ → κ → Prop} {l : Loop κ α ν} {l' : Loop κ α' ν}
    (h : l.SamePicture E l') (link : SoundLink α) (link' : SoundLink α')
    (audio audio' : Option Tally) :
    (l.sounding link audio).SamePicture E (l'.sounding link' audio') :=
  ⟨h.toSameControl.sounding _ _ _ _, h.picture_eq, h.reported_eq, h.presented_eq, h.dropped_eq⟩

theorem SameSound.sounding {l : Loop κ α ν} {l' : Loop κ α ν'} (h : l.SameSound l')
    (link : SoundLink α) {audio audio' : Option Tally} (ha : audio' = audio) :
    (l.sounding link audio).SameSound (l'.sounding link audio') :=
  ⟨h.toSameControl.sounding _ _ _ _, rfl, h.samples_eq, ha⟩

theorem SamePicture.fitted {E : κ → κ → Prop} {l : Loop κ α ν} {l' : Loop κ α' ν}
    (h : l.SamePicture E l') (sound : Option (Except Failure α))
    (sound' : Option (Except Failure α')) :
    (l.fitted sound).SamePicture E (l'.fitted sound') := by
  obtain ⟨link, heq⟩ := l.exists_fitted_eq sound
  obtain ⟨link', heq'⟩ := l'.exists_fitted_eq sound'
  rw [heq, heq']
  exact h.sounding _ _ _ _

theorem SameSound.fitted {l : Loop κ α ν} {l' : Loop κ α ν'} (h : l.SameSound l')
    (sound : Option (Except Failure α)) : (l.fitted sound).SameSound (l'.fitted sound) := by
  obtain _ | _ | sink := sound
  · exact h
  · exact h
  · exact h.sounding (.attached sink) h.audio_eq

section Closing

variable [SoundSink α] [SoundSink α']

/-- Closing the sound leaves the pictures alone. -/
theorem SamePicture.silenced {E : κ → κ → Prop} {l : Loop κ α ν} {l' : Loop κ α' ν}
    (h : l.SamePicture E l') : l.silenced.SamePicture E l'.silenced := by
  obtain ⟨link, audio, heq⟩ := l.exists_silenced_eq
  obtain ⟨link', audio', heq'⟩ := l'.exists_silenced_eq
  rw [heq, heq']
  exact h.sounding _ _ _ _

theorem SameSound.silenced {l : Loop κ α ν} {l' : Loop κ α ν'} (h : l.SameSound l') :
    l.silenced.SameSound l'.silenced := by
  unfold Loop.silenced
  rw [h.sound_eq]
  cases l.sound with
  | attached sink => exact h.sounding _ rfl
  | absent => exact h
  | closed sink => exact h

end Closing

/-! ## One frame -/

section Frames

variable [SoundSink α] [SoundSink α'] [PictureSink ν] [PictureSink ν']

theorem SameControl.afterTurn {E : κ → κ → Prop} {l : Loop κ α ν} {l' : Loop κ α' ν'}
    (h : l.SameControl E l') {core core' : κ} {actions : List Action} {t : Turn α ν}
    {t' : Turn α' ν'} (hcore : E core core')
    (ht : (l.turn.performAll actions).outcome = .ok t)
    (ht' : (l'.turn.performAll actions).outcome = .ok t') :
    (l.afterTurn core t).SameControl E (l'.afterTurn core' t') where
  core_rel := hcore
  mailbox_eq := by
    have hsent : t'.sent = t.sent := (Turn.sent_performAll ht').trans (Turn.sent_performAll ht).symm
    change l'.mailbox.sendAll t'.sent.reverse = l.mailbox.sendAll t.sent.reverse
    rw [h.mailbox_eq, hsent]
  frameLimit_eq := h.frameLimit_eq
  phase_eq := h.phase_eq
  frames_eq := congrArg (· + 1) h.frames_eq
  restarts_eq := h.restarts_eq

end Frames

end Loop

variable [Core κ]

/-- Related cores do the same in a cycle, whether samples are wanted or not, and stay related. -/
structure Indifference (E : κ → κ → Prop) : Prop where
  cycle {k k' m m' actions actions'} (h : E k k') (wanted wanted' : Bool)
    (hk : Core.cycle k wanted = .ok (m, actions))
    (hk' : Core.cycle k' wanted' = .ok (m', actions')) : actions' = actions ∧ E m m'
  reset {k k'} : E k k' → E (Core.reset k) (Core.reset k')

/-- What the core does never depends on whether its samples are wanted. -/
def Indifferent (core : κ) : Prop := ∃ E : κ → κ → Prop, Indifference E ∧ E core core

/-- A core that does the same in every cycle, and comes to the same state. -/
theorem indifferent_of_cycle_eq (h : ∀ k : κ, Core.cycle k true = Core.cycle k false) (core : κ) :
    Indifferent core := by
  refine ⟨Eq, ⟨?_, fun h => congrArg _ h⟩, rfl⟩
  rintro k _ m m' actions actions' rfl wanted wanted' hk hk'
  have hsame : Core.cycle k wanted' = Core.cycle k wanted := by
    cases wanted <;> cases wanted' <;> simp [h]
  cases (hk'.symm.trans hsame).trans hk
  exact ⟨rfl, rfl⟩

variable [SoundSink α] [SoundSink α'] [PictureSink ν] [PictureSink ν']

namespace Loop

theorem SamePicture.step {E : κ → κ → Prop} (hE : Indifference E) {l m : Loop κ α ν}
    {l' m' : Loop κ α' ν} (h : l.SamePicture E l') (hm : l.step.outcome = .ok m)
    (hm' : l'.step.outcome = .ok m') : m.SamePicture E m' := by
  obtain ⟨core, actions, t, hcycle, ht, rfl⟩ := step_eq_ok_iff.mp hm
  obtain ⟨core', actions', t', hcycle', ht', rfl⟩ := step_eq_ok_iff.mp hm'
  obtain ⟨rfl, hcore⟩ := hE.cycle h.core_rel _ _ hcycle hcycle'
  have hbegin : l.turn.SamePicture l'.turn := ⟨h.picture_eq, h.reported_eq, rfl, rfl⟩
  have hturn := hbegin.performAll ht ht'
  exact {
    toSameControl := h.toSameControl.afterTurn hcore ht ht'
    picture_eq := hturn.picture_eq
    reported_eq := hturn.reported_eq
    presented_eq := congrArg₂ (· + ·) h.presented_eq hturn.presented_eq
    dropped_eq := congrArg₂ (· + ·) h.dropped_eq hturn.dropped_eq }

theorem SameSound.step {l m : Loop κ α ν} {l' m' : Loop κ α ν'} (h : l.SameSound l')
    (hm : l.step.outcome = .ok m) (hm' : l'.step.outcome = .ok m') : m.SameSound m' := by
  obtain ⟨core, actions, t, hcycle, ht, rfl⟩ := step_eq_ok_iff.mp hm
  obtain ⟨core', actions', t', hcycle', ht', rfl⟩ := step_eq_ok_iff.mp hm'
  rw [← h.core_rel, soundWanted, h.sound_eq] at hcycle'
  cases hcycle'.symm.trans hcycle
  have hbegin : l.turn.SameSound l'.turn := ⟨congrArg SoundLink.active? h.sound_eq, rfl⟩
  have hturn := hbegin.performAll ht ht'
  exact {
    toSameControl := h.toSameControl.afterTurn rfl ht ht'
    sound_eq := congrArg₂ SoundLink.update h.sound_eq hturn.sound_eq
    samples_eq := congrArg₂ (· + ·) h.samples_eq hturn.samples_eq
    audio_eq := h.audio_eq }

end Loop

theorem steady_samePicture {E : κ → κ → Prop} (hE : Indifference E) :
    Steady E (Loop.SamePicture E : Loop κ α ν → Loop κ α' ν → Prop) where
  control h := h.toSameControl
  steer h _ _ hcore mailbox phase restarts :=
    ⟨h.toSameControl.steer hcore mailbox phase restarts, h.picture_eq, h.reported_eq,
      h.presented_eq, h.dropped_eq⟩
  reset := hE.reset
  actions_eq h hcycle hcycle' := (hE.cycle h.core_rel _ _ hcycle hcycle').1
  step := Loop.SamePicture.step hE
  silenced := Loop.SamePicture.silenced

theorem steady_sameSound :
    Steady Eq (Loop.SameSound : Loop κ α ν → Loop κ α ν' → Prop) where
  control h := h.toSameControl
  steer h _ _ hcore mailbox phase restarts :=
    ⟨h.toSameControl.steer hcore mailbox phase restarts, h.sound_eq, h.samples_eq, h.audio_eq⟩
  reset h := congrArg _ h
  actions_eq h hcycle hcycle' := by
    rw [← h.core_rel, Loop.soundWanted, h.sound_eq] at hcycle'
    cases hcycle'.symm.trans hcycle
    rfl
  step := Loop.SameSound.step
  silenced := Loop.SameSound.silenced

namespace Loop

omit [SoundSink α] [PictureSink ν] in
theorem eq_of_create {core : κ} {picture : Option ν} {mailbox : Mailbox} {frameLimit : Option Nat}
    {l : Loop κ α ν} (h : (create core picture mailbox frameLimit).outcome = .ok l) :
    l = { core, picture, mailbox, frameLimit } := by
  unfold create at h
  dsimp only at h
  split at h
  · split at h <;> exact (Except.ok.inj h).symm
  · cases h

/-- The sinks of a session do not interfere. If what the core does never depends on whether its
samples are wanted, then the pictures are the same whatever becomes of the sound; and whatever
becomes of the pictures, the sound is the same. This holds after all requests, and in a run at
every event. -/
theorem sinks_independent (core : κ) (mailbox : Mailbox) (frameLimit : Option Nat)
    (rs : List Request) (n : Nat) :
    (Indifferent core → ∀ (picture : Option ν) (sound : Option (Except Failure α))
        (sound' : Option (Except Failure α')) (l m : Loop κ α ν) (l' m' : Loop κ α' ν),
      (create core picture mailbox frameLimit).outcome = .ok l →
      (create core picture mailbox frameLimit).outcome = .ok l' →
      ((l.fitted sound).serveAll rs).outcome = .ok m →
      ((l'.fitted sound').serveAll rs).outcome = .ok m' →
        ∃ E, Indifference E ∧ m.SamePicture E m' ∧ RunAlike (SamePicture E) n m m') ∧
    ∀ (picture : Option ν) (picture' : Option ν') (sound : Option (Except Failure α))
        (l m : Loop κ α ν) (l' m' : Loop κ α ν'),
      (create core picture mailbox frameLimit).outcome = .ok l →
      (create core picture' mailbox frameLimit).outcome = .ok l' →
      ((l.fitted sound).serveAll rs).outcome = .ok m →
      ((l'.fitted sound).serveAll rs).outcome = .ok m' →
        m.SameSound m' ∧ RunAlike SameSound n m m' := by
  constructor
  · rintro ⟨E, hE, hcore⟩ picture sound sound' l m l' m' hl hl' hm hm'
    obtain rfl := eq_of_create hl
    obtain rfl := eq_of_create hl'
    have hbegin : SamePicture E ({ core, picture, mailbox, frameLimit } : Loop κ α ν)
        ({ core, picture, mailbox, frameLimit } : Loop κ α' ν) :=
      ⟨⟨hcore, rfl, rfl, rfl, rfl, rfl⟩, rfl, rfl, rfl, rfl⟩
    have hsame := (steady_samePicture hE).serveAll (hbegin.fitted sound sound') hm hm'
    exact ⟨E, hE, hsame, (steady_samePicture hE).run_alike hsame n⟩
  · intro picture picture' sound l m l' m' hl hl' hm hm'
    obtain rfl := eq_of_create hl
    obtain rfl := eq_of_create hl'
    have hbegin : SameSound ({ core, picture, mailbox, frameLimit } : Loop κ α ν)
        { core, picture := picture', mailbox, frameLimit } :=
      ⟨⟨rfl, rfl, rfl, rfl, rfl, rfl⟩, rfl, rfl, rfl⟩
    have hsame := steady_sameSound.serveAll (hbegin.fitted sound) hm hm'
    exact ⟨hsame, steady_sameSound.run_alike hsame n⟩

end Loop

/-- A session of a core that plays a burst and shows two pictures in every frame. -/
def showSession (picture : Option PictureRecording) :
    Loop ScriptedCore SoundRecording PictureRecording where
  core := { script := [[.audio [1, 2], .video ⟨#[7], 1, 1⟩, .video ⟨#[8], 1, 1⟩]], size := (1, 1) }
  picture

/-- A screen that is late with its second picture. -/
def lateScreen : PictureRecording where
  refusals := [none, some (.deviceTimeout 5)]

/-- Two frames with a pause between them, and a command to go on. -/
def pausedShow : List Request := [.step, .command .pause, .step, .post [.resume]]

theorem Loop.sinks_independent_show :
    ∃ m m' m'' : Loop ScriptedCore SoundRecording PictureRecording,
      (((showSession (some lateScreen)).fitted (some (.ok {}))).serveAll pausedShow).outcome =
        .ok m ∧
      (((showSession (some lateScreen)).fitted (some (.error (.deviceTimeout 9)))).serveAll
        pausedShow).outcome = .ok m' ∧
      (((showSession none).fitted (some (.ok {}))).serveAll pausedShow).outcome = .ok m'' ∧
      (m.totals.samples, m.totals.presented, m.totals.dropped) = (4, 3, 1) ∧
      m'.totals.samples = 0 ∧ m''.totals.presented = 0 ∧
      m.events 2 = [.handled .resume, .cycled, .cycled] ∧
      (∃ E, Indifference E ∧ m.SamePicture E m' ∧ RunAlike (SamePicture E) 2 m m') ∧
      m.SameSound m'' ∧ RunAlike SameSound 2 m m'' := by
  have hfull : (((showSession (some lateScreen)).fitted (some (.ok {}))).serveAll
      pausedShow).outcome.toOption.map (fun m =>
        ((m.totals.samples, m.totals.presented, m.totals.dropped), m.events 2)) =
          some ((4, 3, 1), [.handled .resume, .cycled, .cycled]) := by
    decide +kernel
  have hsilent : (((showSession (some lateScreen)).fitted
      (some (.error (.deviceTimeout 9)))).serveAll pausedShow).outcome.toOption.map
        (·.totals.samples) = some 0 := by
    decide +kernel
  have hdark : (((showSession none).fitted (some (.ok {}))).serveAll
      pausedShow).outcome.toOption.map (·.totals.presented) = some 0 := by
    decide +kernel
  obtain ⟨m, hm, hcounts⟩ := exists_of_toOption_map hfull
  obtain ⟨m', hm', hsamples⟩ := exists_of_toOption_map hsilent
  obtain ⟨m'', hm'', hpresented⟩ := exists_of_toOption_map hdark
  obtain ⟨hcounts, hevents⟩ := Prod.mk.inj hcounts
  obtain ⟨hpicture, hsound⟩ := @Loop.sinks_independent ScriptedCore SoundRecording SoundRecording
    PictureRecording PictureRecording _ _ _ _ _ (showSession none).core {} none pausedShow 2
  exact ⟨m, m', m'', hm, hm', hm'', hcounts, hsamples, hpresented, hevents,
    hpicture (indifferent_of_cycle_eq (fun _ => rfl) _) (some lateScreen) _ _ _ m _ m' rfl rfl
      hm hm',
    hsound (some lateScreen) none _ _ m _ m'' rfl rfl hm hm''⟩

end EmulatorOutput.Session
