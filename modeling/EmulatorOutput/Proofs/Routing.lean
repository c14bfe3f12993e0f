import EmulatorOutput.Proofs.NoticeLaws
import EmulatorOutput.Session.Turn

/-!
# Routing of a cycle

What a turn makes of each action. Samples change the sound side of a turn and pictures the other
side, so two turns that agree on one side and route the same actions still agree on it. The
commands that are sent depend on the actions alone.
-/

namespace EmulatorOutput.Session

open Picture (Image)

def Action.command? : Action → Option Command
  | .send c => some c
  | .audio _ | .video _ => none

/-- The commands that a core sends in a cycle. -/
def commandsOf (actions : List Action) : List Command := actions.filterMap Action.command?

namespace Turn

variable {α α' ν ν' : Type}

/-- The turn after a sink has taken samples. -/
def heard (t : Turn α ν) (samples : List Int16) (sink : α) : Turn α ν :=
  { t with sound := some sink, samples := t.samples + samples.length }

/-- The turn after a sink has answered a picture. -/
def seen (t : Turn α ν) (sink : ν) : Except Failure Unit → Turn α ν
  | .ok () => { t with picture := some sink, presented := t.presented + 1 }
  | .error e => { t with
      picture := some sink
      dropped := t.dropped + 1
      reported := if e.kind ∈ t.reported then t.reported else t.reported ++ [e.kind] }

/-- The turns agree on what pictures leave behind. -/
structure SamePicture (t : Turn α ν) (u : Turn α' ν) : Prop where
  picture_eq : u.picture = t.picture
  reported_eq : u.reported = t.reported
  presented_eq : u.presented = t.presented
  dropped_eq : u.dropped = t.dropped

/-- The turns agree on what samples leave behind. -/
structure SameSound (t : Turn α ν) (u : Turn α ν') : Prop where
  sound_eq : u.sound = t.sound
  samples_eq : u.samples = t.samples

theorem SamePicture.symm {t : Turn α ν} {u : Turn α' ν} (h : t.SamePicture u) : u.SamePicture t :=
  ⟨h.picture_eq.symm, h.reported_eq.symm, h.presented_eq.symm, h.dropped_eq.symm⟩

theorem SamePicture.trans {α'' : Type} {t : Turn α ν} {u : Turn α' ν} {v : Turn α'' ν}
    (h : t.SamePicture u) (h' : u.SamePicture v) : t.SamePicture v :=
  ⟨h'.picture_eq.trans h.picture_eq, h'.reported_eq.trans h.reported_eq,
    h'.presented_eq.trans h.presented_eq, h'.dropped_eq.trans h.dropped_eq⟩

theorem SameSound.symm {t : Turn α ν} {u : Turn α ν'} (h : t.SameSound u) : u.SameSound t :=
  ⟨h.sound_eq.symm, h.samples_eq.symm⟩

theorem SameSound.trans {ν'' : Type} {t : Turn α ν} {u : Turn α ν'} {v : Turn α ν''}
    (h : t.SameSound u) (h' : u.SameSound v) : t.SameSound v :=
  ⟨h'.sound_eq.trans h.sound_eq, h'.samples_eq.trans h.samples_eq⟩

theorem SamePicture.seen {t : Turn α ν} {u : Turn α' ν} (h : t.SamePicture u) (sink : ν)
    (answer : Except Failure Unit) : (t.seen sink answer).SamePicture (u.seen sink answer) := by
  obtain ⟨-, hreported, hpresented, hdropped⟩ := h
  cases answer with
  | ok u => exact ⟨rfl, hreported, congrArg (· + 1) hpresented, hdropped⟩
  | error e =>
    refine ⟨rfl, ?_, hpresented, congrArg (· + 1) hdropped⟩
    rw [Turn.seen, Turn.seen, hreported]

theorem SameSound.heard {t : Turn α ν} {u : Turn α ν'} (h : t.SameSound u)
    (samples : List Int16) (sink : α) : (t.heard samples sink).SameSound (u.heard samples sink) :=
  ⟨rfl, congrArg (· + samples.length) h.samples_eq⟩

theorem sameSound_seen (t : Turn α ν) (sink : ν) (answer : Except Failure Unit) :
    t.SameSound (t.seen sink answer) := by
  cases answer <;> exact ⟨rfl, rfl⟩

theorem sent_seen (t : Turn α ν) (sink : ν) (answer : Except Failure Unit) :
    (t.seen sink answer).sent = t.sent := by
  cases answer <;> rfl

/-! ## One action -/

theorem outcome_pushAudio [SoundSink α] (t : Turn α ν) (samples : List Int16) :
    (t.pushAudio samples).outcome =
      match t.sound with
      | none => .ok t
      | some sink => (SoundSink.push sink samples).outcome.map fun r => t.heard samples r.1 := by
  unfold pushAudio
  cases t.sound with
  | none => rfl
  | some sink =>
    dsimp only
    rw [Logged.outcome_bind]
    cases (SoundSink.push sink samples).outcome <;> rfl

theorem outcome_presentVideo [PictureSink ν] (t : Turn α ν) (i : Image) :
    (t.presentVideo i).outcome =
      match t.picture with
      | none => .ok t
      | some sink => (PictureSink.present sink i).outcome.map fun r => t.seen r.1 r.2 := by
  unfold presentVideo
  cases t.picture with
  | none => rfl
  | some sink =>
    dsimp only
    rw [Logged.outcome_bind]
    cases (PictureSink.present sink i).outcome with
    | error f => rfl
    | ok r =>
      obtain ⟨sink', answer⟩ := r
      cases answer with
      | ok u => rfl
      | error e =>
        change (refuse { t with picture := some sink' } e).outcome = .ok (t.seen sink' (.error e))
        rw [refuse, seen]
        split <;> rfl

/-- Samples change nothing, or they have been heard. -/
theorem pushAudio_cases [SoundSink α] {t t' : Turn α ν} {samples : List Int16}
    (h : (t.pushAudio samples).outcome = .ok t') :
    (t.sound = none ∧ t' = t) ∨
      ∃ sink r, t.sound = some sink ∧ (SoundSink.push sink samples).outcome = .ok r ∧
        t' = t.heard samples r.1 := by
  rw [outcome_pushAudio] at h
  cases hsound : t.sound with
  | none =>
    rw [hsound] at h
    exact .inl ⟨rfl, (Except.ok.inj h).symm⟩
  | some sink =>
    simp only [hsound] at h
    cases hpush : (SoundSink.push sink samples).outcome with
    | error f =>
      rw [hpush] at h
      cases h
    | ok r =>
      rw [hpush] at h
      exact .inr ⟨sink, r, rfl, hpush, (Except.ok.inj h).symm⟩

/-- A picture changes nothing, or it has been seen. -/
theorem presentVideo_cases [PictureSink ν] {t t' : Turn α ν} {i : Image}
    (h : (t.presentVideo i).outcome = .ok t') :
    (t.picture = none ∧ t' = t) ∨
      ∃ sink r, t.picture = some sink ∧ (PictureSink.present sink i).outcome = .ok r ∧
        t' = t.seen r.1 r.2 := by
  rw [outcome_presentVideo] at h
  cases hpicture : t.picture with
  | none =>
    rw [hpicture] at h
    exact .inl ⟨rfl, (Except.ok.inj h).symm⟩
  | some sink =>
    simp only [hpicture] at h
    cases hpresent : (PictureSink.present sink i).outcome with
    | error f =>
      rw [hpresent] at h
      cases h
    | ok r =>
      rw [hpresent] at h
      exact .inr ⟨sink, r, rfl, hpresent, (Except.ok.inj h).symm⟩

theorem samePicture_pushAudio [SoundSink α] {t t' : Turn α ν} {samples : List Int16}
    (h : (t.pushAudio samples).outcome = .ok t') : t.SamePicture t' := by
  obtain ⟨-, rfl⟩ | ⟨sink, r, -, -, rfl⟩ := pushAudio_cases h <;> exact ⟨rfl, rfl, rfl, rfl⟩

theorem sameSound_presentVideo [PictureSink ν] {t t' : Turn α ν} {i : Image}
    (h : (t.presentVideo i).outcome = .ok t') : t.SameSound t' := by
  obtain ⟨-, rfl⟩ | ⟨sink, r, -, -, rfl⟩ := presentVideo_cases h
  · exact ⟨rfl, rfl⟩
  · exact t.sameSound_seen _ _

/-- Turns that agree on the pictures make the same of one more. -/
theorem SamePicture.presentVideo [PictureSink ν] {t t' : Turn α ν} {u u' : Turn α' ν} {i : Image}
    (h : t.SamePicture u) (ht : (t.presentVideo i).outcome = .ok t')
    (hu : (u.presentVideo i).outcome = .ok u') : t'.SamePicture u' := by
  obtain ⟨hnone, rfl⟩ | ⟨sink, r, hsink, hr, rfl⟩ := presentVideo_cases ht
  · obtain ⟨-, rfl⟩ | ⟨sink', r', hsink', -, -⟩ := presentVideo_cases hu
    · exact h
    · cases hsink'.symm.trans (h.picture_eq.trans hnone)
  · obtain ⟨hnone, -⟩ | ⟨sink', r', hsink', hr', rfl⟩ := presentVideo_cases hu
    · cases hnone.symm.trans (h.picture_eq.trans hsink)
    · cases hsink'.symm.trans (h.picture_eq.trans hsink)
      cases hr'.symm.trans hr
      exact h.seen _ _

/-- Turns that agree on the sound make the same of more samples. -/
theorem SameSound.pushAudio [SoundSink α] {t t' : Turn α ν} {u u' : Turn α ν'}
    {samples : List Int16} (h : t.SameSound u) (ht : (t.pushAudio samples).outcome = .ok t')
    (hu : (u.pushAudio samples).outcome = .ok u') : t'.SameSound u' := by
  obtain ⟨hnone, rfl⟩ | ⟨sink, r, hsink, hr, rfl⟩ := pushAudio_cases ht
  · obtain ⟨-, rfl⟩ | ⟨sink', r', hsink', -, -⟩ := pushAudio_cases hu
    · exact h
    · cases hsink'.symm.trans (h.sound_eq.trans hnone)
  · obtain ⟨hnone, -⟩ | ⟨sink', r', hsink', hr', rfl⟩ := pushAudio_cases hu
    · cases hnone.symm.trans (h.sound_eq.trans hsink)
    · cases hsink'.symm.trans (h.sound_eq.trans hsink)
      cases hr'.symm.trans hr
      exact h.heard _ _

/-! ## All actions of a cycle -/

section Cycle

variable [SoundSink α] [SoundSink α'] [PictureSink ν] [PictureSink ν']

theorem SamePicture.perform {t t' : Turn α ν} {u u' : Turn α' ν} {a : Action}
    (h : t.SamePicture u) (ht : (t.perform a).outcome = .ok t')
    (hu : (u.perform a).outcome = .ok u') : t'.SamePicture u' := by
  cases a with
  | audio samples =>
    exact ((samePicture_pushAudio ht).symm.trans h).trans (samePicture_pushAudio hu)
  | video i => exact h.presentVideo ht hu
  | send c =>
    cases ht
    cases hu
    exact ⟨h.picture_eq, h.reported_eq, h.presented_eq, h.dropped_eq⟩

theorem SameSound.perform {t t' : Turn α ν} {u u' : Turn α ν'} {a : Action}
    (h : t.SameSound u) (ht : (t.perform a).outcome = .ok t')
    (hu : (u.perform a).outcome = .ok u') : t'.SameSound u' := by
  cases a with
  | audio samples => exact h.pushAudio ht hu
  | video i => exact ((sameSound_presentVideo ht).symm.trans h).trans (sameSound_presentVideo hu)
  | send c =>
    cases ht
    cases hu
    exact ⟨h.sound_eq, h.samples_eq⟩

theorem sent_perform {t t' : Turn α ν} {a : Action} (h : (t.perform a).outcome = .ok t') :
    t'.sent = a.command?.toList ++ t.sent := by
  cases a with
  | audio samples => obtain ⟨-, rfl⟩ | ⟨sink, r, -, -, rfl⟩ := pushAudio_cases h <;> rfl
  | video i =>
    obtain ⟨-, rfl⟩ | ⟨sink, r, -, -, rfl⟩ := presentVideo_cases h
    · rfl
    · exact t.sent_seen _ _
  | send c =>
    cases h
    rfl

/-- A relation that each action keeps is kept by a cycle. -/
theorem performAll_related {R : Turn α ν → Turn α' ν' → Prop}
    (keep : ∀ a t u t' u', R t u → (t.perform a).outcome = .ok t' →
      (u.perform a).outcome = .ok u' → R t' u')
    {actions : List Action} {t t' : Turn α ν} {u u' : Turn α' ν'} (h : R t u)
    (ht : (t.performAll actions).outcome = .ok t')
    (hu : (u.performAll actions).outcome = .ok u') : R t' u' := by
  induction actions generalizing t u with
  | nil =>
    cases ht
    cases hu
    exact h
  | cons a rest ih =>
    obtain ⟨t₁, ht₁, ht⟩ := Logged.bind_outcome_eq_ok_iff.mp ht
    obtain ⟨u₁, hu₁, hu⟩ := Logged.bind_outcome_eq_ok_iff.mp hu
    exact ih (keep a t u t₁ u₁ h ht₁ hu₁) ht hu

theorem SamePicture.performAll {actions : List Action} {t t' : Turn α ν} {u u' : Turn α' ν}
    (h : t.SamePicture u) (ht : (t.performAll actions).outcome = .ok t')
    (hu : (u.performAll actions).outcome = .ok u') : t'.SamePicture u' :=
  performAll_related (fun _ _ _ _ _ h => h.perform) h ht hu

theorem SameSound.performAll {actions : List Action} {t t' : Turn α ν} {u u' : Turn α ν'}
    (h : t.SameSound u) (ht : (t.performAll actions).outcome = .ok t')
    (hu : (u.performAll actions).outcome = .ok u') : t'.SameSound u' :=
  performAll_related (fun _ _ _ _ _ h => h.perform) h ht hu

theorem commandsOf_cons (a : Action) (rest : List Action) :
    commandsOf (a :: rest) = a.command?.toList ++ commandsOf rest := by
  cases h : a.command? with
  | none => exact List.filterMap_cons_none h
  | some c => exact List.filterMap_cons_some h

theorem sent_performAll {actions : List Action} {t t' : Turn α ν}
    (h : (t.performAll actions).outcome = .ok t') :
    t'.sent = (commandsOf actions).reverse ++ t.sent := by
  induction actions generalizing t with
  | nil =>
    cases h
    rfl
  | cons a rest ih =>
    obtain ⟨t₁, h₁, h⟩ := Logged.bind_outcome_eq_ok_iff.mp h
    have hsingle : a.command?.toList.reverse = a.command?.toList := by cases a.command? <;> rfl
    rw [ih h, sent_perform h₁, commandsOf_cons, List.reverse_append, hsingle, List.append_assoc]

end Cycle

end Turn

end EmulatorOutput.Session
