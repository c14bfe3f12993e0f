import EmulatorOutput.Proofs.BurstSplitting
import EmulatorOutput.Proofs.IndependentSinks

/-!
# The sound that a session carries

The bursts that a core plays reach the stream of its session one by one and in their order, for as
long as the stream is in use. So the session carries the stream it was given after all bursts taken
so far: in use and without its counts, or closed and with the counts it had before.
-/

namespace EmulatorOutput.Session

open Sound (Stream Tally)

def Action.burst? : Action → Option (List Int16)
  | .audio samples => some samples
  | .video _ | .send _ => none

/-- The bursts that a core plays in a cycle. -/
def burstsOf (actions : List Action) : List (List Int16) := actions.filterMap Action.burst?

/-- The bursts of a cycle that are taken. -/
def burstsTaken (soundWanted : Bool) (actions : List Action) : List (List Int16) :=
  if soundWanted then burstsOf actions else []

theorem burstsTaken_nil (soundWanted : Bool) : burstsTaken soundWanted [] = [] := by
  cases soundWanted <;> rfl

theorem burstsTaken_cons (soundWanted : Bool) (a : Action) (rest : List Action) :
    burstsTaken soundWanted (a :: rest) =
      burstsTaken soundWanted [a] ++ burstsTaken soundWanted rest := by
  cases soundWanted with
  | false => rfl
  | true => exact List.filterMap_append (l := [a])

theorem burstsTaken_of_burst?_eq_none {a : Action} (h : a.burst? = none) (soundWanted : Bool) :
    burstsTaken soundWanted [a] = [] := by
  cases soundWanted with
  | false => rfl
  | true => exact List.filterMap_cons_none h

variable {κ δ ν : Type} [Sound.Device δ]

/-! ## One cycle -/

/-- Bursts are taken by a stream. Where there is none, nothing is taken. -/
inductive Heard : Option (Stream δ) → List (List Int16) → Option (Stream δ) → Prop where
  | silent : Heard none [] none
  | taken {s s' : Stream δ} {bursts : List (List Int16)} {answers : List Nat}
      (h : (s.pushAll bursts).outcome = .ok (s', answers)) : Heard (some s) bursts (some s')

namespace Heard

variable {a b c : Option (Stream δ)} {xs ys : List (List Int16)}

theorem nothing : ∀ a : Option (Stream δ), Heard a [] a
  | none => .silent
  | some _ => .taken rfl

theorem trans (h : Heard a xs b) (h' : Heard b ys c) : Heard a (xs ++ ys) c := by
  cases h with
  | silent => exact h'
  | taken h =>
    cases h' with
    | taken h' => exact .taken (Stream.pushAll_trans h h')

theorem of_none (h : Heard none xs b) : b = none := by
  cases h
  rfl

theorem isSome_eq (h : Heard a xs b) : b.isSome = a.isSome := by
  cases h <;> rfl

end Heard

namespace Turn

variable {t t' : Turn (Stream δ) ν}

/-- An action that is no burst leaves the sound alone. -/
theorem heard_of_sameSound (h : t.SameSound t') :
    Heard t.sound [] t'.sound ∧ t'.samples = t.samples :=
  ⟨h.sound_eq ▸ Heard.nothing t.sound, h.samples_eq⟩

variable [PictureSink ν]

theorem heard_perform {a : Action} (h : (t.perform a).outcome = .ok t') :
    Heard t.sound (burstsTaken t.soundWanted [a]) t'.sound ∧
      t'.samples = t.samples + (burstsTaken t.soundWanted [a]).flatten.length := by
  cases a with
  | audio samples =>
    obtain ⟨hnone, rfl⟩ | ⟨s, r, hs, hpush, rfl⟩ := pushAudio_cases h
    · rw [soundWanted, hnone]
      exact ⟨.silent, rfl⟩
    · rw [soundWanted, hs]
      have hpushed : (s.pushAll [samples]).outcome = .ok (r.1, [r.2]) := Logged.bind_ok hpush rfl
      refine ⟨.taken hpushed, ?_⟩
      change t.samples + samples.length = t.samples + [samples].flatten.length
      rw [List.flatten_singleton]
  | video i =>
    rw [burstsTaken_of_burst?_eq_none rfl]
    exact heard_of_sameSound (sameSound_presentVideo h)
  | send c =>
    cases h
    rw [burstsTaken_of_burst?_eq_none rfl]
    exact heard_of_sameSound ⟨rfl, rfl⟩

/-- The bursts of a cycle are taken in their order, and their samples counted. -/
theorem heard_performAll {actions : List Action} (h : (t.performAll actions).outcome = .ok t') :
    Heard t.sound (burstsTaken t.soundWanted actions) t'.sound ∧
      t'.samples = t.samples + (burstsTaken t.soundWanted actions).flatten.length := by
  induction actions generalizing t with
  | nil =>
    cases h
    rw [burstsTaken_nil]
    exact ⟨Heard.nothing t'.sound, rfl⟩
  | cons a rest ih =>
    obtain ⟨t₁, h₁, h⟩ := Logged.bind_outcome_eq_ok_iff.mp h
    obtain ⟨hfirst, hcount⟩ := heard_perform h₁
    obtain ⟨hrest, hsum⟩ := ih h
    have hwanted : t₁.soundWanted = t.soundWanted := hfirst.isSome_eq
    rw [hwanted] at hrest hsum
    rw [burstsTaken_cons]
    refine ⟨hfirst.trans hrest, ?_⟩
    rw [hsum, hcount, List.flatten_append, List.length_append, Nat.add_assoc]

end Turn

/-! ## The whole session -/

/-- What has become of the stream that a session was given, if it was given one, after bursts. The
counts are those that the session has kept of it. -/
inductive Carried : Option (Stream δ) → List (List Int16) → SoundLink (Stream δ) →
    Option Tally → Prop where
  | absent : Carried none [] .absent none
  | attached {s₀ s : Stream δ} {bursts : List (List Int16)} {answers : List Nat}
      (h : (s₀.pushAll bursts).outcome = .ok (s, answers)) :
      Carried (some s₀) bursts (.attached s) none
  | closed {s₀ s : Stream δ} {bursts : List (List Int16)} {answers : List Nat}
      (h : (s₀.pushAll bursts).outcome = .ok (s, answers)) :
      Carried (some s₀) bursts (.closed s.close.1) (some s.tally)

namespace Carried

variable {sound : Option (Stream δ)} {bursts : List (List Int16)} {link : SoundLink (Stream δ)}
  {audio : Option Tally}

theorem update (h : Carried sound bursts link audio) {more : List (List Int16)}
    {s : Option (Stream δ)} (hs : Heard link.active? more s) :
    Carried sound (bursts ++ more) (link.update s) audio := by
  cases h with
  | absent =>
    cases hs
    exact .absent
  | attached h =>
    cases hs with
    | taken hmore => exact .attached (Stream.pushAll_trans h hmore)
  -- a closed stream takes no part in the turn
  | closed h =>
    cases hs
    rw [List.append_nil]
    exact .closed h

/-- A frame adds the bursts that it takes. -/
theorem afterTurn [PictureSink ν] {l : Loop κ (Stream δ) ν}
    (h : Carried sound bursts l.sound l.totals.audio) (core : κ) {actions : List Action}
    {t : Turn (Stream δ) ν} (ht : (l.turn.performAll actions).outcome = .ok t) :
    Carried sound (bursts ++ burstsTaken l.soundWanted actions) (l.afterTurn core t).sound
      (l.afterTurn core t).totals.audio :=
  h.update (Turn.heard_performAll ht).1

theorem silenced {l : Loop κ (Stream δ) ν} (h : Carried sound bursts l.sound l.totals.audio) :
    Carried sound bursts l.silenced.sound l.silenced.totals.audio := by
  obtain ⟨core, link, picture, mailbox, frameLimit, phase, reported, totals⟩ := l
  obtain ⟨frames, presented, dropped, samples, restarts, audio⟩ := totals
  cases h with
  | absent => exact .absent
  | attached h => exact .closed h
  | closed h => exact .closed h

/-- A session that begins carries the stream that was attached to it. -/
theorem fitted {l : Loop κ (Stream δ) ν} (hsound : l.sound = .absent)
    (haudio : l.totals.audio = none) (sink : Option (Except Failure (Stream δ))) :
    Carried (sink.bind Except.toOption) [] (l.fitted sink).sound (l.fitted sink).totals.audio := by
  obtain _ | e | s := sink
  · exact hsound ▸ haudio ▸ .absent
  · exact hsound ▸ haudio ▸ .absent
  · exact haudio ▸ .attached rfl

theorem of_none (h : Carried none bursts link audio) :
    link = .absent ∧ bursts = [] ∧ audio = none := by
  cases h
  exact ⟨rfl, rfl, rfl⟩

theorem of_some {s₀ : Stream δ} (h : Carried (some s₀) bursts link audio) :
    ∃ s answers, (s₀.pushAll bursts).outcome = .ok (s, answers) ∧
      ((link = .attached s ∧ audio = none) ∨
        (link = .closed s.close.1 ∧ audio = some s.tally)) := by
  cases h with
  | attached h => exact ⟨_, _, h, .inl ⟨rfl, rfl⟩⟩
  | closed h => exact ⟨_, _, h, .inr ⟨rfl, rfl⟩⟩

/-- Once its session is silenced, a stream is closed and its counts are kept. -/
theorem of_silenced {s₀ : Stream δ} {l : Loop κ (Stream δ) ν}
    (h : Carried (some s₀) bursts l.sound l.totals.audio) :
    ∃ s answers, (s₀.pushAll bursts).outcome = .ok (s, answers) ∧
      l.silenced.sound = .closed s.close.1 ∧ l.silenced.totals.audio = some s.tally ∧
      (l.soundWanted = true → l.sound = .attached s) := by
  obtain ⟨core, link, picture, mailbox, frameLimit, phase, reported, totals⟩ := l
  obtain ⟨frames, presented, dropped, samples, restarts, audio⟩ := totals
  cases h with
  | attached h => exact ⟨_, _, h, rfl, rfl, fun _ => rfl⟩
  | closed h => exact ⟨_, _, h, rfl, rfl, fun hwanted => absurd hwanted Bool.false_ne_true⟩

end Carried

end EmulatorOutput.Session
