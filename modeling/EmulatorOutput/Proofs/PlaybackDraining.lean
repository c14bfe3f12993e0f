import EmulatorOutput.Proofs.PlaybackAccounts

/-!
# Stopping a playback line

Stopping raises the flag, closes the queue and waits for the voice to end. A voice that finds the
flag raised plays what is queued without pacing and leaves when the queue is closed and empty.
It also leaves when it has given up waiting and then finds the flag raised, without another look
at the queue: what came in between the two is left behind. This is the only way in which a stop
leaves periods behind on a sink that takes every write.
-/

namespace EmulatorOutput.Sound

namespace Playing

/-- The flag is raised while the voice has given up waiting, and periods have come in since. -/
def Overtaken (g : Playing) : Prop :=
  g.line.stopping = true ∧ g.line.voice = .lapsed ∧ g.line.queue ≠ []

/-- The voice has left its loop, or is about to. -/
def Leaving (v : Voice) : Prop := v = .lapsed ∨ v = .draining ∨ v = .exited

variable {g g' : Playing} {l : Line}

/-- Without the race a voice on its way out leaves nothing behind. -/
theorem queue_nil_of_step (hrunning : g.line.stopping = false →
      g.line.voice ≠ .draining ∧ g.line.voice ≠ .exited)
    (h : g.line.stopping = true → Leaving g.line.voice → g.line.queue = [])
    (hstep : g.Step g') (hrace : ¬ g'.Overtaken) :
    g'.line.stopping = true → Leaving g'.line.voice → g'.line.queue = [] := by
  intro hs hleaving
  cases hstep with
  | move m =>
    have hs₀ : g.line.stopping = true := m.steady.1 ▸ hs
    cases m with
    | leave hv hq hc => exact hq
    | lapse hv hq => exact hq
    | heed hv hs' => exact h hs₀ (.inl hv)
    | resume hv hs' => exact absurd (hs'.symm.trans hs₀) Bool.false_ne_true
    | flush hv => exact h hs₀ (.inr (.inl hv))
    | rest => exact h hs₀ hleaving
    | tick nanos => exact h hs₀ hleaving
    | gate blocked => exact h hs₀ hleaving
    | _ => simp [Leaving, Line.loseSink, Line.loseVoice] at hleaving
  | accept p hs' => exact absurd (hs'.symm.trans hs) Bool.false_ne_true
  | hear id released hs' => exact absurd (hs'.symm.trans hs) Bool.false_ne_true
  | raiseStop =>
    cases hs₀ : g.line.stopping with
    | true => exact h hs₀ hleaving
    | false =>
      -- the flag goes up: a voice that has given up waiting may have been overtaken just now
      obtain ⟨hd, he⟩ := hrunning hs₀
      obtain hv | hv | hv := hleaving
      · by_contra hq
        exact hrace ⟨rfl, hv, hq⟩
      · exact absurd hv hd
      · exact absurd hv he
  | hangUp hs' => exact h hs' hleaving
  | join hc he => exact h hs hleaving

/-- Once the flag is raised, a voice on its way out takes nothing more from the queue. -/
theorem leaving_of_move (m : g.line.Move l) (hs : g.line.stopping = true)
    (hleaving : Leaving g.line.voice) : Leaving l.voice ∧ l.queue = g.line.queue := by
  cases m with
  | rest => exact ⟨hleaving, rfl⟩
  | tick nanos => exact ⟨hleaving, rfl⟩
  | gate blocked => exact ⟨hleaving, rfl⟩
  | heed hv hs => exact ⟨.inr (.inl rfl), rfl⟩
  | resume hv hs₀ => exact absurd (hs₀.symm.trans hs) Bool.false_ne_true
  | flush hv => exact ⟨.inr (.inr rfl), rfl⟩
  -- every other turn asks for a voice inside its loop
  | _ => simp_all [Leaving]

/-- A voice that was overtaken leaves, and leaves the queue behind. -/
theorem left_behind_of_step
    (h : g.line.stopping = true ∧ Leaving g.line.voice ∧ g.line.queue ≠ []) (hstep : g.Step g') :
    g'.line.stopping = true ∧ Leaving g'.line.voice ∧ g'.line.queue ≠ [] := by
  obtain ⟨hs, hleaving, hq⟩ := h
  cases hstep with
  | move m =>
    obtain ⟨hleaving', hqueue⟩ := leaving_of_move m hs hleaving
    exact ⟨m.steady.1.trans hs, hleaving', hqueue ▸ hq⟩
  | accept p hs' => exact absurd (hs'.symm.trans hs) Bool.false_ne_true
  | hear id released hs' => exact absurd (hs'.symm.trans hs) Bool.false_ne_true
  | raiseStop => exact ⟨rfl, hleaving, hq⟩
  | hangUp hs' => exact ⟨hs, hleaving, hq⟩
  | join hc he => exact ⟨hs, hleaving, hq⟩

/-- A voice that the producer has seen end has ended. -/
theorem ended_of_step (h : g.line.joined = true → g.line.voice.ended = true)
    (hstep : g.Step g') : g'.line.joined = true → g'.line.voice.ended = true := by
  intro hj
  cases hstep with
  | move m => exact m.ended (h (m.steady.2.2.1 ▸ hj))
  | accept p hs => exact h hj
  | hear id released hs => exact h hj
  | raiseStop => exact h hj
  | hangUp hs => exact h hj
  | join hc he => exact he

variable {format : Format} {realtime : Bool} {answers : Option (Nat → WriteAnswer)} {l₀ : Line}

theorem ended_of_joined
    (h₀ : (Line.start format realtime (answers.map Sink.fresh)).outcome = .ok l₀)
    (acts : List Act) (hj : (Playing.run { line := l₀ } acts).line.joined = true) :
    (Playing.run { line := l₀ } acts).line.voice.ended = true := by
  have hl₀ := Line.start_eq h₀
  subst hl₀
  exact run_induction (P := fun g => g.line.joined = true → g.line.voice.ended = true)
    (fun _ _ => ended_of_step) (fun hj => by cases hj) acts hj

theorem queue_nil_of_run
    (h₀ : (Line.start format realtime (answers.map Sink.fresh)).outcome = .ok l₀)
    (acts : List Act)
    (hrace : ∀ before, before <+: acts → ¬ (Playing.run { line := l₀ } before).Overtaken) :
    (Playing.run { line := l₀ } acts).line.stopping = true →
      Leaving (Playing.run { line := l₀ } acts).line.voice →
      (Playing.run { line := l₀ } acts).line.queue = [] := by
  -- on the last act, as the race is excluded for every beginning of the run
  induction acts using List.reverseRecOn with
  | nil =>
    intro hs
    rw [Line.start_eq h₀] at hs
    cases hs
  | append_singleton acts a ih =>
    have hrunning : (Playing.run { line := l₀ } acts).line.stopping = false →
        (Playing.run { line := l₀ } acts).line.voice ≠ .draining ∧
          (Playing.run { line := l₀ } acts).line.voice ≠ .exited :=
      fun hs => ((Accounts.run h₀ acts).running hs).2.2
    have hbefore := ih fun before hle => hrace before (hle.trans (List.prefix_append _ _))
    have hnow := hrace (acts ++ [a]) List.prefix_rfl
    rw [run_concat] at hnow ⊢
    exact queue_nil_of_step hrunning hbefore (act_step _ a) hnow

/-- A voice on its way out leaves the queue empty, unless it was overtaken at some moment. -/
theorem queue_nil_iff
    (h₀ : (Line.start format realtime (answers.map Sink.fresh)).outcome = .ok l₀)
    {acts : List Act} {g : Playing} (hg : Playing.run { line := l₀ } acts = g)
    (hs : g.line.stopping = true) (hleaving : Leaving g.line.voice) :
    g.line.queue = [] ↔
      ∀ before, before <+: acts → ¬ (Playing.run { line := l₀ } before).Overtaken := by
  subst hg
  refine ⟨fun hq before hle hover => ?_, fun hrace => queue_nil_of_run h₀ acts hrace hs hleaving⟩
  obtain ⟨after, rfl⟩ := hle
  rw [run_append] at hq
  obtain ⟨hstop, hv, hne⟩ := hover
  exact (run_induction
    (P := fun g => g.line.stopping = true ∧ Leaving g.line.voice ∧ g.line.queue ≠ [])
    (fun _ _ => left_behind_of_step) ⟨hstop, .inl hv, hne⟩ after).2.2 hq

/-- A stop can always return: once the queue is closed, the voice comes to its end by turns
alone. -/
theorem exists_turns_joined (hc : g.line.connected = false) :
    ∃ ts : List Line.Turn, (g.run (ts.map .turn ++ [.join])).line.joined = true := by
  have hclosed := (g.line.turns_steady g.line.restTurns).2.1.trans hc
  have hended : (g.line.turns g.line.restTurns).voice.ended = true := by
    obtain hended | ⟨-, -, hopen⟩ := g.line.resting_turns_restTurns
    · exact hended
    · exact absurd (hclosed.symm.trans hopen) Bool.false_ne_true
  refine ⟨g.line.restTurns, ?_⟩
  rw [run_concat, run_turns]
  simp [act, hclosed, hended, Line.join]

theorem Accounts.answers_mem
    (h₀ : (Line.start format realtime (answers.map Sink.fresh)).outcome = .ok l₀)
    (h : Accounts l₀ g) {s : Sink} (hs : g.line.sink = some s) : s.answers ∈ answers := by
  have hl₀ := Line.start_eq h₀
  subst hl₀
  have hsame := h.answers_eq
  rw [hs, Option.map_some, Option.map_map] at hsame
  obtain ⟨a, ha, heq⟩ := Option.map_eq_some_iff.mp hsame.symm
  exact Option.mem_def.mpr (ha.trans (congrArg some heq))

/-- A sink that never fails is never given up. -/
theorem Accounts.sinkInUse_of_good
    (h₀ : (Line.start format realtime (answers.map Sink.fresh)).outcome = .ok l₀)
    (hgood : ∀ a ∈ answers, ∀ i, (a i).isFailure = false) (h : Accounts l₀ g) :
    g.line.sinkInUse = true := by
  have hzero : g.line.counts.sinkErrors = 0 := by
    cases hs : g.line.sink with
    | none => exact h.sounding.silent hs
    | some s =>
      rw [h.sounding.failures_eq s hs, List.countP_eq_zero]
      intro i hi
      exact Bool.eq_false_iff.mp (hgood _ (h.answers_mem h₀ hs) i)
  have herrors := h.sounding.errors_eq
  rw [hzero] at herrors
  by_contra hu
  rw [if_neg hu] at herrors
  cases herrors

/-- What a stop leaves, on a sink that takes every write. The periods accepted are those played
and those left in the queue: the ones played have been written completely, once and in order, and
are counted; and nothing is left in the queue just if the voice was never overtaken. A line in
real time may instead have lost its voice to a period whose play time cannot be told. -/
theorem stop_drains
    (h₀ : (Line.start format realtime (answers.map Sink.fresh)).outcome = .ok l₀)
    (hgood : ∀ a ∈ answers, ∀ i, a i ≠ .crashes ∧ (a i).isFailure = false) {acts : List Act}
    (hg : Playing.run { line := l₀ } acts = g) (hj : g.line.joined = true) :
    (g.line.voice = .crashed ∧ realtime = true ∧
      ∃ p ∈ g.accepted, ∃ e, format.nanosOf p.data.size = .error e) ∨
    ∃ played, g.accepted = played ++ g.line.queue ∧
      (∀ s ∈ g.line.sink, s.written.toList = bytesOf played) ∧
      g.line.counts.periodsPlayed = played.length ∧
      g.line.counts.bytesPlayed = (bytesOf played).length ∧
      (g.line.queue = [] ↔
        ∀ before, before <+: acts → ¬ (Playing.run { line := l₀ } before).Overtaken) := by
  have h : Accounts l₀ g := hg ▸ Accounts.run h₀ acts
  have hl₀ := Line.start_eq h₀
  have hended : g.line.voice.ended = true := by
    subst hg
    exact ended_of_joined h₀ acts hj
  have hs : g.line.stopping = true := by
    by_contra hs
    have hj₀ := (h.running (Bool.eq_false_iff.mpr hs)).2.1
    exact Bool.false_ne_true (hj₀.symm.trans hj)
  cases hv : g.line.voice with
  | crashed =>
    left
    obtain ⟨s, i, hsink, hi⟩ | ⟨hr, p, hp, e, he⟩ := h.crash_cause hv
    · exact absurd hi (hgood _ (h.answers_mem h₀ hsink) i).1
    · subst hl₀
      exact ⟨rfl, hr, p, hp, e, he⟩
  | exited =>
    right
    -- the voice holds nothing and lost nothing, so what was accepted was played or is still queued
    obtain ⟨played, lost, hcustody⟩ := h.custody
    have hnone : lost = [] := hcustody.lost_eq_nil (by rw [hv]; exact Voice.noConfusion)
    have haccepted : g.accepted = played ++ g.line.queue := by
      rw [hcustody.accepted_eq, hnone, hv]
      simp [Voice.held]
    have hperiods := hcustody.periods_eq
    have hbytes := hcustody.bytes_eq
    have htallied : g.line.voice.tallied = [] := by
      rw [hv]
      rfl
    rw [htallied, List.append_nil] at hperiods hbytes
    refine ⟨played, haccepted, fun s hsink => ?_, hperiods, hbytes,
      queue_nil_iff h₀ hg hs (.inr (.inr hv))⟩
    have hu := h.sinkInUse_of_good h₀ fun a ha i => (hgood a ha i).2
    have hrest := h.sounding.rest_eq hu (by rw [hv]; exact Voice.noConfusion) s hsink
    have hwritten : g.line.voice.unwritten = [] := by
      rw [hv]
      rfl
    rw [haccepted, bytesOf_append, hwritten, List.nil_append] at hrest
    exact List.append_cancel_right hrest
  | _ =>
    rw [hv] at hended
    cases hended

/-- A sink that takes every write. -/
def willing : Nat → WriteAnswer := fun _ => .takesAll

/-- A period is handed over, and the line is stopped before the voice has taken it. -/
def promptActs : List Act :=
  [.offer ⟨0, #[1, 2, 3, 4]⟩, .raiseStop, .hangUp, .turn .advance, .turn .advance, .turn .advance,
    .turn .advance, .turn .advance, .turn .advance, .turn .advance, .turn .advance, .join]

theorem stop_drains_prompt :
    ∃ (l₀ : Line) (g : Playing),
      (Line.start {} false (some (Sink.fresh willing))).outcome = .ok l₀ ∧
      Playing.run { line := l₀ } promptActs = g ∧ g.line.joined = true ∧
      ∃ played, g.accepted = played ++ g.line.queue ∧ g.line.counts.periodsPlayed = played.length ∧
        ∀ s ∈ g.line.sink, s.written.toList = bytesOf played := by
  obtain ⟨l₀, h₀⟩ : ∃ l₀, (Line.start {} false (some (Sink.fresh willing))).outcome = .ok l₀ :=
    ⟨_, rfl⟩
  have hgood : ∀ a ∈ some willing, ∀ i, a i ≠ .crashes ∧ (a i).isFailure = false := by
    rintro a ⟨⟩ i
    exact ⟨WriteAnswer.noConfusion, rfl⟩
  have hjoined : (Playing.run { line := l₀ } promptActs).line.joined = true := by
    rw [Line.start_eq h₀]
    rfl
  obtain ⟨-, hr, -⟩ | ⟨played, haccepted, hwritten, hperiods, -, -⟩ :=
    stop_drains h₀ hgood rfl hjoined
  · exact absurd hr Bool.false_ne_true
  · exact ⟨l₀, _, h₀, rfl, hjoined, played, haccepted, hperiods, hwritten⟩

/-- Stopped after the voice had given up waiting, and a period had come in since. -/
def overtakenActs : List Act :=
  [.turn .lapse, .offer ⟨0, #[1, 2, 3, 4]⟩, .raiseStop, .turn .advance, .hangUp, .turn .advance,
    .join]

/-- A period is accepted and the line is stopped, and the period stays in the queue, neither
written nor counted. -/
theorem stop_leaves_behind :
    ∃ (l₀ : Line) (g : Playing),
      (Line.start {} false (some (Sink.fresh willing))).outcome = .ok l₀ ∧
      Playing.run { line := l₀ } overtakenActs = g ∧ g.line.joined = true ∧
      g.accepted = [⟨0, #[1, 2, 3, 4]⟩] ∧ g.line.queue = g.accepted ∧
      g.line.counts.periodsPlayed = 0 ∧ ∀ s ∈ g.line.sink, s.written = #[] := by
  refine ⟨_, _, rfl, rfl, rfl, rfl, rfl, rfl, ?_⟩
  rintro s ⟨⟩
  rfl

/-- On a line in real time whose frames are empty no play time can be told, and the voice is lost
to the first period. -/
theorem stop_loses_period :
    ∃ (l₀ : Line) (g : Playing),
      (Line.start { channels := 0 } true (some (Sink.fresh willing))).outcome = .ok l₀ ∧
      Playing.run { line := l₀ } [.offer ⟨0, #[1, 2, 3, 4]⟩, .turn .advance, .turn .advance,
        .raiseStop, .hangUp, .join] = g ∧ g.line.joined = true ∧
      g.accepted = [⟨0, #[1, 2, 3, 4]⟩] ∧ g.line.voice = .crashed ∧
      g.line.counts.periodsPlayed = 0 :=
  ⟨_, _, rfl, rfl, rfl, rfl, rfl, rfl⟩

end Playing

end EmulatorOutput.Sound
