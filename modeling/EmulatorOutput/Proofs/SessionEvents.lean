import EmulatorOutput.Proofs.Routing
import EmulatorOutput.Session.Loop

/-!
# Events of sessions

What happens in a session, one event after another: commands arrive, one is read and handled, the
core works on a frame and sends commands of its own, the session ends at its limit or because
nobody is left. Beside each part of the control loop stand the events that it consists of.
-/

namespace EmulatorOutput.Session

/-- What happens in a session. -/
inductive Event where
  /-- Other parties send commands, and the last of them may leave. -/
  | arrived (batch : Batch)
  /-- The core sends a command. -/
  | sent (c : Command)
  /-- A command is read and handled. -/
  | handled (c : Command)
  /-- The core works on a frame. -/
  | cycled
  /-- The frame limit ends the session. -/
  | limited
  /-- The session ends because nobody is left to resume it. -/
  | deserted
  deriving DecidableEq, Repr

/-- A computation of which something is known has come to a result. -/
theorem exists_of_toOption_map {ε α β : Type} {x : Except ε α} {f : α → β} {b : β}
    (h : x.toOption.map f = some b) : ∃ a, x = .ok a ∧ f a = b := by
  cases x with
  | error e => cases h
  | ok a => exact ⟨a, rfl, Option.some.inj h⟩

namespace Mailbox

/-- The mailbox with what arrives at a look. -/
def atLook (m : Mailbox) : Mailbox :=
  match m.arrivals with
  | .atLook b :: arrivals => deliver { m with arrivals } b
  | _ => m

/-- The mailbox with what arrives during a wait. -/
def atWait (m : Mailbox) : Mailbox :=
  match m.queue, m.arrivals with
  | [], a :: arrivals => deliver { m with arrivals } a.batch
  | _, _ => m

/-- What happens at a look, apart from reading. -/
def lookEvents (m : Mailbox) : List Event :=
  match m.arrivals with
  | .atLook b :: _ => [.arrived b]
  | _ => []

/-- What happens during a wait, apart from reading. -/
def waitEvents (m : Mailbox) : List Event :=
  match m.queue, m.arrivals with
  | [], a :: _ => [.arrived a.batch]
  | _, _ => []

/-- What happens while a core sends commands. -/
def sendEvents (m : Mailbox) : List Command → List Event
  | [] => []
  | c :: cs =>
    match m.arrivals with
    | .beforeSend b :: arrivals =>
      .arrived b :: .sent c :: sendEvents ((deliver { m with arrivals } b).post [c]) cs
    | _ => (c :: cs).map .sent

theorem look_eq (m : Mailbox) : m.look = m.atLook.take := by
  obtain ⟨queue, connected, arrivals⟩ := m
  cases arrivals with
  | nil => rfl
  | cons a arrivals => cases a <;> rfl

theorem wait_eq (m : Mailbox) : m.wait = m.atWait.take := by
  obtain ⟨queue, connected, arrivals⟩ := m
  cases queue with
  | nil => cases arrivals <;> rfl
  | cons c queue => rfl

end Mailbox

namespace Loop

variable {κ α ν : Type}

/-- The session with another mailbox. -/
def receiving (l : Loop κ α ν) (mailbox : Mailbox) : Loop κ α ν := { l with mailbox }

/-- The session as it is shutting down. -/
def ended (l : Loop κ α ν) : Loop κ α ν := { l with phase := .shuttingDown }

/-- The session with its control as it is given. -/
def steer (l : Loop κ α ν) (core : κ) (mailbox : Mailbox) (phase : Phase) (restarts : Nat) :
    Loop κ α ν :=
  { l with core, mailbox, phase, totals.restarts := restarts }

/-- The session has come to its frame limit. -/
def AtLimit (l : Loop κ α ν) : Prop :=
  ∃ limit, l.frameLimit = some limit ∧ limit ≤ l.totals.frames

/-- What happens when the limit is checked. -/
def limitEvents (l : Loop κ α ν) : List Event :=
  match l.frameLimit with
  | some limit => if limit ≤ l.totals.frames then [.limited] else []
  | none => []

theorem checkLimit_of_atLimit {l : Loop κ α ν} (h : l.AtLimit) :
    l.checkLimit.1 = l.ended ∧ l.limitEvents = [.limited] := by
  obtain ⟨limit, hl, hle⟩ := h
  refine ⟨?_, by simp only [limitEvents, hl, if_pos hle]⟩
  unfold checkLimit
  split
  · rename_i hl'
    cases hl.symm.trans hl'
    rw [if_pos hle]
    rfl
  · rename_i hl'
    cases hl.symm.trans hl'

theorem checkLimit_of_not_atLimit {l : Loop κ α ν} (h : ¬ l.AtLimit) :
    l.checkLimit.1 = l ∧ l.limitEvents = [] := by
  unfold checkLimit limitEvents
  cases hl : l.frameLimit with
  | none => exact ⟨rfl, rfl⟩
  | some limit =>
    have hlt : ¬ limit ≤ l.totals.frames := fun hle => h ⟨limit, hl, hle⟩
    simp only [if_neg hlt]
    exact ⟨trivial, trivial⟩

section Closing

variable [SoundSink α]

/-- The session with its sound sink closed. -/
def silenced (l : Loop κ α ν) : Loop κ α ν :=
  match l.sound with
  | .attached sink =>
    { l with
      sound := .closed (SoundSink.close sink).1
      totals.audio := some (SoundSink.tally sink) }
  | _ => l

/-- The session silenced, if it has come to its end. -/
def concluded (l : Loop κ α ν) : Loop κ α ν :=
  if l.phase = .shuttingDown then l.silenced else l

theorem teardown_eq (l : Loop κ α ν) : l.teardown.1 = l.silenced := by
  obtain ⟨core, sound, picture, mailbox, frameLimit, phase, reported, totals⟩ := l
  cases sound <;> rfl

/-- Closing the sound changes nothing else. -/
theorem exists_silenced_eq (l : Loop κ α ν) :
    ∃ sound audio, l.silenced = { l with sound, totals.audio := audio } := by
  unfold silenced
  split
  · exact ⟨_, _, rfl⟩
  · exact ⟨l.sound, l.totals.audio, rfl⟩

theorem exists_concluded_eq (l : Loop κ α ν) :
    ∃ sound audio, l.concluded = { l with sound, totals.audio := audio } := by
  unfold concluded
  split
  · exact l.exists_silenced_eq
  · exact ⟨l.sound, l.totals.audio, rfl⟩

end Closing

section Poll

variable [Core κ]

theorem heed_of_overcounts {l : Loop κ α ν} {c : Command} (h : l.Overcounts c) :
    (l.heed c).outcome = .error .addOverflow := by
  rw [heed, if_pos h]

theorem heed_of_not_overcounts {l : Loop κ α ν} {c : Command} (h : ¬ l.Overcounts c) :
    l.heed c = Logged.tell (l.handle c) := if_neg h

theorem heed_eq_ok_iff {l m : Loop κ α ν} {c : Command} :
    (l.heed c).outcome = .ok m ↔ ¬ l.Overcounts c ∧ (l.handle c).1 = m := by
  by_cases h : l.Overcounts c
  · simp [heed_of_overcounts h, h]
  · simp [heed_of_not_overcounts h, h, Logged.tell]

/-- What happens in a poll. -/
def pollEvents (l : Loop κ α ν) : List Event :=
  match _ : l.mailbox.look with
  | (mailbox, .command c) =>
    l.mailbox.lookEvents ++ .handled c ::
      if l.Overcounts c then [] else pollEvents { (handle { l with mailbox } c).1 with mailbox }
  | (_, .empty) => l.mailbox.lookEvents
  | (_, .closed) => l.mailbox.lookEvents ++ if l.phase = .running then [] else [.deserted]
termination_by l.mailbox.pending
decreasing_by exact Mailbox.pending_look (by assumption)

/-- What happens in a wait. -/
def awaitEvents (l : Loop κ α ν) : List Event :=
  l.mailbox.waitEvents ++
    match l.mailbox.wait.2 with
    | .command c => [.handled c]
    | .empty => []
    | .closed => [.deserted]

/-- Handling a command leaves the mailbox alone. -/
theorem heed_bind_poll (l : Loop κ α ν) (c : Command) :
    (l.heed c >>= fun m => poll { m with mailbox := l.mailbox }) = l.heed c >>= poll := by
  by_cases h : l.Overcounts c
  · rw [Logged.bind_of_error (heed_of_overcounts h), Logged.bind_of_error (heed_of_overcounts h)]
  · rw [heed_of_not_overcounts h]
    rfl

theorem poll_eq (l : Loop κ α ν) :
    l.poll =
      match l.mailbox.look with
      | (mailbox, .command c) => (l.receiving mailbox).heed c >>= poll
      | (mailbox, .empty) => pure (l.receiving mailbox)
      | (mailbox, .closed) =>
        pure (if l.phase = .running then l.receiving mailbox else (l.receiving mailbox).ended) := by
  rw [poll]
  split <;> (rename_i h; rw [h])
  · exact heed_bind_poll (l.receiving _) _
  · rfl
  · dsimp only
    by_cases hp : l.phase = .running
    · rw [if_pos hp, if_pos hp, ← hp]
      rfl
    · rw [if_neg hp, if_neg hp]
      rfl

theorem pollEvents_eq (l : Loop κ α ν) :
    l.pollEvents =
      match l.mailbox.look with
      | (mailbox, .command c) =>
        l.mailbox.lookEvents ++ .handled c ::
          if l.Overcounts c then [] else (handle (l.receiving mailbox) c).1.pollEvents
      | (_, .empty) => l.mailbox.lookEvents
      | (_, .closed) =>
        l.mailbox.lookEvents ++ if l.phase = .running then [] else [.deserted] := by
  rw [pollEvents]
  split
  · rename_i h
    rw [h]
    rfl
  · rename_i h
    rw [h]
  · rename_i h
    rw [h]

/-- Polling goes on as long as there is a command. -/
theorem poll_of_command {l : Loop κ α ν} {c : Command} {queue : List Command}
    (h : l.mailbox.atLook.queue = c :: queue) (hc : ¬ l.Overcounts c) :
    l.poll.outcome =
        (handle (l.receiving { l.mailbox.atLook with queue }) c).1.poll.outcome ∧
      l.pollEvents = l.mailbox.lookEvents ++
        .handled c :: (handle (l.receiving { l.mailbox.atLook with queue }) c).1.pollEvents := by
  have hheed := heed_of_not_overcounts (l := l.receiving { l.mailbox.atLook with queue }) hc
  rw [poll_eq, pollEvents_eq, Mailbox.look_eq, Mailbox.take, h]
  dsimp only
  rw [if_neg hc, hheed, Logged.outcome_bind]
  exact ⟨rfl, rfl⟩

/-- Polling breaks off at a restart that cannot be counted. -/
theorem poll_of_overcounts {l : Loop κ α ν} {c : Command} {queue : List Command}
    (h : l.mailbox.atLook.queue = c :: queue) (hc : l.Overcounts c) :
    l.poll.outcome = .error .addOverflow ∧
      l.pollEvents = l.mailbox.lookEvents ++ [.handled c] := by
  have hheed := heed_of_overcounts (l := l.receiving { l.mailbox.atLook with queue }) hc
  rw [poll_eq, pollEvents_eq, Mailbox.look_eq, Mailbox.take, h]
  dsimp only
  rw [if_pos hc, Logged.outcome_bind, hheed]
  exact ⟨rfl, rfl⟩

theorem poll_of_empty {l : Loop κ α ν} (h : l.mailbox.atLook.queue = [])
    (hc : l.mailbox.atLook.connected = true) :
    l.poll.outcome = .ok (l.receiving l.mailbox.atLook) ∧
      l.pollEvents = l.mailbox.lookEvents := by
  rw [poll_eq, pollEvents_eq, Mailbox.look_eq, Mailbox.take, h, hc]
  exact ⟨rfl, rfl⟩

/-- A session that is running does not mind that nobody is left to send it commands. -/
theorem poll_of_closed {l : Loop κ α ν} (h : l.mailbox.atLook.queue = [])
    (hc : l.mailbox.atLook.connected = false) (hp : l.phase = .running) :
    l.poll.outcome = .ok (l.receiving l.mailbox.atLook) ∧
      l.pollEvents = l.mailbox.lookEvents := by
  rw [poll_eq, pollEvents_eq, Mailbox.look_eq, Mailbox.take, h, hc]
  exact ⟨congrArg Except.ok (if_pos hp), (congrArg _ (if_pos hp)).trans (List.append_nil _)⟩

theorem poll_of_deserted {l : Loop κ α ν} (h : l.mailbox.atLook.queue = [])
    (hc : l.mailbox.atLook.connected = false) (hp : l.phase ≠ .running) :
    l.poll.outcome = .ok (l.receiving l.mailbox.atLook).ended ∧
      l.pollEvents = l.mailbox.lookEvents ++ [.deserted] := by
  rw [poll_eq, pollEvents_eq, Mailbox.look_eq, Mailbox.take, h, hc]
  exact ⟨congrArg Except.ok (if_neg hp), congrArg _ (if_neg hp)⟩

/-- Polling is an induction on the commands that are there. -/
theorem poll_induction {motive : Loop κ α ν → Prop}
    (command : ∀ l c queue, l.mailbox.atLook.queue = c :: queue →
      motive (handle (l.receiving { l.mailbox.atLook with queue }) c).1 → motive l)
    (other : ∀ l, l.mailbox.atLook.queue = [] → motive l) (l : Loop κ α ν) : motive l := by
  generalize hn : l.mailbox.pending = n
  induction n using Nat.strongRecOn generalizing l with
  | _ n ih =>
    cases hq : l.mailbox.atLook.queue with
    | nil => exact other l hq
    | cons c queue =>
      have hlook : l.mailbox.look = ({ l.mailbox.atLook with queue }, .command c) := by
        rw [Mailbox.look_eq, Mailbox.take, hq]
      exact command l c queue hq (ih _ (hn ▸ Mailbox.pending_look hlook) _ rfl)

theorem await_of_command {l : Loop κ α ν} {c : Command} {queue : List Command}
    (h : l.mailbox.atWait.queue = c :: queue) (hc : ¬ l.Overcounts c) :
    l.await.outcome = .ok (handle (l.receiving { l.mailbox.atWait with queue }) c).1 ∧
      l.awaitEvents = l.mailbox.waitEvents ++ [.handled c] := by
  rw [await, awaitEvents, Mailbox.wait_eq, Mailbox.take, h]
  exact ⟨heed_eq_ok_iff.mpr ⟨hc, rfl⟩, rfl⟩

theorem await_of_overcounts {l : Loop κ α ν} {c : Command} {queue : List Command}
    (h : l.mailbox.atWait.queue = c :: queue) (hc : l.Overcounts c) :
    l.await.outcome = .error .addOverflow ∧
      l.awaitEvents = l.mailbox.waitEvents ++ [.handled c] := by
  have hheed := heed_of_overcounts (l := l.receiving { l.mailbox.atWait with queue }) hc
  rw [await, awaitEvents, Mailbox.wait_eq, Mailbox.take, h]
  exact ⟨hheed, rfl⟩

theorem await_of_empty {l : Loop κ α ν} (h : l.mailbox.atWait.queue = [])
    (hc : l.mailbox.atWait.connected = true) :
    l.await.outcome = .ok (l.receiving l.mailbox.atWait) ∧
      l.awaitEvents = l.mailbox.waitEvents := by
  rw [await, awaitEvents, Mailbox.wait_eq, Mailbox.take, h, hc]
  exact ⟨rfl, List.append_nil _⟩

theorem await_of_deserted {l : Loop κ α ν} (h : l.mailbox.atWait.queue = [])
    (hc : l.mailbox.atWait.connected = false) :
    l.await.outcome = .ok (l.receiving l.mailbox.atWait).ended ∧
      l.awaitEvents = l.mailbox.waitEvents ++ [.deserted] := by
  rw [await, awaitEvents, Mailbox.wait_eq, Mailbox.take, h, hc]
  exact ⟨rfl, rfl⟩

/-- Polling changes nothing but the control. -/
theorem exists_poll_eq {l m : Loop κ α ν} (h : l.poll.outcome = .ok m) :
    ∃ core mailbox phase restarts, m = l.steer core mailbox phase restarts := by
  induction l using poll_induction with
  | command l c queue hq ih =>
    by_cases hc : l.Overcounts c
    · rw [(poll_of_overcounts hq hc).1] at h
      cases h
    · rw [(poll_of_command hq hc).1] at h
      obtain ⟨core, mailbox, phase, restarts, heq⟩ := ih h
      exact ⟨core, mailbox, phase, restarts, heq⟩
  | other l hq =>
    cases hc : l.mailbox.atLook.connected with
    | true =>
      rw [(poll_of_empty hq hc).1] at h
      cases h
      exact ⟨_, _, _, _, rfl⟩
    | false =>
      by_cases hp : l.phase = .running
      · rw [(poll_of_closed hq hc hp).1] at h
        cases h
        exact ⟨_, _, _, _, rfl⟩
      · rw [(poll_of_deserted hq hc hp).1] at h
        cases h
        exact ⟨_, _, _, _, rfl⟩

/-- Waiting changes nothing but the control. -/
theorem exists_await_eq {l m : Loop κ α ν} (h : l.await.outcome = .ok m) :
    ∃ core mailbox phase restarts, m = l.steer core mailbox phase restarts := by
  unfold await at h
  split at h
  · obtain ⟨-, rfl⟩ := heed_eq_ok_iff.mp h
    exact ⟨_, _, _, _, rfl⟩
  · cases h
    exact ⟨_, _, _, _, rfl⟩
  · cases h
    exact ⟨_, _, _, _, rfl⟩

/-- The next pass works on a frame. -/
def Due (l : Loop κ α ν) : Prop := ∃ m, l.poll.outcome = .ok m ∧ m.phase = .running

theorem due_iff {l m : Loop κ α ν} (h : l.poll.outcome = .ok m) :
    l.Due ↔ m.phase = .running := by
  simp [Due, h]

instance (l : Loop κ α ν) : Decidable l.Due :=
  match h : l.poll.outcome with
  | .ok _ => decidable_of_iff _ (due_iff h).symm
  | .error _ => .isFalse fun ⟨_, hm, _⟩ => nomatch h.symm.trans hm

end Poll

variable [Core κ] [SoundSink α] [PictureSink ν]

/-- The turn with which a frame begins. -/
def turn (l : Loop κ α ν) : Turn α ν :=
  { sound := l.sound.active?, picture := l.picture, reported := l.reported }

/-- The session after a frame. -/
def afterTurn (l : Loop κ α ν) (core : κ) (t : Turn α ν) : Loop κ α ν :=
  { l with
    core
    sound := l.sound.update t.sound
    picture := t.picture
    mailbox := l.mailbox.sendAll t.sent.reverse
    reported := t.reported
    totals := { l.totals with
      frames := l.totals.frames + 1
      presented := l.totals.presented + t.presented
      dropped := l.totals.dropped + t.dropped
      samples := l.totals.samples + t.samples } }

/-- All that a frame does when it does not break off. -/
theorem step_eq_ok_iff {l m : Loop κ α ν} :
    l.step.outcome = .ok m ↔ ∃ core actions t,
      Core.cycle l.core l.soundWanted = .ok (core, actions) ∧
      (l.turn.performAll actions).outcome = .ok t ∧ m = l.afterTurn core t := by
  constructor
  · intro h
    obtain ⟨⟨core, actions⟩, hcycle, h⟩ := Logged.bind_outcome_eq_ok_iff.mp h
    obtain ⟨t, hturn, h⟩ := Logged.bind_outcome_eq_ok_iff.mp h
    exact ⟨core, actions, t, hcycle, hturn, (Except.ok.inj h).symm⟩
  · rintro ⟨core, actions, t, hcycle, hturn, rfl⟩
    exact Logged.bind_ok hcycle (Logged.bind_ok hturn rfl)

/-- After a frame, what the core sends goes to the mailbox. -/
theorem mailbox_of_step {l m : Loop κ α ν} {core : κ} {actions : List Action}
    (hc : Core.cycle l.core l.soundWanted = .ok (core, actions)) (hm : l.step.outcome = .ok m) :
    m.mailbox = l.mailbox.sendAll (commandsOf actions) := by
  obtain ⟨core', actions', t, hcycle, hturn, rfl⟩ := step_eq_ok_iff.mp hm
  cases hcycle.symm.trans hc
  have hsent : t.sent.reverse = commandsOf actions := by
    rw [Turn.sent_performAll hturn, turn, List.append_nil, List.reverse_reverse]
  rw [← hsent]
  rfl

/-- What happens in a frame. Of a frame that breaks off only its beginning is an event. -/
def stepEvents (l : Loop κ α ν) : List Event :=
  .cycled ::
    match Core.cycle l.core l.soundWanted, l.step.outcome with
    | .ok (_, actions), .ok _ => l.mailbox.sendEvents (commandsOf actions)
    | _, _ => []

theorem stepEvents_of_ok {l m : Loop κ α ν} {core : κ} {actions : List Action}
    (hc : Core.cycle l.core l.soundWanted = .ok (core, actions)) (hm : l.step.outcome = .ok m) :
    l.stepEvents = .cycled :: l.mailbox.sendEvents (commandsOf actions) := by
  rw [stepEvents, hc, hm]

theorem stepEvents_of_error {l : Loop κ α ν} {f : Fault} (h : l.step.outcome = .error f) :
    l.stepEvents = [.cycled] := by
  rw [stepEvents, h]
  cases Core.cycle l.core l.soundWanted <;> rfl

/-! ## Passes -/

/-- What happens as the session does what its state asks for. -/
def actEvents (l : Loop κ α ν) : List Event :=
  match l.phase with
  | .running => l.stepEvents
  | .paused | .menu => l.awaitEvents
  | .shuttingDown => []

/-- What happens in a pass. -/
def passEvents (l : Loop κ α ν) : List Event :=
  l.pollEvents ++
    match l.poll.outcome with
    | .ok m =>
      m.actEvents ++
        match m.act.outcome with
        | .ok k => k.limitEvents
        | .error _ => []
    | .error _ => []

/-- What happens in so many passes. -/
def events : Nat → Loop κ α ν → List Event
  | 0, _ => []
  | n + 1, l =>
    if l.phase = .shuttingDown then []
    else l.passEvents ++
      match l.pass.outcome with
      | .ok m => events n m
      | .error _ => []

theorem act_of_running {l : Loop κ α ν} (h : l.phase = .running) :
    l.act = l.step ∧ l.actEvents = l.stepEvents := by
  rw [act, actEvents, h]
  exact ⟨rfl, rfl⟩

theorem act_of_shuttingDown {l : Loop κ α ν} (h : l.phase = .shuttingDown) :
    l.act = pure l ∧ l.actEvents = [] := by
  rw [act, actEvents, h]
  exact ⟨rfl, rfl⟩

theorem act_of_waiting {l : Loop κ α ν} (h : l.phase ≠ .running) (h' : l.phase ≠ .shuttingDown) :
    l.act = l.await ∧ l.actEvents = l.awaitEvents := by
  unfold act actEvents
  cases hp : l.phase with
  | running => exact absurd hp h
  | paused => exact ⟨rfl, rfl⟩
  | menu => exact ⟨rfl, rfl⟩
  | shuttingDown => exact absurd hp h'

theorem outcome_pass (l : Loop κ α ν) :
    l.pass.outcome =
      l.poll.outcome.bind fun m => m.act.outcome.map fun k => k.checkLimit.1 := by
  change (l.poll >>= fun m => m.act >>= fun k =>
    Logged.report k.checkLimit.2 >>= fun _ => pure k.checkLimit.1).outcome = _
  rw [Logged.outcome_bind]
  cases l.poll.outcome with
  | error f => rfl
  | ok m =>
    dsimp only [Except.bind]
    rw [Logged.outcome_bind]
    cases m.act.outcome <;> rfl

theorem pass_eq_ok_iff {l m : Loop κ α ν} :
    l.pass.outcome = .ok m ↔
      ∃ p k, l.poll.outcome = .ok p ∧ p.act.outcome = .ok k ∧ k.checkLimit.1 = m := by
  rw [outcome_pass]
  cases l.poll.outcome with
  | error f => simp [Except.bind]
  | ok p => cases hp : p.act.outcome <;> simp [Except.bind, Except.map, hp]

theorem pass_of_act {l p m : Loop κ α ν} (hp : l.poll.outcome = .ok p)
    (h : p.act.outcome = .ok m) :
    l.pass.outcome = .ok m.checkLimit.1 ∧
      l.passEvents = l.pollEvents ++ (p.actEvents ++ m.limitEvents) := by
  rw [outcome_pass, passEvents, hp]
  dsimp only [Except.bind]
  rw [h]
  exact ⟨rfl, rfl⟩

/-- An event that is begun and not completed: a frame that breaks off, or a restart that cannot be
counted. -/
inductive Stuck (l : Loop κ α ν) : Event → Fault → Prop where
  | cycled {f : Fault} (hp : l.phase = .running) (hf : l.step.outcome = .error f) :
      Stuck l .cycled f
  | handled {c : Command} {queue : List Command} (hq : l.mailbox.queue = c :: queue)
      (hc : l.Overcounts c) : Stuck l (.handled c) .addOverflow

/-- The pass breaks off in an event: the one that is begun in `m`, when these events have
happened. -/
structure BreaksPass (l : Loop κ α ν) (es : List Event) (e : Event) (m : Loop κ α ν) : Prop where
  frames_eq : m.totals.frames = l.totals.frames
  due_iff : e = .cycled ↔ l.Due
  outcome_eq : ∃ f, m.Stuck e f ∧ l.pass.outcome = .error f
  events_eq : l.passEvents = es ++ [e]

namespace BreaksPass

variable {l p m : Loop κ α ν} {es : List Event} {c : Command}

theorem of_step {f : Fault} (hp : l.poll.outcome = .ok p) (hrunning : p.phase = .running)
    (hf : p.step.outcome = .error f) : l.BreaksPass l.pollEvents .cycled p := by
  obtain ⟨core, mailbox, phase, restarts, heq⟩ := exists_poll_eq hp
  obtain ⟨hact, hevents⟩ := act_of_running hrunning
  refine ⟨by rw [heq]; rfl, iff_of_true rfl ⟨p, hp, hrunning⟩, ⟨f, .cycled hrunning hf, ?_⟩, ?_⟩
  · rw [outcome_pass, hp]
    dsimp only [Except.bind]
    rw [hact, hf]
    rfl
  · rw [passEvents, hp]
    dsimp only
    rw [hevents, hact, hf, stepEvents_of_error hf, List.append_nil]

theorem of_poll (hp : l.poll.outcome = .error .addOverflow)
    (hes : l.pollEvents = es ++ [.handled c]) (hm : m.Stuck (.handled c) .addOverflow)
    (hframes : m.totals.frames = l.totals.frames) : l.BreaksPass es (.handled c) m := by
  refine ⟨hframes, ⟨nofun, ?_⟩, ⟨_, hm, ?_⟩, ?_⟩
  · rintro ⟨k, hk, -⟩
    cases hp.symm.trans hk
  · rw [outcome_pass, hp]
    rfl
  · rw [passEvents, hp, hes, List.append_nil]

theorem of_act (hp : l.poll.outcome = .ok p) (hact : p.act.outcome = .error .addOverflow)
    (hes : p.actEvents = es ++ [.handled c]) (hm : m.Stuck (.handled c) .addOverflow)
    (hframes : m.totals.frames = p.totals.frames) :
    l.BreaksPass (l.pollEvents ++ es) (.handled c) m := by
  obtain ⟨core, mailbox, phase, restarts, heq⟩ := exists_poll_eq hp
  refine ⟨hframes.trans (by rw [heq]; rfl), ⟨nofun, fun hdue => ?_⟩, ⟨_, hm, ?_⟩, ?_⟩
  · -- the last event of a frame that breaks off is its beginning
    obtain ⟨hstep, hevents⟩ := act_of_running ((Loop.due_iff hp).mp hdue)
    rw [hstep] at hact
    rw [hevents, stepEvents_of_error hact] at hes
    have hlast : [] ++ [Event.cycled] = es ++ [.handled c] := hes
    cases (List.append_inj' hlast rfl).2
  · rw [outcome_pass, hp]
    dsimp only [Except.bind]
    rw [hact]
    rfl
  · rw [passEvents, hp]
    dsimp only
    rw [hact, hes, List.append_nil, List.append_assoc]

end BreaksPass

theorem passes_of_shuttingDown {l : Loop κ α ν} (h : l.phase = .shuttingDown) (n : Nat) :
    l.passes n = pure l ∧ l.events n = [] := by
  cases n with
  | zero => exact ⟨rfl, rfl⟩
  | succ n =>
    rw [passes, events, if_pos h, if_pos h]
    exact ⟨rfl, rfl⟩

theorem passes_succ_of_ok {l m : Loop κ α ν} (h : l.phase ≠ .shuttingDown)
    (hm : l.pass.outcome = .ok m) (n : Nat) :
    (l.passes (n + 1)).outcome = (m.passes n).outcome ∧
      l.events (n + 1) = l.passEvents ++ m.events n := by
  rw [passes, events, if_neg h, if_neg h, Logged.outcome_bind, hm]
  exact ⟨rfl, rfl⟩

theorem passes_succ_of_error {l : Loop κ α ν} {f : Fault} (h : l.phase ≠ .shuttingDown)
    (hf : l.pass.outcome = .error f) (n : Nat) :
    (l.passes (n + 1)).outcome = .error f ∧ l.events (n + 1) = l.passEvents := by
  rw [passes, events, if_neg h, if_neg h, Logged.outcome_bind, hf, List.append_nil]
  exact ⟨rfl, rfl⟩

theorem passes_succ_eq_ok_iff {l m : Loop κ α ν} {n : Nat} (h : l.phase ≠ .shuttingDown) :
    (l.passes (n + 1)).outcome = .ok m ↔
      ∃ k, l.pass.outcome = .ok k ∧ (k.passes n).outcome = .ok m := by
  rw [passes, if_neg h]
  exact Logged.bind_outcome_eq_ok_iff

/-- The passes break off in an event: the one that is begun in `m`, when these events have
happened. -/
structure BreaksOff (l : Loop κ α ν) (n : Nat) (es : List Event) (e : Event)
    (m : Loop κ α ν) : Prop where
  begun : ∃ k p, k < n ∧ (l.passes k).outcome = .ok p ∧ p.phase ≠ .shuttingDown ∧
    m.totals.frames = p.totals.frames ∧ (e = .cycled ↔ p.Due)
  outcome_eq : ∃ f, m.Stuck e f ∧ (l.passes n).outcome = .error f
  events_eq : l.events n = es ++ [e]

/-- The first pass breaks off. -/
theorem BreaksPass.breaksOff {l m : Loop κ α ν} {es : List Event} {e : Event}
    (hm : l.BreaksPass es e m) (h : l.phase ≠ .shuttingDown) (n : Nat) :
    l.BreaksOff (n + 1) es e m := by
  obtain ⟨hframes, hdue, ⟨f, hf, hpass⟩, hpassEvents⟩ := hm
  obtain ⟨hpasses, hevents⟩ := passes_succ_of_error h hpass n
  exact ⟨⟨0, l, Nat.succ_pos n, rfl, h, hframes, hdue⟩, ⟨f, hf, hpasses⟩,
    hevents.trans hpassEvents⟩

/-- A later pass breaks off. -/
theorem BreaksOff.succ {l k m : Loop κ α ν} {n : Nat} {es : List Event} {e : Event}
    (h : l.phase ≠ .shuttingDown) (hk : l.pass.outcome = .ok k) (hm : k.BreaksOff n es e m) :
    l.BreaksOff (n + 1) (l.passEvents ++ es) e m := by
  obtain ⟨⟨i, p, hi, hp, hbegun⟩, ⟨f, hf, hn⟩, hes⟩ := hm
  obtain ⟨hpasses, hevents⟩ := passes_succ_of_ok h hk n
  refine ⟨⟨i + 1, p, Nat.succ_lt_succ hi, ?_, hbegun⟩, ⟨f, hf, hpasses.trans hn⟩, ?_⟩
  · exact (passes_succ_of_ok h hk i).1.trans hp
  · rw [hevents, hes, List.append_assoc]

theorem outcome_run (l : Loop κ α ν) (n : Nat) :
    (l.run n).outcome = (l.passes n).outcome.map concluded := by
  change (l.passes n >>= _).outcome = _
  rw [Logged.outcome_bind]
  cases (l.passes n).outcome with
  | error f => rfl
  | ok m =>
    dsimp only [Except.bind, Except.map]
    rw [concluded, ← teardown_eq]
    split <;> rfl

end Loop

/-- What the owner of a session asks of it. -/
inductive Request where
  /-- Works on one frame, whatever the state. -/
  | step
  /-- Handles a command at once. -/
  | command (c : Command)
  | post (cs : List Command)
  | hangUp
  /-- Lets others send commands during later requests. -/
  | expect (arrivals : List Arrival)
  | run (passes : Nat)

namespace Loop

variable {κ α ν : Type} [Core κ] [SoundSink α] [PictureSink ν]

def serve (l : Loop κ α ν) : Request → Logged Fault (Loop κ α ν)
  | .step => l.step
  | .command c => l.heed c
  | .post cs => pure (l.receiving (l.mailbox.post cs))
  | .hangUp => pure (l.receiving l.mailbox.hangUp)
  | .expect arrivals =>
    pure (l.receiving { l.mailbox with arrivals := l.mailbox.arrivals ++ arrivals })
  | .run passes => l.run passes

/-- Serves all requests in their order. -/
def serveAll : List Request → Loop κ α ν → Logged Fault (Loop κ α ν)
  | [], l => pure l
  | r :: rs, l => do
    let l ← l.serve r
    serveAll rs l

end Loop

end EmulatorOutput.Session
