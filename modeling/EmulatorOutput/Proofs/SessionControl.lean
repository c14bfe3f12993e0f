import EmulatorOutput.Proofs.SessionCourses
import EmulatorOutput.Session.Recording
import Mathlib.Data.List.Induction

/-!
# Control of sessions

What a session asks of its core, against its events. A `Watched` core keeps a record of the calls
made to it and of the commands it sends. The `Account` of a list of events says what they amount
to: the commands that came in and those that were handled, the state, the calls. In every run the
session and the record agree with the account.
-/

namespace EmulatorOutput.Session

/-- What a session may ask of its core. -/
inductive CoreCall where
  | cycle
  | reset
  deriving DecidableEq, Repr

/-- A core with a record of the calls made to it and of the commands it sends, in their order. -/
structure Watched (κ : Type) where
  core : κ
  calls : List CoreCall := []
  sent : List Command := []

instance {κ : Type} [Core κ] : Core (Watched κ) where
  cycle w soundWanted := do
    let (core, actions) ← Core.cycle w.core soundWanted
    return ({ core, calls := w.calls ++ [.cycle], sent := w.sent ++ commandsOf actions }, actions)
  reset w := { w with core := Core.reset w.core, calls := w.calls ++ [.reset] }
  frameSize w := Core.frameSize w.core
  version w := Core.version w.core
  name w := Core.name w.core

theorem Phase.restarts_iff {p : Phase} {c : Command} :
    p.restarts c = true ↔ p ≠ .shuttingDown ∧ c = .choose .restart := by
  simp [Phase.restarts]

/-- What a command asks of the core: to be reset, if the session is to be restarted and not yet
shutting down. -/
def callsFor (p : Phase) (c : Command) : List CoreCall :=
  if p ≠ .shuttingDown ∧ c = .choose .restart then [.reset] else []

theorem count_cycle_callsFor (p : Phase) (c : Command) :
    (callsFor p c).count .cycle = 0 := by
  unfold callsFor
  split <;> rfl

/-- What events amount to. -/
structure Account where
  phase : Phase
  /-- Somebody can still send commands. -/
  connected : Bool
  /-- The batches that arrived. -/
  batches : List Batch := []
  /-- The commands that the core sent. -/
  sent : List Command := []
  /-- The commands that came into the channel. -/
  entered : List Command := []
  handled : List Command := []
  calls : List CoreCall := []

namespace Account

/-- The account after one more event. Commands come in only while somebody can send. -/
def after (a : Account) : Event → Account
  | .arrived b =>
    { a with
      batches := a.batches ++ [b]
      entered := a.entered ++ if a.connected then b.commands else []
      connected := a.connected && !b.hangUp }
  | .sent c =>
    { a with
      sent := a.sent ++ [c]
      entered := a.entered ++ if a.connected then [c] else [] }
  | .handled c =>
    { a with
      handled := a.handled ++ [c]
      phase := a.phase.after c
      calls := a.calls ++ callsFor a.phase c }
  | .cycled => { a with calls := a.calls ++ [.cycle] }
  | .limited | .deserted => { a with phase := .shuttingDown }

end Account

theorem Mailbox.deliver_eq (m : Mailbox) (b : Batch) :
    m.deliver b =
      { m with
        queue := m.queue ++ if m.connected then b.commands else []
        connected := m.connected && !b.hangUp } := by
  obtain ⟨queue, connected, arrivals⟩ := m
  cases connected <;> simp [deliver]

theorem Mailbox.post_eq (m : Mailbox) (cs : List Command) :
    m.post cs = { m with queue := m.queue ++ if m.connected then cs else [] } := by
  obtain ⟨queue, connected, arrivals⟩ := m
  cases connected <;> simp [post]

variable {κ α ν : Type}

/-- The account of a session before anything happens. -/
def Loop.opening (l : Loop κ α ν) : Account :=
  { phase := l.phase, connected := l.mailbox.connected }

/-- The account of events that begin in a session. -/
def Loop.account (l : Loop κ α ν) (es : List Event) : Account := es.foldl Account.after l.opening

theorem Loop.account_snoc (l : Loop κ α ν) (es : List Event) (e : Event) :
    l.account (es ++ [e]) = (l.account es).after e := by
  rw [account, List.foldl_append]
  rfl

/-- The core is asked for a frame whenever it works on one. -/
theorem Loop.count_cycle_account (l : Loop κ α ν) (es : List Event) :
    (l.account es).calls.count .cycle = es.count .cycled := by
  induction es using List.reverseRecOn with
  | nil => rfl
  | append_singleton es e ih =>
    rw [Loop.account_snoc, List.count_append, ← ih]
    cases e with
    | handled c =>
      change ((l.account es).calls ++ callsFor _ c).count .cycle = _
      rw [List.count_append, count_cycle_callsFor]
      rfl
    | cycled => exact List.count_append
    | arrived b => rfl
    | sent c => rfl
    | limited => rfl
    | deserted => rfl

/-- The state after the commands handled so far, for as long as nothing else ends the session. -/
theorem Loop.account_phase (l : Loop κ α ν) (es : List Event) :
    (l.account es).phase = .shuttingDown ∨
      (l.account es).phase = (l.account es).handled.foldl Phase.after l.phase := by
  induction es using List.reverseRecOn with
  | nil => exact .inr rfl
  | append_singleton es e ih =>
    rw [Loop.account_snoc]
    cases e with
    | handled c =>
      obtain hend | hphase := ih
      · left
        change (l.account es).phase.after c = .shuttingDown
        rw [hend]
        rfl
      · right
        change (l.account es).phase.after c = ((l.account es).handled ++ [c]).foldl _ l.phase
        rw [hphase, List.foldl_append]
        rfl
    | arrived b => exact ih
    | sent c => exact ih
    | cycled => exact ih
    | limited => exact .inl rfl
    | deserted => exact .inl rfl

/-- Once a session is shutting down, it stays so and asks nothing more of its core. -/
theorem Account.after_of_shuttingDown {a : Account} (h : a.phase = .shuttingDown) {e : Event}
    (he : e ≠ .cycled) :
    (a.after e).phase = .shuttingDown ∧ (a.after e).calls = a.calls := by
  cases e with
  | handled c =>
    refine ⟨?_, ?_⟩
    · change a.phase.after c = .shuttingDown
      rw [h]
      rfl
    · change a.calls ++ callsFor a.phase c = a.calls
      rw [h, callsFor, if_neg (fun hc => hc.1 rfl), List.append_nil]
  | cycled => contradiction
  | limited => exact ⟨rfl, rfl⟩
  | deserted => exact ⟨rfl, rfl⟩
  | arrived b => exact ⟨h, rfl⟩
  | sent c => exact ⟨h, rfl⟩

/-- When an event may happen, after the events before it. -/
def Loop.Permits (l : Loop κ α ν) (es : List Event) : Event → Prop
  /- The core works on a frame only when the commands handled so far leave the session running. -/
  | .cycled =>
    (l.account es).phase = .running ∧
      (l.account es).handled.foldl Phase.after l.phase = .running
  | .limited =>
    ∃ limit, l.frameLimit = some limit ∧
      limit ≤ l.totals.frames + (l.account es).calls.count .cycle
  /- A session is deserted only when it is not running, nobody can send any more, and all that was
  sent is handled. -/
  | .deserted =>
    (l.account es).phase ≠ .running ∧ (l.account es).connected = false ∧
      (l.account es).handled = l.mailbox.queue ++ (l.account es).entered
  | .arrived _ | .sent _ | .handled _ => True

theorem Loop.permits_cycled (l : Loop κ α ν) {es : List Event}
    (hp : (l.account es).phase = .running) : l.Permits es .cycled := by
  refine ⟨hp, ?_⟩
  obtain hend | hfold := l.account_phase es
  · cases hp.symm.trans hend
  · exact hfold.symm.trans hp

/-- Every event is permitted, and a session that is shutting down stays so and asks nothing more
of its core. -/
structure Loop.Controlled (l : Loop κ α ν) (es : List Event) : Prop where
  permitted : ∀ before e after, es = before ++ e :: after → l.Permits before e
  ended : ∀ before after, es = before ++ after → (l.account before).phase = .shuttingDown →
    (l.account es).phase = .shuttingDown ∧ (l.account es).calls = (l.account before).calls

/-- The last event may be one that is begun and not completed. -/
theorem Loop.Controlled.snoc {l : Loop κ α ν} {es : List Event} {e : Event} (h : l.Controlled es)
    (hp : (l.account es).phase ≠ .shuttingDown) (he : l.Permits es e) :
    l.Controlled (es ++ [e]) where
  permitted := by
    intro before e' after heq
    obtain ⟨hnil, -⟩ | ⟨rest, hrest, hinit⟩ := append_eq_snoc heq.symm
    · cases hnil
    · cases rest with
      | nil =>
        cases hrest
        rw [List.append_nil] at hinit
        exact hinit ▸ he
      | cons d rest =>
        cases hrest
        exact h.permitted before e' rest hinit.symm
  ended := by
    intro before after heq hend
    obtain ⟨-, hall⟩ | ⟨rest, -, hinit⟩ := append_eq_snoc heq.symm
    · rw [← hall]
      exact ⟨hend, rfl⟩
    · exact absurd (h.ended before rest hinit.symm hend).1 hp

/-- The session has come from `l` to the moment `m` as the account says. -/
structure Accounted (l : Loop (Watched κ) α ν) (a : Account) (m : Moment (Watched κ) α ν) :
    Prop where
  phase_eq : m.loop.phase = a.phase
  connected_eq : m.loop.mailbox.connected = a.connected
  frameLimit_eq : m.loop.frameLimit = l.frameLimit
  /-- Each arrival comes in once, in its turn. -/
  arrivals_eq : a.batches ++ m.loop.mailbox.arrivals.map Arrival.batch =
    l.mailbox.arrivals.map Arrival.batch
  /-- Each command is handled at most once, in its turn. -/
  handled_eq : a.handled ++ m.loop.mailbox.queue = l.mailbox.queue ++ a.entered
  sent_eq : m.loop.core.sent = l.core.sent ++ a.sent ++ m.outbox
  calls_eq : m.loop.core.calls = l.core.calls ++ a.calls
  restarts_eq : m.loop.totals.restarts = l.totals.restarts + a.calls.count .reset
  frames_eq : m.loop.totals.frames = l.totals.frames + a.calls.count .cycle

theorem Accounted.start (l : Loop (Watched κ) α ν) : Accounted l l.opening l.now where
  phase_eq := rfl
  connected_eq := rfl
  frameLimit_eq := rfl
  arrivals_eq := List.nil_append _
  handled_eq := (List.append_nil _).symm
  sent_eq := by simp [Loop.now, Loop.opening]
  calls_eq := (List.append_nil _).symm
  restarts_eq := rfl
  frames_eq := rfl

theorem Accounted.concluded [SoundSink α] {l m : Loop (Watched κ) α ν} {a : Account}
    (h : Accounted l a m.now) :
    Accounted l a m.concluded.now := by
  obtain ⟨sound, audio, heq⟩ := m.exists_concluded_eq
  rw [heq]
  exact ⟨h.phase_eq, h.connected_eq, h.frameLimit_eq, h.arrivals_eq, h.handled_eq, h.sent_eq,
    h.calls_eq, h.restarts_eq, h.frames_eq⟩

/-- Commands that come in go behind those that are there. -/
theorem Accounted.enter {l : Loop (Watched κ) α ν} {a : Account} {m : Moment (Watched κ) α ν}
    (h : Accounted l a m) (cs : List Command) :
    a.handled ++ (m.loop.mailbox.queue ++ if m.loop.mailbox.connected then cs else []) =
      l.mailbox.queue ++ (a.entered ++ if a.connected then cs else []) := by
  rw [← List.append_assoc, h.handled_eq, List.append_assoc, h.connected_eq]

theorem Accounted.ended {l m : Loop (Watched κ) α ν} {a : Account} (h : Accounted l a m.now) :
    Accounted l { a with phase := .shuttingDown } m.ended.now :=
  ⟨rfl, h.connected_eq, h.frameLimit_eq, h.arrivals_eq, h.handled_eq, h.sent_eq, h.calls_eq,
    h.restarts_eq, h.frames_eq⟩

variable [Core κ]

theorem Watched.cycle_eq_ok {w w' : Watched κ} {soundWanted : Bool} {actions : List Action}
    (h : Core.cycle w soundWanted = .ok (w', actions)) :
    w'.calls = w.calls ++ [.cycle] ∧ w'.sent = w.sent ++ commandsOf actions := by
  change (Core.cycle w.core soundWanted).bind _ = _ at h
  cases hcycle : Core.cycle w.core soundWanted with
  | error f =>
    rw [hcycle] at h
    cases h
  | ok r =>
    rw [hcycle] at h
    cases h
    exact ⟨rfl, rfl⟩

/-- What handling a command does to the core and to the count of restarts. -/
theorem Watched.handle_spec (l : Loop (Watched κ) α ν) (c : Command) :
    (l.handle c).1.core.calls = l.core.calls ++ callsFor l.phase c ∧
      (l.handle c).1.core.sent = l.core.sent ∧
      (l.handle c).1.totals.restarts = l.totals.restarts + (callsFor l.phase c).count .reset := by
  by_cases hr : l.phase.restarts c = true
  · have hcore : (l.handle c).1.core = Core.reset l.core := if_pos hr
    have hcount : (l.handle c).1.totals.restarts = l.totals.restarts + 1 :=
      congrArg (l.totals.restarts + ·) (if_pos hr)
    have hcalls : callsFor l.phase c = [.reset] := if_pos (Phase.restarts_iff.mp hr)
    rw [hcore, hcount, hcalls]
    exact ⟨rfl, rfl, rfl⟩
  · have hcore : (l.handle c).1.core = l.core := if_neg hr
    have hcount : (l.handle c).1.totals.restarts = l.totals.restarts + 0 :=
      congrArg (l.totals.restarts + ·) (if_neg hr)
    have hcalls : callsFor l.phase c = [] := if_neg (mt Phase.restarts_iff.mpr hr)
    rw [hcore, hcount, hcalls]
    exact ⟨(List.append_nil _).symm, rfl, rfl⟩

theorem Accounted.handle {l m : Loop (Watched κ) α ν} {a : Account} {c : Command}
    {queue : List Command} (h : Accounted l a m.now) (hq : m.mailbox.queue = c :: queue) :
    Accounted l (a.after (.handled c))
      (Loop.handle (m.receiving { m.mailbox with queue }) c).1.now := by
  obtain ⟨hphase, hconnected, hlimit, harrivals, hhandled, hsent, hcalls, hrestarts, hframes⟩ := h
  simp only [Loop.loop_now, Loop.outbox_now] at hphase hhandled hsent hcalls hrestarts hframes
  obtain ⟨hcalls', hsent', hrestarts'⟩ :=
    Watched.handle_spec (m.receiving { m.mailbox with queue }) c
  have hphase' : (m.receiving { m.mailbox with queue }).phase = a.phase := hphase
  rw [hphase'] at hcalls' hrestarts'
  refine ⟨congrArg (Phase.after · c) hphase, hconnected, hlimit, harrivals, ?_, ?_, ?_, ?_, ?_⟩
  · change a.handled ++ [c] ++ queue = l.mailbox.queue ++ a.entered
    rw [← hhandled, hq, List.append_assoc]
    rfl
  · exact hsent'.trans hsent
  · exact (hcalls'.trans (congrArg (· ++ _) hcalls)).trans (List.append_assoc _ _ _)
  · change _ = l.totals.restarts + (a.calls ++ callsFor a.phase c).count .reset
    rw [List.count_append, ← Nat.add_assoc, ← hrestarts]
    exact hrestarts'
  · change m.totals.frames = l.totals.frames + (a.calls ++ callsFor a.phase c).count .cycle
    rw [List.count_append, count_cycle_callsFor]
    exact hframes

variable [SoundSink α] [PictureSink ν]

/-- After a frame the core has yet to send its commands. -/
theorem Accounted.cycle {l m m' : Loop (Watched κ) α ν} {a : Account} {core : Watched κ}
    {actions : List Action} (h : Accounted l a m.now)
    (hc : Core.cycle m.core m.soundWanted = .ok (core, actions)) (hm : m.step.outcome = .ok m') :
    Accounted l (a.after .cycled) ⟨m'.receiving m.mailbox, commandsOf actions⟩ := by
  obtain ⟨hphase, hconnected, hlimit, harrivals, hhandled, hsent, hcalls, hrestarts, hframes⟩ := h
  simp only [Loop.loop_now, Loop.outbox_now, List.append_nil] at hsent hcalls hrestarts hframes
  obtain ⟨core', actions', t, hcycle, -, rfl⟩ := Loop.step_eq_ok_iff.mp hm
  cases hcycle.symm.trans hc
  obtain ⟨hcalls', hsent'⟩ := Watched.cycle_eq_ok hc
  refine ⟨hphase, hconnected, hlimit, harrivals, hhandled, ?_, ?_, ?_, ?_⟩
  · exact hsent'.trans (congrArg (· ++ commandsOf actions) hsent)
  · exact (hcalls'.trans (congrArg (· ++ _) hcalls)).trans (List.append_assoc _ _ _)
  · change m.totals.restarts = l.totals.restarts + (a.calls ++ [CoreCall.cycle]).count .reset
    rw [hrestarts, List.count_append]
    rfl
  · change m.totals.frames + 1 = l.totals.frames + (a.calls ++ [CoreCall.cycle]).count .cycle
    rw [hframes, List.count_append]
    rfl

/-- Every stride is as the account says. -/
theorem Accounted.next {l : Loop (Watched κ) α ν} {a : Account} {b c : Moment (Watched κ) α ν}
    {e : Event} (h : Accounted l a b) (hs : b.Stride e c) : Accounted l (a.after e) c := by
  cases hs with
  | @arrived m outbox arrival arrivals ha =>
    rw [Mailbox.deliver_eq]
    refine ⟨h.phase_eq, ?_, h.frameLimit_eq, ?_, h.enter _, h.sent_eq, h.calls_eq, h.restarts_eq,
      h.frames_eq⟩
    · exact congrArg (· && !arrival.batch.hangUp) h.connected_eq
    · rw [← h.arrivals_eq, ha, List.map_cons]
      exact List.append_assoc _ _ _
  | @sent m d outbox =>
    rw [Mailbox.post_eq]
    refine ⟨h.phase_eq, h.connected_eq, h.frameLimit_eq, h.arrivals_eq, h.enter _, ?_, h.calls_eq,
      h.restarts_eq, h.frames_eq⟩
    have hsent : m.core.sent = l.core.sent ++ a.sent ++ d :: outbox := h.sent_eq
    change m.core.sent = l.core.sent ++ (a.sent ++ [d]) ++ outbox
    rw [hsent]
    simp
  | handled hq hc => exact h.handle hq
  | cycled hp hc hm => exact h.cycle hc hm
  | limited hl => exact h.ended
  | deserted hp hq hc => exact h.ended

variable {l : Loop (Watched κ) α ν} {es fs : List Event} {m : Moment (Watched κ) α ν}

theorem Moment.Course.accounted (h : l.now.Course es m) : Accounted l (l.account es) m := by
  induction h with
  | start => exact .start l
  | next _ hs ih =>
    rw [Loop.account_snoc]
    exact ih.next hs

/-- Nothing more happens to the core on a course from a session that is shutting down. -/
theorem Moment.Course.ended {b c : Moment (Watched κ) α ν} (h : l.now.Course es b)
    (hb : (l.account es).phase = .shuttingDown) (h' : b.Course fs c) :
    (l.account (es ++ fs)).phase = .shuttingDown ∧
      (l.account (es ++ fs)).calls = (l.account es).calls := by
  induction h' with
  | start =>
    rw [List.append_nil]
    exact ⟨hb, rfl⟩
  | @next fs m c e h' hs ih =>
    have hphase : m.loop.phase = .shuttingDown := (h.trans h').accounted.phase_eq.trans ih.1
    have he : e ≠ .cycled := by
      rintro rfl
      cases hs with
      | cycled hp _ _ => cases hphase.symm.trans hp
    obtain ⟨hend, hcalls⟩ := Account.after_of_shuttingDown ih.1 he
    rw [← List.append_assoc, Loop.account_snoc]
    exact ⟨hend, hcalls.trans ih.2⟩

theorem Moment.Course.controlled (h : l.now.Course es m) : l.Controlled es where
  permitted := by
    rintro before e after rfl
    obtain ⟨b, c, hb, hs⟩ := h.stride_at
    have hacc := hb.accounted
    cases hs with
    | arrived ha => trivial
    | sent => trivial
    | handled hq hc => trivial
    | cycled hp _ _ => exact l.permits_cycled (hacc.phase_eq.symm.trans hp)
    | limited hl =>
      obtain ⟨limit, hlimit, hle⟩ := hl
      exact ⟨limit, hacc.frameLimit_eq.symm.trans hlimit, hacc.frames_eq ▸ hle⟩
    | @deserted m hp hq hc =>
      refine ⟨hacc.phase_eq ▸ hp, hacc.connected_eq.symm.trans hc, ?_⟩
      have hhandled : _ ++ m.mailbox.queue = _ := hacc.handled_eq
      rwa [hq, List.append_nil] at hhandled
  ended := by
    rintro before after rfl hend
    obtain ⟨b, hb, hafter⟩ := h.split
    exact hb.ended hend hafter

/-- The count of restarts stays a word. -/
theorem Moment.Course.restarts_lt {a b : Moment (Watched κ) α ν} (h : a.Course es b)
    (ha : a.loop.totals.restarts < UInt32.size) : b.loop.totals.restarts < UInt32.size := by
  induction h with
  | start => exact ha
  | next _ hs ih =>
    cases hs with
    | @handled m c queue hq hc =>
      change m.totals.restarts + (if m.phase.restarts c = true then 1 else 0) < UInt32.size
      by_cases hr : m.phase.restarts c = true
      · rw [if_pos hr]
        exact Nat.not_le.mp fun hover => hc ⟨hr, hover⟩
      · rw [if_neg hr]
        exact ih
    | cycled hp hcycle hm =>
      obtain ⟨core, actions, t, -, -, rfl⟩ := Loop.step_eq_ok_iff.mp hm
      exact ih
    | _ => exact ih

/-- An event that is not completed is begun like any other. -/
theorem Accounted.controlled_snoc {l m : Loop (Watched κ) α ν} {es : List Event} {e : Event}
    {f : Fault} (h : Accounted l (l.account es) m.now) (hes : l.Controlled es)
    (hm : m.Stuck e f) : l.Controlled (es ++ [e]) := by
  have hphase : m.phase = (l.account es).phase := h.phase_eq
  cases hm with
  | cycled hp hf =>
    rw [hp] at hphase
    exact hes.snoc (by simp [← hphase]) (l.permits_cycled hphase.symm)
  | handled hq hc =>
    have hopen : m.phase ≠ .shuttingDown := (Phase.restarts_iff.mp hc.1).1
    exact hes.snoc (hphase ▸ hopen) trivial

/-- What a request asks of the core of a session that is shutting down. -/
def Request.calls : Request → List CoreCall
  | .step => [.cycle]
  | _ => []

/-- A session that is shutting down stays so, whatever is asked of it; only a frame that is asked
for by itself still reaches the core. -/
theorem Loop.serve_of_shuttingDown {l m : Loop (Watched κ) α ν} {r : Request}
    (hl : l.phase = .shuttingDown) (h : (l.serve r).outcome = .ok m) :
    m.phase = .shuttingDown ∧ m.core.calls = l.core.calls ++ r.calls ∧
      m.totals.restarts = l.totals.restarts := by
  cases r with
  | step =>
    obtain ⟨core, actions, t, hcycle, -, rfl⟩ := Loop.step_eq_ok_iff.mp h
    exact ⟨hl, (Watched.cycle_eq_ok hcycle).1, rfl⟩
  | command c =>
    obtain ⟨-, rfl⟩ := Loop.heed_eq_ok_iff.mp h
    obtain ⟨hcalls, -, hrestarts⟩ := Watched.handle_spec l c
    have hnone : callsFor l.phase c = [] := if_neg fun hc => hc.1 hl
    rw [hnone] at hcalls hrestarts
    refine ⟨?_, hcalls, hrestarts⟩
    change l.phase.after c = .shuttingDown
    rw [hl]
    rfl
  | post cs =>
    cases h
    exact ⟨hl, (List.append_nil _).symm, rfl⟩
  | hangUp =>
    cases h
    exact ⟨hl, (List.append_nil _).symm, rfl⟩
  | expect arrivals =>
    cases h
    exact ⟨hl, (List.append_nil _).symm, rfl⟩
  | run n =>
    change (l.run n).outcome = _ at h
    rw [Loop.outcome_run, (Loop.passes_of_shuttingDown hl n).1] at h
    cases h
    obtain ⟨sound, audio, heq⟩ := l.exists_concluded_eq
    rw [heq]
    exact ⟨hl, (List.append_nil _).symm, rfl⟩

theorem Loop.serveAll_of_shuttingDown {l m : Loop (Watched κ) α ν} {rs : List Request}
    (hl : l.phase = .shuttingDown) (h : (l.serveAll rs).outcome = .ok m) :
    m.phase = .shuttingDown ∧ m.core.calls = l.core.calls ++ rs.flatMap Request.calls ∧
      m.totals.restarts = l.totals.restarts := by
  induction rs generalizing l with
  | nil =>
    cases h
    exact ⟨hl, (List.append_nil _).symm, rfl⟩
  | cons r rs ih =>
    obtain ⟨l₁, hr, hrs⟩ := Logged.bind_outcome_eq_ok_iff.mp h
    obtain ⟨hphase, hcalls, hrestarts⟩ := Loop.serve_of_shuttingDown hl hr
    obtain ⟨hphase', hcalls', hrestarts'⟩ := ih hphase hrs
    refine ⟨hphase', ?_, hrestarts'.trans hrestarts⟩
    rw [hcalls', hcalls, List.flatMap_cons, List.append_assoc]

/-- The control of a session over whole runs, from whatever state and with whatever arrivals. The
events of a run say what it does: commands are handled in the order in which they came in, the
core works on a frame only while they leave the session running, and it is reset once for each
restart. All restarts are counted, in a word. A run that breaks off does so in its last event: a
frame, or the one restart for which the word has no room. After a run has come to its end no
request changes the state, and no later run asks anything of the core. -/
theorem Loop.run_controlled (l : Loop (Watched κ) α ν) (n : Nat) :
    l.Controlled (l.events n) ∧
      (match (l.run n).outcome with
        | .ok l' =>
          Accounted l (l.account (l.events n)) l'.now ∧
            (l.totals.restarts < UInt32.size → l'.totals.restarts < UInt32.size) ∧
            ∃ m : Loop (Watched κ) α ν, l.now.Course (l.events n) m.now ∧ l' = m.concluded
        | .error f => ∃ (es : List Event) (e : Event) (m : Loop (Watched κ) α ν),
          l.events n = es ++ [e] ∧ Accounted l (l.account es) m.now ∧
            l.now.Course es m.now ∧ m.Stuck e f) ∧
      ∀ l', (l.run n).outcome = .ok l' → l'.phase = .shuttingDown →
        ∀ rs l'', (l'.serveAll rs).outcome = .ok l'' →
          l''.phase = .shuttingDown ∧ l''.totals.restarts = l'.totals.restarts ∧
            l''.core.calls = l'.core.calls ++ rs.flatMap Request.calls := by
  obtain ⟨es, m, hcourse, hend⟩ := l.passes_course n
  have hacc := hcourse.accounted
  have hcontrolled := hcourse.controlled
  rw [outcome_run]
  obtain ⟨hm, rfl⟩ | ⟨e, -, ⟨f, hf, hn⟩, hes⟩ := hend
  · rw [hm]
    have hkept := hacc.concluded
    have hcount : m.concluded.totals.restarts = m.totals.restarts :=
      hkept.restarts_eq.trans hacc.restarts_eq.symm
    refine ⟨hcontrolled, ⟨hkept, fun hword => ?_, m, hcourse, rfl⟩,
      fun l' _ hphase rs l'' hrs => ?_⟩
    · rw [hcount]
      exact hcourse.restarts_lt hword
    · obtain ⟨hphase', hcalls, hrestarts⟩ := serveAll_of_shuttingDown hphase hrs
      exact ⟨hphase', hrestarts, hcalls⟩
  · rw [hn, hes]
    refine ⟨hacc.controlled_snoc hcontrolled hf, ⟨es, e, m, rfl, hacc, hcourse, hf⟩, ?_⟩
    intro l' hl'
    cases hl'

/-- A session whose core opens the menu in its first frame. While it waits, others choose a
restart, send a pause and leave. -/
def busySession : Loop (Watched ScriptedCore) SoundRecording PictureRecording where
  core := { core := { script := [[.send .openMenu], [.audio [1]]], size := (160, 144) } }
  picture := none
  mailbox := { arrivals := [.whileWaiting ⟨[.choose .restart, .pause], true⟩] }

theorem Loop.run_controlled_busy :
    ∃ l' : Loop (Watched ScriptedCore) SoundRecording PictureRecording,
      (busySession.run 9).outcome = .ok l' ∧ l'.phase = .shuttingDown ∧
      l'.core.calls = [.cycle, .reset] ∧ l'.totals.restarts = 1 ∧
      busySession.events 9 = [.cycled, .sent .openMenu, .handled .openMenu,
        .arrived ⟨[.choose .restart, .pause], true⟩, .handled (.choose .restart), .handled .pause,
        .deserted] ∧
      Accounted busySession (busySession.account (busySession.events 9)) l'.now ∧
      busySession.Controlled (busySession.events 9) ∧
      ∀ rs l'', (l'.serveAll rs).outcome = .ok l'' → l''.phase = .shuttingDown := by
  have hresult : (busySession.run 9).outcome.toOption.map
      (fun l => (l.phase, l.core.calls, l.totals.restarts)) =
        some (.shuttingDown, [.cycle, .reset], 1) := by
    decide +kernel
  obtain ⟨l', hrun, hresult⟩ := exists_of_toOption_map hresult
  obtain ⟨hphase, hcalls, hrestarts⟩ : l'.phase = .shuttingDown ∧
      l'.core.calls = [.cycle, .reset] ∧ l'.totals.restarts = 1 := by
    simpa using hresult
  obtain ⟨hcontrolled, hend, hlater⟩ := Loop.run_controlled busySession 9
  rw [hrun] at hend
  exact ⟨l', hrun, hphase, hcalls, hrestarts, by decide +kernel, hend.1, hcontrolled,
    fun rs l'' hrs => (hlater l' hrun hphase rs l'' hrs).1⟩

end EmulatorOutput.Session
