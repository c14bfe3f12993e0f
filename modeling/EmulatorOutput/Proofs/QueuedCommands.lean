import EmulatorOutput.Proofs.CoreCycles
import EmulatorOutput.Proofs.IndependentSinks
import EmulatorOutput.Proofs.SessionControl

/-!
# Queued commands

Runs of a session that gets no more commands than those that are queued when it begins. The first
look into the mailbox handles them all, if they do not ask for more restarts than can be counted.
If they leave the session running it works on frames up to its limit, as it does not mind that
nobody is left; else it is over at once, as nobody is left who could resume it.
-/

namespace EmulatorOutput.Session

/-- A command with which a session ends. -/
def Command.ends (c : Command) : Bool := c = .shutdown || c = .choose .shutdown

theorem Phase.after_eq_shuttingDown_iff {p : Phase} {c : Command} (hp : p ≠ .shuttingDown) :
    p.after c = .shuttingDown ↔ c.ends = true := by
  cases p with
  | shuttingDown => exact absurd rfl hp
  | _ =>
    cases c with
    | choose choice => cases choice <;> decide
    | _ => decide

/-- The commands that ask for a restart before one ends the session. -/
def restartsAsked (cs : List Command) : Nat :=
  (cs.takeWhile fun c => !c.ends).count (.choose .restart)

theorem restartsAsked_cons (c : Command) (cs : List Command) :
    restartsAsked (c :: cs) =
      if c.ends then 0 else (if c = .choose .restart then 1 else 0) + restartsAsked cs := by
  unfold restartsAsked
  cases hc : c.ends with
  | true => simp [hc]
  | false => simp [hc, List.count_cons, Nat.add_comm]

/-- The restarts that commands bring about from a state on. -/
def Phase.restartsFor (p : Phase) (cs : List Command) : Nat :=
  if p = .shuttingDown then 0 else restartsAsked cs

theorem Phase.restartsFor_cons (p : Phase) (c : Command) (cs : List Command) :
    p.restartsFor (c :: cs) = (if p.restarts c then 1 else 0) + (p.after c).restartsFor cs := by
  by_cases hp : p = .shuttingDown
  · have hnone : ¬ p.restarts c = true := fun h => (restarts_iff.mp h).1 hp
    have hover : p.after c = .shuttingDown := by rw [hp]; rfl
    rw [if_neg hnone, hover, hp]
    rfl
  · have hends := after_eq_shuttingDown_iff (c := c) hp
    have hrestart : p.restarts c = true ↔ c = .choose .restart := by simp [restarts_iff, hp]
    rw [restartsFor, restartsFor, if_neg hp, restartsAsked_cons]
    cases hc : c.ends with
    | true =>
      have hother : ¬ c = .choose .restart := by
        rintro rfl
        cases hc
      rw [if_pos rfl, if_pos (hends.mpr hc), if_neg (mt hrestart.mp hother)]
    | false =>
      have hopen : ¬ p.after c = .shuttingDown := fun h =>
        Bool.false_ne_true (hc.symm.trans (hends.mp h))
      rw [if_neg Bool.false_ne_true, if_neg hopen, if_congr hrestart rfl rfl]

/-- The mailbox with commands in it when the last sender has left. -/
def Mailbox.left (cs : List Command) : Mailbox := { queue := cs, connected := false }

theorem Mailbox.atLook_left (cs : List Command) : (Mailbox.left cs).atLook = .left cs := rfl

/-! ## Cores that send nothing -/

namespace Core

variable {κ : Type} [Core κ]

/-- The core sends no command, whatever state it comes to. -/
def Silent (k₀ : κ) : Prop :=
  ∀ k k' : κ, ∀ wanted actions, Reached k₀ k → Core.cycle k wanted = .ok (k', actions) →
    commandsOf actions = []

theorem Silent.of_reached {k₀ k : κ} (h : Silent k₀) (hk : Reached k₀ k) : Silent k :=
  fun j j' wanted actions hj hc => h j j' wanted actions (hk.trans hj) hc

end Core

namespace Watched

variable {κ : Type} [Core κ]

theorem core_cycle {w w' : Watched κ} {wanted : Bool} {actions : List Action}
    (h : Core.cycle w wanted = .ok (w', actions)) :
    Core.cycle w.core wanted = .ok (w'.core, actions) := by
  change (Core.cycle w.core wanted).bind _ = _ at h
  cases hcycle : Core.cycle w.core wanted with
  | error f =>
    rw [hcycle] at h
    cases h
  | ok r =>
    rw [hcycle] at h
    cases h
    rfl

theorem reached_core {k : κ} {w : Watched κ} (h : Core.Reached { core := k } w) :
    Core.Reached k w.core := by
  induction h with
  | start => exact .start
  | cycled _ hc ih => exact ih.cycled (core_cycle hc)
  | reset _ ih => exact ih.reset

theorem silent {k : κ} (h : Core.Silent k) : Core.Silent ({ core := k } : Watched κ) :=
  fun _ _ _ _ hw hc => h _ _ _ _ (reached_core hw) (core_cycle hc)

end Watched

namespace Loop

variable {κ α ν : Type} [Core κ]

/-! ## The look at the queue -/

/-- Handles commands one after another. -/
def handleAll (l : Loop κ α ν) (cs : List Command) : Loop κ α ν :=
  cs.foldl (fun l c => (l.handle c).1) l

theorem phase_handleAll (l : Loop κ α ν) (cs : List Command) :
    (l.handleAll cs).phase = cs.foldl Phase.after l.phase := by
  induction cs generalizing l with
  | nil => rfl
  | cons c cs ih => exact ih (l.handle c).1

/-- Handling commands changes nothing but the control, and may reset the core. -/
theorem exists_handleAll_eq (l : Loop κ α ν) (cs : List Command) :
    ∃ core phase restarts, l.handleAll cs = l.steer core l.mailbox phase restarts ∧
      Core.Reached l.core core := by
  induction cs generalizing l with
  | nil => exact ⟨l.core, l.phase, l.totals.restarts, rfl, .start⟩
  | cons c cs ih =>
    obtain ⟨core, phase, restarts, heq, hreached⟩ := ih (l.handle c).1
    refine ⟨core, phase, restarts, heq, ?_⟩
    have hcore : Core.Reached l.core (l.handle c).1.core := by
      change Core.Reached l.core (if _ then _ else _)
      split
      · exact .reset .start
      · exact .start
    exact hcore.trans hreached

/-- A running session with nothing to read goes on as it is. -/
theorem poll_emptied {l : Loop κ α ν} (h : l.mailbox = .left []) (hp : l.phase = .running) :
    l.poll.outcome = .ok l := by
  have hlook : l.mailbox.atLook = .left [] := by rw [h, Mailbox.atLook_left]
  have hqueue : l.mailbox.atLook.queue = [] := congrArg Mailbox.queue hlook
  have hconnected : l.mailbox.atLook.connected = false := congrArg Mailbox.connected hlook
  rw [(poll_of_closed hqueue hconnected hp).1, hlook, ← h]
  rfl

/-- The first look reads all there is, or breaks off at the first restart that is one too many. -/
theorem poll_left {l : Loop κ α ν} {cs : List Command} (h : l.mailbox = .left cs)
    (hword : l.totals.restarts < UInt32.size) :
    let m := (l.receiving (.left [])).handleAll cs
    l.poll.outcome =
      if l.totals.restarts + l.phase.restartsFor cs < UInt32.size then
        .ok (if m.phase = .running then m else m.ended)
      else .error .addOverflow := by
  intro m
  have hlook : l.mailbox.atLook = .left cs := by rw [h, Mailbox.atLook_left]
  induction cs generalizing l with
  | nil =>
    have hqueue : l.mailbox.atLook.queue = [] := congrArg Mailbox.queue hlook
    have hconnected : l.mailbox.atLook.connected = false := congrArg Mailbox.connected hlook
    have hnone : l.phase.restartsFor [] = 0 := ite_self 0
    rw [hnone, Nat.add_zero, if_pos hword]
    by_cases hp : l.phase = .running
    · rw [(poll_of_closed hqueue hconnected hp).1, hlook]
      exact congrArg Except.ok (if_pos hp).symm
    · rw [(poll_of_deserted hqueue hconnected hp).1, hlook]
      exact congrArg Except.ok (if_neg hp).symm
  | cons c cs ih =>
    have hqueue : l.mailbox.atLook.queue = c :: cs := congrArg Mailbox.queue hlook
    rw [Phase.restartsFor_cons, ← Nat.add_assoc]
    by_cases hc : l.Overcounts c
    · obtain ⟨hr, hover⟩ := hc
      rw [(poll_of_overcounts hqueue ⟨hr, hover⟩).1, if_pos hr, if_neg (by omega)]
    · have hword' : l.totals.restarts + (if l.phase.restarts c then 1 else 0) < UInt32.size := by
        split
        · rename_i hr
          exact Nat.not_le.mp fun hover => hc ⟨hr, hover⟩
        · exact hword
      rw [(poll_of_command hqueue hc).1, hlook]
      exact ih rfl hword' rfl

variable [SoundSink α] [PictureSink ν]

/-! ## Frames -/

/-- So many frames, one after another. -/
def steps : Nat → Loop κ α ν → Logged Fault (Loop κ α ν)
  | 0, l => pure l
  | n + 1, l => do
    let l ← l.step
    steps n l

theorem outcome_steps_succ (l : Loop κ α ν) (n : Nat) :
    (l.steps (n + 1)).outcome = l.step.outcome.bind fun m => (m.steps n).outcome :=
  Logged.outcome_bind _ _

/-- A frame of a core that sends nothing leaves an empty mailbox empty. -/
theorem step_silent {l m : Loop κ α ν} (hsilent : Core.Silent l.core)
    (hmailbox : l.mailbox = .left []) (hm : l.step.outcome = .ok m) :
    m.mailbox = .left [] ∧ m.phase = l.phase ∧ m.frameLimit = l.frameLimit ∧
      m.totals.frames = l.totals.frames + 1 ∧ Core.Silent m.core := by
  obtain ⟨core, actions, t, hc, -, rfl⟩ := step_eq_ok_iff.mp hm
  have hsent : commandsOf actions = [] := hsilent _ _ _ _ .start hc
  have hmailbox' := mailbox_of_step hc hm
  rw [hsent, hmailbox] at hmailbox'
  exact ⟨hmailbox', rfl, rfl, rfl, hsilent.of_reached (.cycled .start hc)⟩

/-- A pass of a session that its commands leave running is a frame. -/
theorem passes_of_running {l p : Loop κ α ν} (hl : l.phase ≠ .shuttingDown)
    (hpoll : l.poll.outcome = .ok p) (hp : p.phase = .running) (n : Nat) :
    (l.passes (n + 1)).outcome =
      p.step.outcome.bind fun q => (q.checkLimit.1.passes n).outcome := by
  have hact : p.act.outcome = p.step.outcome := by rw [(act_of_running hp).1]
  cases hstep : p.step.outcome with
  | error f =>
    have hpass : l.pass.outcome = .error f := by
      rw [outcome_pass, hpoll]
      change p.act.outcome.map _ = _
      rw [hact, hstep]
      rfl
    exact (passes_succ_of_error hl hpass n).1
  | ok q =>
    have hpass := (pass_of_act hpoll (hact.trans hstep)).1
    exact (passes_succ_of_ok hl hpass n).1

/-- Passes of a session that nobody sends to are frames up to its limit. -/
theorem passes_left {l p : Loop κ α ν} {k n : Nat} (hl : l.phase ≠ .shuttingDown)
    (hpoll : l.poll.outcome = .ok p) (hp : p.phase = .running) (hmailbox : p.mailbox = .left [])
    (hsilent : Core.Silent p.core) (hlimit : p.frameLimit = some (p.totals.frames + (k + 1)))
    (hn : k < n) : (l.passes n).outcome = (p.steps (k + 1)).outcome.map ended := by
  -- each pass is one frame, so the passes left and the frames left go down together
  induction n generalizing l p k with
  | zero => exact absurd hn (Nat.not_lt_zero k)
  | succ n ih =>
    rw [passes_of_running hl hpoll hp, outcome_steps_succ]
    cases hstep : p.step.outcome with
    | error f => rfl
    | ok q =>
      obtain ⟨hmailbox', hphase, hlimit', hframes, hsilent'⟩ :=
        step_silent hsilent hmailbox hstep
      change (q.checkLimit.1.passes n).outcome = _
      cases k with
      | zero =>
        have hat : q.AtLimit := ⟨_, hlimit'.trans hlimit, by omega⟩
        rw [(checkLimit_of_atLimit hat).1, (passes_of_shuttingDown rfl n).1]
        rfl
      | succ k =>
        have hrunning : q.phase = .running := hphase.trans hp
        have hbelow : ¬ q.AtLimit := by
          rintro ⟨limit, hq, hle⟩
          cases (hlimit'.trans hlimit).symm.trans hq
          omega
        rw [(checkLimit_of_not_atLimit hbelow).1]
        refine ih (by simp [hrunning]) (poll_emptied hmailbox' hrunning) hrunning hmailbox'
          hsilent' ?_ (by omega)
        rw [hlimit', hlimit, hframes]
        congr 1
        omega

/-- A new session with commands queued for it, and nobody left to send more. -/
structure Queued (l : Loop κ α ν) (core : κ) (cs : List Command) (limit : Nat) : Prop where
  core_eq : l.core = core
  phase_eq : l.phase = .running
  mailbox_eq : l.mailbox = .left cs
  frameLimit_eq : l.frameLimit = some limit
  frames_eq : l.totals.frames = 0
  restarts_eq : l.totals.restarts = 0

omit [Core κ] [SoundSink α] [PictureSink ν] in
theorem Queued.fitted {l : Loop κ α ν} {core : κ} {cs : List Command} {limit : Nat}
    (h : l.Queued core cs limit) (sound : Option (Except Failure α)) :
    (l.fitted sound).Queued core cs limit := by
  obtain ⟨link, heq⟩ := l.exists_fitted_eq sound
  rw [heq]
  exact ⟨h.core_eq, h.phase_eq, h.mailbox_eq, h.frameLimit_eq, h.frames_eq, h.restarts_eq⟩

section Runs

variable {l : Loop κ α ν} {core : κ} {cs : List Command} {limit n : Nat}

omit [SoundSink α] [PictureSink ν] in
theorem Queued.phase_handleAll (h : l.Queued core cs limit) :
    ((l.receiving (.left [])).handleAll cs).phase = cs.foldl Phase.after .running := by
  rw [Loop.phase_handleAll]
  exact congrArg (cs.foldl Phase.after) h.phase_eq

omit [SoundSink α] [PictureSink ν] in
/-- Such a session has no restarts on its count yet. -/
theorem Queued.poll (h : l.Queued core cs limit) :
    let m := (l.receiving (.left [])).handleAll cs
    l.poll.outcome =
      if restartsAsked cs < UInt32.size then .ok (if m.phase = .running then m else m.ended)
      else .error .addOverflow := by
  have hword : l.totals.restarts < UInt32.size := by
    rw [h.restarts_eq]
    decide
  have hpoll := poll_left h.mailbox_eq hword
  have hasked : l.phase.restartsFor cs = restartsAsked cs := by
    rw [h.phase_eq]
    exact if_neg Phase.noConfusion
  rw [h.restarts_eq, hasked, Nat.zero_add] at hpoll
  exact hpoll

/-- The commands are handled, and if they leave the session running it works on frames up to its
limit. More passes change nothing. -/
theorem Queued.passes (h : l.Queued core cs limit) (hsilent : Core.Silent core)
    (hlimit : 1 ≤ limit) (hn : limit ≤ n) (hfits : restartsAsked cs < UInt32.size) :
    (l.passes n).outcome =
      (((l.receiving (.left [])).handleAll cs).steps
        (if cs.foldl Phase.after .running = .running then limit else 0)).outcome.map ended := by
  have hopen : l.phase ≠ .shuttingDown := by simp [h.phase_eq]
  have hpoll := h.poll
  have hphase := h.phase_handleAll
  obtain ⟨core', phase, restarts, heq, hreached⟩ :=
    (l.receiving (.left [])).exists_handleAll_eq cs
  have hsilent' : Core.Silent core' := (h.core_eq ▸ hsilent).of_reached hreached
  dsimp only at hpoll
  rw [if_pos hfits, hphase, heq] at hpoll
  rw [heq] at hphase ⊢
  by_cases hrunning : cs.foldl Phase.after .running = .running
  · obtain ⟨k, rfl⟩ : ∃ k, limit = k + 1 := ⟨limit - 1, by omega⟩
    rw [if_pos hrunning] at hpoll ⊢
    refine passes_left hopen hpoll (hphase.trans hrunning) rfl hsilent' ?_ hn
    change l.frameLimit = some (l.totals.frames + (k + 1))
    rw [h.frameLimit_eq, h.frames_eq, Nat.zero_add]
  · obtain ⟨n, rfl⟩ : ∃ j, n = j + 1 := ⟨n - 1, by omega⟩
    rw [if_neg hrunning] at hpoll ⊢
    generalize hm : ((l.receiving (.left [])).steer core' _ phase restarts).ended = m at hpoll
    have hover : m.phase = .shuttingDown := by rw [← hm]; rfl
    have hbelow : ¬ m.AtLimit := by
      rw [← hm]
      rintro ⟨limit', hlimit', hle⟩
      cases h.frameLimit_eq.symm.trans hlimit'
      change limit ≤ l.totals.frames at hle
      rw [h.frames_eq] at hle
      omega
    have hact : m.act.outcome = .ok m := by
      rw [(act_of_shuttingDown hover).1]
      rfl
    rw [(passes_succ_of_ok hopen (pass_of_act hpoll hact).1 n).1,
      (checkLimit_of_not_atLimit hbelow).1, (passes_of_shuttingDown hover n).1, ← hm]
    rfl

theorem Queued.outcome_run (h : l.Queued core cs limit) (hsilent : Core.Silent core)
    (hlimit : 1 ≤ limit) (hn : limit ≤ n) (hfits : restartsAsked cs < UInt32.size) :
    (l.run n).outcome =
      (((l.receiving (.left [])).handleAll cs).steps
        (if cs.foldl Phase.after .running = .running then limit else 0)).outcome.map
          fun m => m.ended.silenced := by
  rw [Loop.outcome_run, h.passes hsilent hlimit hn hfits]
  cases (((l.receiving (.left [])).handleAll cs).steps _).outcome with
  | error f => rfl
  | ok m => exact congrArg Except.ok (if_pos rfl)

end Runs

/-! ## What is asked of the core -/

end Loop

end EmulatorOutput.Session
