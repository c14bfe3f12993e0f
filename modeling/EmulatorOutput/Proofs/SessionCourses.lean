import EmulatorOutput.Proofs.SessionEvents

/-!
# Courses of sessions

`Moment.Stride` is all that can happen next in a session, and a `Moment.Course` is a sequence of
strides with its events. The events of a run are such a course, to the end of the run or to the
event in which it breaks off.

Sessions whose control stands alike go through the same events, for as long as the frames of none
of them break off, and break off at the same restart if neither can count it. What else they have
in common is a relation; if it is kept by the control and by every frame, it is kept along the
way. The relation may be equality, so that every run has a course.
-/

namespace EmulatorOutput.Session

/-- A list that ends in `x` is cut behind `x` or before it. -/
theorem append_eq_snoc {β : Type} {xs ys zs : List β} {x : β} (h : xs ++ ys = zs ++ [x]) :
    (ys = [] ∧ xs = zs ++ [x]) ∨ ∃ rest, ys = rest ++ [x] ∧ xs ++ rest = zs := by
  obtain rfl | ⟨rest, y, rfl⟩ := List.eq_nil_or_concat ys
  · exact .inl ⟨rfl, (List.append_nil xs).symm.trans h⟩
  · rw [List.concat_eq_append, ← List.append_assoc] at h
    obtain ⟨hinit, hlast⟩ := List.append_inj' h rfl
    cases hlast
    exact .inr ⟨rest, List.concat_eq_append, hinit⟩

variable {κ κ' α α' ν ν' : Type}

/-- A session at a moment, with the commands that its core has yet to send in its cycle. -/
structure Moment (κ α ν : Type) where
  loop : Loop κ α ν
  outbox : List Command := []

/-- The session between two cycles of its core. -/
def Loop.now (l : Loop κ α ν) : Moment κ α ν := { loop := l }

@[simp] theorem Loop.loop_now (l : Loop κ α ν) : l.now.loop = l := rfl

@[simp] theorem Loop.outbox_now (l : Loop κ α ν) : l.now.outbox = [] := rfl

namespace Moment

variable [Core κ] [SoundSink α] [PictureSink ν]

/-- All that can happen next in a session. While a core sends its commands others may send
theirs, but nothing is read. -/
inductive Stride : Moment κ α ν → Event → Moment κ α ν → Prop where
  | arrived {l : Loop κ α ν} {outbox : List Command} {a : Arrival} {arrivals : List Arrival}
      (ha : l.mailbox.arrivals = a :: arrivals) :
      Stride ⟨l, outbox⟩ (.arrived a.batch)
        ⟨l.receiving (Mailbox.deliver { l.mailbox with arrivals } a.batch), outbox⟩
  | sent {l : Loop κ α ν} {c : Command} {outbox : List Command} :
      Stride ⟨l, c :: outbox⟩ (.sent c) ⟨l.receiving (l.mailbox.post [c]), outbox⟩
  | handled {l : Loop κ α ν} {c : Command} {queue : List Command}
      (hq : l.mailbox.queue = c :: queue) (hc : ¬ l.Overcounts c) :
      Stride l.now (.handled c) (Loop.handle (l.receiving { l.mailbox with queue }) c).1.now
  | cycled {l m : Loop κ α ν} {core : κ} {actions : List Action} (hp : l.phase = .running)
      (hc : Core.cycle l.core l.soundWanted = .ok (core, actions)) (hm : l.step.outcome = .ok m) :
      Stride l.now .cycled ⟨m.receiving l.mailbox, commandsOf actions⟩
  | limited {l : Loop κ α ν} (hl : l.AtLimit) : Stride l.now .limited l.ended.now
  | deserted {l : Loop κ α ν} (hp : l.phase ≠ .running) (hq : l.mailbox.queue = [])
      (hc : l.mailbox.connected = false) : Stride l.now .deserted l.ended.now

/-- What happens from one moment to another. -/
inductive Course (a : Moment κ α ν) : List Event → Moment κ α ν → Prop where
  | start : Course a [] a
  | next {es : List Event} {b c : Moment κ α ν} {e : Event} (h : Course a es b)
      (hs : b.Stride e c) : Course a (es ++ [e]) c

variable {a b c d : Moment κ α ν} {es fs : List Event}

theorem Course.trans (h : a.Course es b) (h' : b.Course fs c) : a.Course (es ++ fs) c := by
  induction h' with
  | start => rwa [List.append_nil]
  | next _ hs ih =>
    rw [← List.append_assoc]
    exact ih.next hs

/-- A course passes through every place between two of its events. -/
theorem Course.split (h : a.Course (es ++ fs) c) : ∃ b, a.Course es b ∧ b.Course fs c := by
  generalize hall : es ++ fs = all at h
  induction h generalizing fs with
  | start =>
    obtain ⟨rfl, rfl⟩ := List.append_eq_nil_iff.mp hall
    exact ⟨a, .start, .start⟩
  | @next gs b c e h hs ih =>
    obtain ⟨rfl, rfl⟩ | ⟨rest, rfl, hinit⟩ := append_eq_snoc hall
    · exact ⟨c, h.next hs, .start⟩
    · obtain ⟨d, hd, hdb⟩ := ih hinit
      exact ⟨d, hd, hdb.next hs⟩

theorem Course.stride {e : Event} (h : a.Course [e] b) : a.Stride e b := by
  generalize hes : [e] = es at h
  cases h with
  | start => cases hes
  | @next es c b e' h hs =>
    have hsnoc : [] ++ [e] = es ++ [e'] := hes
    obtain ⟨rfl, hlast⟩ := List.append_inj' hsnoc rfl
    cases hlast
    generalize hnil : ([] : List Event) = fs at h
    cases h with
    | start => exact hs
    | next _ _ => exact absurd hnil.symm (by simp)

/-- The stride of an event of a course. -/
theorem Course.stride_at {e : Event} (h : a.Course (es ++ e :: fs) d) :
    ∃ b c, a.Course es b ∧ b.Stride e c := by
  obtain ⟨b, hb, hrest⟩ := h.split
  have hfirst : b.Course ([e] ++ fs) d := hrest
  obtain ⟨c, hc, -⟩ := hfirst.split
  exact ⟨b, c, hb, hc.stride⟩

end Moment

namespace Loop

/-- The sessions agree on what their control depends on, and their cores are related. -/
structure SameControl (E : κ → κ' → Prop) (l : Loop κ α ν) (l' : Loop κ' α' ν') : Prop where
  core_rel : E l.core l'.core
  mailbox_eq : l'.mailbox = l.mailbox
  frameLimit_eq : l'.frameLimit = l.frameLimit
  phase_eq : l'.phase = l.phase
  frames_eq : l'.totals.frames = l.totals.frames
  restarts_eq : l'.totals.restarts = l.totals.restarts

theorem SameControl.steer {E : κ → κ' → Prop} {l : Loop κ α ν} {l' : Loop κ' α' ν'}
    (h : l.SameControl E l') {core : κ} {core' : κ'} (hcore : E core core') (mailbox : Mailbox)
    (phase : Phase) (restarts : Nat) :
    (l.steer core mailbox phase restarts).SameControl E (l'.steer core' mailbox phase restarts) :=
  ⟨hcore, rfl, h.frameLimit_eq, rfl, h.frames_eq, rfl⟩

theorem SameControl.overcounts_iff {E : κ → κ' → Prop} {l : Loop κ α ν} {l' : Loop κ' α' ν'}
    (h : l.SameControl E l') (c : Command) : l'.Overcounts c ↔ l.Overcounts c := by
  rw [Overcounts, Overcounts, h.phase_eq, h.restarts_eq]

end Loop

variable [Core κ] [Core κ'] [SoundSink α] [SoundSink α'] [PictureSink ν] [PictureSink ν']

/-- A relation of sessions that is kept by their control and by their frames. -/
structure Steady (E : κ → κ' → Prop) (R : Loop κ α ν → Loop κ' α' ν' → Prop) : Prop where
  control {l l'} : R l l' → l.SameControl E l'
  steer {l l'} (h : R l l') {core : κ} {core' : κ'} (hcore : E core core') (mailbox : Mailbox)
    (phase : Phase) (restarts : Nat) :
    R (l.steer core mailbox phase restarts) (l'.steer core' mailbox phase restarts)
  reset {k k'} : E k k' → E (Core.reset k) (Core.reset k')
  actions_eq {l l' core core' actions actions'} : R l l' →
    Core.cycle l.core l.soundWanted = .ok (core, actions) →
    Core.cycle l'.core l'.soundWanted = .ok (core', actions') → actions' = actions
  step {l l' m m'} : R l l' → l.step.outcome = .ok m → l'.step.outcome = .ok m' → R m m'
  silenced {l l'} : R l l' → R l.silenced l'.silenced

/-- Two sessions go through the same events, and stay related. -/
inductive Lockstep (R : Loop κ α ν → Loop κ' α' ν' → Prop) (a : Moment κ α ν)
    (a' : Moment κ' α' ν') : List Event → Moment κ α ν → Moment κ' α' ν' → Prop where
  | start (h : R a.loop a'.loop) (ho : a'.outbox = a.outbox) : Lockstep R a a' [] a a'
  | next {es : List Event} {b c : Moment κ α ν} {b' c' : Moment κ' α' ν'} {e : Event}
      (h : Lockstep R a a' es b b') (hs : b.Stride e c) (hs' : b'.Stride e c')
      (hr : R c.loop c'.loop) (ho : c'.outbox = c.outbox) : Lockstep R a a' (es ++ [e]) c c'

namespace Lockstep

variable {R : Loop κ α ν → Loop κ' α' ν' → Prop} {a b c : Moment κ α ν}
  {a' b' c' : Moment κ' α' ν'} {es fs : List Event}

theorem left (h : Lockstep R a a' es b b') : a.Course es b := by
  induction h with
  | start => exact .start
  | next _ hs _ _ _ ih => exact ih.next hs

theorem right (h : Lockstep R a a' es b b') : a'.Course es b' := by
  induction h with
  | start => exact .start
  | next _ _ hs' _ _ ih => exact ih.next hs'

theorem related (h : Lockstep R a a' es b b') : R b.loop b'.loop := by
  cases h with
  | start h _ => exact h
  | next _ _ _ hr _ => exact hr

theorem trans (h : Lockstep R a a' es b b') (h' : Lockstep R b b' fs c c') :
    Lockstep R a a' (es ++ fs) c c' := by
  induction h' with
  | start => rwa [List.append_nil]
  | next _ hs hs' hr ho ih =>
    rw [← List.append_assoc]
    exact ih.next hs hs' hr ho

theorem single {e : Event} (h : R a.loop a'.loop) (ho : a'.outbox = a.outbox) (hs : a.Stride e b)
    (hs' : a'.Stride e b') (hr : R b.loop b'.loop) (ho' : b'.outbox = b.outbox) :
    Lockstep R a a' [e] b b' :=
  (Lockstep.start h ho).next hs hs' hr ho'

end Lockstep

/-- What a part of a pass comes to in two sessions: by the same events to related sessions, or both
break off at a restart, which neither can count. -/
inductive InStep (R : Loop κ α ν → Loop κ' α' ν' → Prop) (l : Loop κ α ν) (l' : Loop κ' α' ν')
    (es : List Event) : Except Fault (Loop κ α ν) → Except Fault (Loop κ' α' ν') → Prop where
  | ok {m : Loop κ α ν} {m' : Loop κ' α' ν'} (h : Lockstep R l.now l'.now es m.now m'.now) :
      InStep R l l' es (.ok m) (.ok m')
  | halted {before : List Event} {c : Command} {m : Loop κ α ν} {m' : Loop κ' α' ν'}
      (hes : es = before ++ [.handled c]) (h : Lockstep R l.now l'.now before m.now m'.now)
      (hm : m.Stuck (.handled c) .addOverflow) (hframes : m.totals.frames = l.totals.frames) :
      InStep R l l' es (.error .addOverflow) (.error .addOverflow)

theorem InStep.after {R : Loop κ α ν → Loop κ' α' ν' → Prop} {l k : Loop κ α ν}
    {l' k' : Loop κ' α' ν'} {es fs : List Event} {x : Except Fault (Loop κ α ν)}
    {x' : Except Fault (Loop κ' α' ν')} (h : InStep R k k' fs x x')
    (hk : Lockstep R l.now l'.now es k.now k'.now) (hframes : k.totals.frames = l.totals.frames) :
    InStep R l l' (es ++ fs) x x' := by
  cases h with
  | ok h => exact .ok (hk.trans h)
  | halted hes h hm hframes' =>
    exact .halted (by rw [hes, List.append_assoc]) (hk.trans h) hm (hframes'.trans hframes)

/-- A frame breaks off in one of two runs, or both break off at a restart, which neither can
count. -/
def BreakOffAlike (n : Nat) (l : Loop κ α ν) (l' : Loop κ' α' ν') (es : List Event)
    (m : Loop κ α ν) (m' : Loop κ' α' ν') : Prop :=
  (∃ c, l.BreaksOff n es (.handled c) m ∧ l'.BreaksOff n es (.handled c) m') ∨
    l.BreaksOff n es .cycled m ∨ l'.BreaksOff n es .cycled m'

theorem BreakOffAlike.broken {n : Nat} {l m : Loop κ α ν} {l' m' : Loop κ' α' ν'}
    {es : List Event} (h : BreakOffAlike n l l' es m m') :
    (∃ f, (l.passes n).outcome = .error f) ∨ ∃ f, (l'.passes n).outcome = .error f := by
  obtain ⟨c, hm, -⟩ | hm | hm' := h
  · exact .inl (hm.outcome_eq.imp fun f hf => hf.2)
  · exact .inl (hm.outcome_eq.imp fun f hf => hf.2)
  · exact .inr (hm'.outcome_eq.imp fun f hf => hf.2)

/-- Runs of both go through the same events and stay related, until they are over or break off. -/
def RunAlike (R : Loop κ α ν → Loop κ' α' ν' → Prop) (n : Nat) (l : Loop κ α ν)
    (l' : Loop κ' α' ν') : Prop :=
  ∃ es m m', Lockstep R l.now l'.now es m.now m'.now ∧
    (((l.run n).outcome = .ok m.concluded ∧ (l'.run n).outcome = .ok m'.concluded ∧
        R m.concluded m'.concluded ∧ l.events n = es ∧ l'.events n = es) ∨
      BreakOffAlike n l l' es m m')

namespace Steady

variable {E : κ → κ' → Prop} {R : Loop κ α ν → Loop κ' α' ν' → Prop} (H : Steady E R)
  {l : Loop κ α ν} {l' : Loop κ' α' ν'}

include H

theorem keep (h : R l l') {core : κ} {core' : κ'} {mailbox mailbox' : Mailbox}
    {phase phase' : Phase} {restarts restarts' : Nat} (hcore : E core core')
    (hmailbox : mailbox' = mailbox) (hphase : phase' = phase) (hrestarts : restarts' = restarts) :
    R (l.steer core mailbox phase restarts) (l'.steer core' mailbox' phase' restarts') := by
  subst hmailbox hphase hrestarts
  exact H.steer h hcore _ _ _

theorem receiving (h : R l l') (mailbox : Mailbox) :
    R (l.receiving mailbox) (l'.receiving mailbox) :=
  have hc := H.control h
  H.keep h hc.core_rel rfl hc.phase_eq hc.restarts_eq

theorem ended (h : R l l') : R l.ended l'.ended :=
  have hc := H.control h
  H.keep h hc.core_rel hc.mailbox_eq rfl hc.restarts_eq

theorem handle (h : R l l') (c : Command) : R (l.handle c).1 (l'.handle c).1 := by
  have hc := H.control h
  refine H.keep h ?_ hc.mailbox_eq ?_ ?_
  · rw [hc.phase_eq]
    split
    · exact H.reset hc.core_rel
    · exact hc.core_rel
  · rw [hc.phase_eq]
  · rw [hc.phase_eq, hc.restarts_eq]

theorem stuck_handled (h : R l l') {c : Command} {f : Fault} (hl : l.Stuck (.handled c) f) :
    l'.Stuck (.handled c) f := by
  have hc := H.control h
  cases hl with
  | handled hq hover => exact .handled (by rw [hc.mailbox_eq, hq]) ((hc.overcounts_iff c).mpr hover)

theorem eq_receiving (h : R l l') : l' = l'.receiving l.mailbox := by
  rw [← (H.control h).mailbox_eq]
  rfl

/-! ## The parts of a pass -/

theorem lockstep_arrived (h : R l l') {m : Mailbox} {a : Arrival} {arrivals : List Arrival}
    (ha : m.arrivals = a :: arrivals) (outbox : List Command) :
    Lockstep R ⟨l.receiving m, outbox⟩ ⟨l'.receiving m, outbox⟩ [.arrived a.batch]
      ⟨l.receiving (Mailbox.deliver { m with arrivals } a.batch), outbox⟩
      ⟨l'.receiving (Mailbox.deliver { m with arrivals } a.batch), outbox⟩ :=
  .single (H.receiving h m) rfl (.arrived ha) (.arrived ha) (H.receiving h _) rfl

theorem lockstep_atLook (h : R l l') :
    Lockstep R l.now l'.now l.mailbox.lookEvents (l.receiving l.mailbox.atLook).now
      (l'.receiving l.mailbox.atLook).now := by
  suffices hlook : Lockstep R (l.receiving l.mailbox).now (l'.receiving l.mailbox).now
      l.mailbox.lookEvents (l.receiving l.mailbox.atLook).now
      (l'.receiving l.mailbox.atLook).now by
    rwa [← H.eq_receiving h] at hlook
  unfold Mailbox.atLook Mailbox.lookEvents
  cases ha : l.mailbox.arrivals with
  | nil => exact .start (H.receiving h _) rfl
  | cons a arrivals =>
    cases a with
    | atLook b => exact H.lockstep_arrived h ha []
    | whileWaiting b => exact .start (H.receiving h _) rfl
    | beforeSend b => exact .start (H.receiving h _) rfl

theorem lockstep_atWait (h : R l l') :
    Lockstep R l.now l'.now l.mailbox.waitEvents (l.receiving l.mailbox.atWait).now
      (l'.receiving l.mailbox.atWait).now := by
  suffices hwait : Lockstep R (l.receiving l.mailbox).now (l'.receiving l.mailbox).now
      l.mailbox.waitEvents (l.receiving l.mailbox.atWait).now
      (l'.receiving l.mailbox.atWait).now by
    rwa [← H.eq_receiving h] at hwait
  unfold Mailbox.atWait Mailbox.waitEvents
  cases hq : l.mailbox.queue with
  | cons c queue => exact .start (H.receiving h _) rfl
  | nil =>
    cases ha : l.mailbox.arrivals with
    | nil => exact .start (H.receiving h _) rfl
    | cons a arrivals =>
      have harrived := H.lockstep_arrived h ha []
      rwa [hq] at harrived

theorem lockstep_sent (h : R l l') (m : Mailbox) (c : Command) (cs : List Command) :
    Lockstep R ⟨l.receiving m, c :: cs⟩ ⟨l'.receiving m, c :: cs⟩ [.sent c]
      ⟨l.receiving (m.post [c]), cs⟩ ⟨l'.receiving (m.post [c]), cs⟩ :=
  .single (H.receiving h m) rfl .sent .sent (H.receiving h _) rfl

theorem lockstep_post (h : R l l') (cs : List Command) (m : Mailbox) :
    Lockstep R ⟨l.receiving m, cs⟩ ⟨l'.receiving m, cs⟩ (cs.map .sent)
      (l.receiving (m.post cs)).now (l'.receiving (m.post cs)).now := by
  induction cs generalizing m with
  | nil =>
    have hnone : m.post [] = m := by simp [Mailbox.post]
    exact hnone.symm ▸ .start (H.receiving h m) rfl
  | cons c cs ih =>
    have hrest := ih (m.post [c])
    rw [← Mailbox.post_append] at hrest
    exact (H.lockstep_sent h m c cs).trans hrest

/-- What the core sends, and what arrives meanwhile. -/
theorem lockstep_sendAll (h : R l l') (cs : List Command) (m : Mailbox) :
    Lockstep R ⟨l.receiving m, cs⟩ ⟨l'.receiving m, cs⟩ (m.sendEvents cs)
      (l.receiving (m.sendAll cs)).now (l'.receiving (m.sendAll cs)).now := by
  induction cs generalizing m with
  | nil => exact .start (H.receiving h m) rfl
  | cons c cs ih =>
    unfold Mailbox.sendAll Mailbox.sendEvents
    cases ha : m.arrivals with
    | nil => exact H.lockstep_post h (c :: cs) m
    | cons a arrivals =>
      cases a with
      | atLook b => exact H.lockstep_post h (c :: cs) m
      | whileWaiting b => exact H.lockstep_post h (c :: cs) m
      | beforeSend b =>
        have harrived := H.lockstep_arrived h ha (c :: cs)
        exact (harrived.trans (H.lockstep_sent h _ c cs)).trans (ih _)

theorem lockstep_handled (h : R l l') {m : Mailbox} {c : Command} {queue : List Command}
    (hq : m.queue = c :: queue) (hc : ¬ l.Overcounts c) :
    Lockstep R (l.receiving m).now (l'.receiving m).now [.handled c]
      ((l.receiving { m with queue }).handle c).1.now
      ((l'.receiving { m with queue }).handle c).1.now :=
  have hc' : ¬ l'.Overcounts c := mt ((H.control h).overcounts_iff c).mp hc
  .single (H.receiving h m) rfl (.handled hq hc) (.handled hq hc') (H.handle (H.receiving h _) c)
    rfl

theorem lockstep_deserted (h : R l l') {m : Mailbox} (hp : l.phase ≠ .running)
    (hq : m.queue = []) (hc : m.connected = false) :
    Lockstep R (l.receiving m).now (l'.receiving m).now [.deserted]
      (l.receiving m).ended.now (l'.receiving m).ended.now := by
  have hp' : l'.phase ≠ .running := (H.control h).phase_eq ▸ hp
  exact .single (H.receiving h m) rfl (.deserted hp hq hc) (.deserted hp' hq hc)
    (H.ended (H.receiving h m)) rfl

theorem inStep_poll (h : R l l') :
    l'.pollEvents = l.pollEvents ∧
      InStep R l l' l.pollEvents l.poll.outcome l'.poll.outcome := by
  induction l using Loop.poll_induction generalizing l' with
  | command l c queue hq ih =>
    have hm := (H.control h).mailbox_eq
    have hiff := (H.control h).overcounts_iff c
    have hq' : l'.mailbox.atLook.queue = c :: queue := by rw [hm, hq]
    by_cases hc : l.Overcounts c
    · obtain ⟨hpoll, hes⟩ := Loop.poll_of_overcounts hq hc
      obtain ⟨hpoll', hes'⟩ := Loop.poll_of_overcounts hq' (hiff.mpr hc)
      rw [hpoll, hpoll', hes, hes', hm]
      exact ⟨rfl, .halted rfl (H.lockstep_atLook h) (.handled hq hc) rfl⟩
    · obtain ⟨hevents, hrest⟩ := ih (H.handle (H.receiving h _) c)
      obtain ⟨hpoll, hes⟩ := Loop.poll_of_command hq hc
      obtain ⟨hpoll', hes'⟩ := Loop.poll_of_command hq' (mt hiff.mp hc)
      rw [hpoll, hpoll', hes, hes', hm, hevents]
      exact ⟨rfl, (hrest.after (H.lockstep_handled h hq hc) rfl).after (H.lockstep_atLook h) rfl⟩
  | other l hq =>
    have hm := (H.control h).mailbox_eq
    have hp := (H.control h).phase_eq
    have hq' : l'.mailbox.atLook.queue = [] := by rw [hm, hq]
    cases hc : l.mailbox.atLook.connected with
    | true =>
      have hc' : l'.mailbox.atLook.connected = true := by rw [hm, hc]
      obtain ⟨hpoll, hes⟩ := Loop.poll_of_empty hq hc
      obtain ⟨hpoll', hes'⟩ := Loop.poll_of_empty hq' hc'
      rw [hpoll, hpoll', hes, hes', hm]
      exact ⟨rfl, .ok (H.lockstep_atLook h)⟩
    | false =>
      have hc' : l'.mailbox.atLook.connected = false := by rw [hm, hc]
      by_cases hrunning : l.phase = .running
      · obtain ⟨hpoll, hes⟩ := Loop.poll_of_closed hq hc hrunning
        obtain ⟨hpoll', hes'⟩ := Loop.poll_of_closed hq' hc' (hp.trans hrunning)
        rw [hpoll, hpoll', hes, hes', hm]
        exact ⟨rfl, .ok (H.lockstep_atLook h)⟩
      · obtain ⟨hpoll, hes⟩ := Loop.poll_of_deserted hq hc hrunning
        obtain ⟨hpoll', hes'⟩ := Loop.poll_of_deserted hq' hc' (hp ▸ hrunning)
        rw [hpoll, hpoll', hes, hes', hm]
        exact ⟨rfl, .ok ((H.lockstep_atLook h).trans (H.lockstep_deserted h hrunning hq hc))⟩

theorem inStep_await (h : R l l') (hp : l.phase ≠ .running) :
    l'.awaitEvents = l.awaitEvents ∧
      InStep R l l' l.awaitEvents l.await.outcome l'.await.outcome := by
  have hm := (H.control h).mailbox_eq
  have hwait := H.lockstep_atWait h
  cases hq : l.mailbox.atWait.queue with
  | cons c queue =>
    have hq' : l'.mailbox.atWait.queue = c :: queue := by rw [hm, hq]
    have hiff := (H.control h).overcounts_iff c
    by_cases hc : l.Overcounts c
    · obtain ⟨hawait, hes⟩ := Loop.await_of_overcounts hq hc
      obtain ⟨hawait', hes'⟩ := Loop.await_of_overcounts hq' (hiff.mpr hc)
      rw [hawait, hawait', hes, hes', hm]
      exact ⟨rfl, .halted rfl hwait (.handled hq hc) rfl⟩
    · obtain ⟨hawait, hes⟩ := Loop.await_of_command hq hc
      obtain ⟨hawait', hes'⟩ := Loop.await_of_command hq' (mt hiff.mp hc)
      rw [hawait, hawait', hes, hes', hm]
      exact ⟨rfl, .ok (hwait.trans (H.lockstep_handled h hq hc))⟩
  | nil =>
    have hq' : l'.mailbox.atWait.queue = [] := by rw [hm, hq]
    cases hc : l.mailbox.atWait.connected with
    | true =>
      have hc' : l'.mailbox.atWait.connected = true := by rw [hm, hc]
      obtain ⟨hawait, hes⟩ := Loop.await_of_empty hq hc
      obtain ⟨hawait', hes'⟩ := Loop.await_of_empty hq' hc'
      rw [hawait, hawait', hes, hes', hm]
      exact ⟨rfl, .ok hwait⟩
    | false =>
      have hc' : l'.mailbox.atWait.connected = false := by rw [hm, hc]
      obtain ⟨hawait, hes⟩ := Loop.await_of_deserted hq hc
      obtain ⟨hawait', hes'⟩ := Loop.await_of_deserted hq' hc'
      rw [hawait, hawait', hes, hes', hm]
      exact ⟨rfl, .ok (hwait.trans (H.lockstep_deserted h hp hq hc))⟩

theorem lockstep_checkLimit (h : R l l') :
    l'.limitEvents = l.limitEvents ∧
      Lockstep R l.now l'.now l.limitEvents l.checkLimit.1.now l'.checkLimit.1.now := by
  have hc := H.control h
  have hiff : l'.AtLimit ↔ l.AtLimit := by
    rw [Loop.AtLimit, Loop.AtLimit, hc.frameLimit_eq, hc.frames_eq]
  by_cases hl : l.AtLimit
  · have hl' := hiff.mpr hl
    obtain ⟨hcheck, hes⟩ := Loop.checkLimit_of_atLimit hl
    obtain ⟨hcheck', hes'⟩ := Loop.checkLimit_of_atLimit hl'
    rw [hcheck, hcheck', hes, hes']
    exact ⟨rfl, .single h rfl (.limited hl) (.limited hl') (H.ended h) rfl⟩
  · obtain ⟨hcheck, hes⟩ := Loop.checkLimit_of_not_atLimit hl
    obtain ⟨hcheck', hes'⟩ := Loop.checkLimit_of_not_atLimit (mt hiff.mp hl)
    rw [hcheck, hcheck', hes, hes']
    exact ⟨rfl, .start h rfl⟩

/-- A frame that breaks off in none of the two. -/
theorem lockstep_step {m : Loop κ α ν} {m' : Loop κ' α' ν'} (h : R l l') (hp : l.phase = .running)
    (hl : l.step.outcome = .ok m) (hl' : l'.step.outcome = .ok m') :
    l'.stepEvents = l.stepEvents ∧ Lockstep R l.now l'.now l.stepEvents m.now m'.now := by
  have hm := H.step h hl hl'
  have hp' : l'.phase = .running := (H.control h).phase_eq.trans hp
  obtain ⟨core, actions, t, hcycle, -, -⟩ := Loop.step_eq_ok_iff.mp hl
  obtain ⟨core', actions', t', hcycle', -, -⟩ := Loop.step_eq_ok_iff.mp hl'
  obtain rfl : actions' = actions := H.actions_eq h hcycle hcycle'
  have hsending := H.lockstep_sendAll hm (commandsOf actions') l.mailbox
  rw [← Loop.mailbox_of_step hcycle hl, ← H.eq_receiving hm] at hsending
  have hcycled : Lockstep R l.now l'.now [.cycled] ⟨m.receiving l.mailbox, commandsOf actions'⟩
      ⟨m'.receiving l.mailbox, commandsOf actions'⟩ := by
    refine .single h rfl (.cycled hp hcycle hl) ?_ (H.receiving hm _) rfl
    rw [← (H.control h).mailbox_eq]
    exact .cycled hp' hcycle' hl'
  rw [Loop.stepEvents_of_ok hcycle hl, Loop.stepEvents_of_ok hcycle' hl',
    (H.control h).mailbox_eq]
  exact ⟨rfl, hcycled.trans hsending⟩

/-! ## Passes -/

/-- What the state asks for. A frame may break off in one of the two. -/
theorem inStep_act (h : R l l') :
    (l'.actEvents = l.actEvents ∧ InStep R l l' l.actEvents l.act.outcome l'.act.outcome) ∨
    (l.phase = .running ∧ ∃ f, l.step.outcome = .error f ∨ l'.step.outcome = .error f) := by
  have hphase := (H.control h).phase_eq
  by_cases hrunning : l.phase = .running
  · obtain ⟨hact, hes⟩ := Loop.act_of_running hrunning
    obtain ⟨hact', hes'⟩ := Loop.act_of_running (hphase.trans hrunning)
    rw [hact, hact', hes, hes']
    cases hm : l.step.outcome with
    | error f => exact .inr ⟨hrunning, f, .inl rfl⟩
    | ok m =>
      cases hm' : l'.step.outcome with
      | error f => exact .inr ⟨hrunning, f, .inr rfl⟩
      | ok m' =>
        obtain ⟨hevents, hstep⟩ := H.lockstep_step h hrunning hm hm'
        exact .inl ⟨hevents, .ok hstep⟩
  · left
    by_cases hover : l.phase = .shuttingDown
    · obtain ⟨hact, hes⟩ := Loop.act_of_shuttingDown hover
      obtain ⟨hact', hes'⟩ := Loop.act_of_shuttingDown (hphase.trans hover)
      rw [hact, hact', hes, hes']
      exact ⟨rfl, .ok (.start h rfl)⟩
    · obtain ⟨hact, hes⟩ := Loop.act_of_waiting hrunning hover
      obtain ⟨hact', hes'⟩ := Loop.act_of_waiting (hphase ▸ hrunning) (hphase ▸ hover)
      rw [hact, hact', hes, hes']
      exact H.inStep_await h hrunning

/-- A pass: it may break off in both at the same restart, or in a frame of one of them. -/
theorem lockstep_pass (h : R l l') :
    (∃ m m', l.pass.outcome = .ok m ∧ l'.pass.outcome = .ok m' ∧ l'.passEvents = l.passEvents ∧
      Lockstep R l.now l'.now l.passEvents m.now m'.now) ∨
    ∃ es m m', Lockstep R l.now l'.now es m.now m'.now ∧
      ((∃ c, l.BreaksPass es (.handled c) m ∧ l'.BreaksPass es (.handled c) m') ∨
        l.BreaksPass es .cycled m ∨ l'.BreaksPass es .cycled m') := by
  have hframes_eq {m : Loop κ α ν} {m' : Loop κ' α' ν'} {k : Loop κ α ν} {k' : Loop κ' α' ν'}
      (hm : R m m') (hk : R k k') (heq : m.totals.frames = k.totals.frames) :
      m'.totals.frames = k'.totals.frames := by
    rw [(H.control hm).frames_eq, heq, (H.control hk).frames_eq]
  obtain ⟨hpollEvents, hpoll⟩ := H.inStep_poll h
  generalize hp : l.poll.outcome = x at hpoll
  generalize hp' : l'.poll.outcome = x' at hpoll
  cases hpoll with
  | halted hes hbefore hm hframes =>
    have hr := hbefore.related
    exact .inr ⟨_, _, _, hbefore, .inl ⟨_, .of_poll hp hes hm hframes,
      .of_poll hp' (hpollEvents.trans hes) (H.stuck_handled hr hm) (hframes_eq hr h hframes)⟩⟩
  | @ok p p' hpoll =>
    have hr : R p p' := hpoll.related
    obtain ⟨hactEvents, hact⟩ | ⟨hrunning, f, hf⟩ := H.inStep_act hr
    · generalize hk : p.act.outcome = y at hact
      generalize hk' : p'.act.outcome = y' at hact
      cases hact with
      | @ok m m' hact =>
        have hm : R m m' := hact.related
        obtain ⟨hlimitEvents, hlimit⟩ := H.lockstep_checkLimit hm
        obtain ⟨hpass, hes⟩ := Loop.pass_of_act hp hk
        obtain ⟨hpass', hes'⟩ := Loop.pass_of_act hp' hk'
        rw [hes, hes', hpollEvents, hactEvents]
        exact .inl ⟨_, _, hpass, hpass', by rw [hlimitEvents], hpoll.trans (hact.trans hlimit)⟩
      | halted hes hbefore hm hframes =>
        have hr' := hbefore.related
        have hbreak' := Loop.BreaksPass.of_act hp' hk' (hactEvents.trans hes)
          (H.stuck_handled hr' hm) (hframes_eq hr' hr hframes)
        rw [hpollEvents] at hbreak'
        exact .inr ⟨_, _, _, hpoll.trans hbefore,
          .inl ⟨_, .of_act hp hk hes hm hframes, hbreak'⟩⟩
    · have hrunning' : p'.phase = .running := (H.control hr).phase_eq.trans hrunning
      refine .inr ⟨_, p, p', hpoll, .inr (hf.imp ?_ ?_)⟩
      · exact fun hf => .of_step hp hrunning hf
      · exact fun hf => hpollEvents ▸ .of_step hp' hrunning' hf

/-- Passes, until they break off. -/
theorem lockstep_passes (h : R l l') (n : Nat) :
    ∃ es m m', Lockstep R l.now l'.now es m.now m'.now ∧
      (((l.passes n).outcome = .ok m ∧ (l'.passes n).outcome = .ok m' ∧
          l.events n = es ∧ l'.events n = es) ∨
        BreakOffAlike n l l' es m m') := by
  induction n generalizing l l' with
  | zero => exact ⟨[], l, l', .start h rfl, .inl ⟨rfl, rfl, rfl, rfl⟩⟩
  | succ n ih =>
    have hphase := (H.control h).phase_eq
    by_cases hover : l.phase = .shuttingDown
    · obtain ⟨hpasses, hes⟩ := Loop.passes_of_shuttingDown hover (n + 1)
      obtain ⟨hpasses', hes'⟩ := Loop.passes_of_shuttingDown (hphase.trans hover) (n + 1)
      rw [hpasses, hpasses', hes, hes']
      exact ⟨[], l, l', .start h rfl, .inl ⟨rfl, rfl, rfl, rfl⟩⟩
    · have hover' : l'.phase ≠ .shuttingDown := hphase ▸ hover
      obtain ⟨k, k', hk, hk', hpassEvents, hpass⟩ | ⟨es, m, m', hsteps, hbreak⟩ :=
        H.lockstep_pass h
      · have hr : R k k' := hpass.related
        obtain ⟨hpasses, hes⟩ := Loop.passes_succ_of_ok hover hk n
        obtain ⟨hpasses', hes'⟩ := Loop.passes_succ_of_ok hover' hk' n
        obtain ⟨es, m, m', hrest, ⟨hm, hm', hms, hms'⟩ | hbreak⟩ := ih hr
        · refine ⟨_, m, m', hpass.trans hrest, .inl ⟨hpasses.trans hm, hpasses'.trans hm', ?_, ?_⟩⟩
          · rw [hes, hms]
          · rw [hes', hms', hpassEvents]
        · refine ⟨_, m, m', hpass.trans hrest, .inr ?_⟩
          obtain ⟨c, hm, hm'⟩ | hm | hm' := hbreak
          · exact .inl ⟨c, hm.succ hover hk, hpassEvents ▸ hm'.succ hover' hk'⟩
          · exact .inr (.inl (hm.succ hover hk))
          · exact .inr (.inr (hpassEvents ▸ hm'.succ hover' hk'))
      · refine ⟨es, m, m', hsteps, .inr ?_⟩
        obtain ⟨c, hm, hm'⟩ | hm | hm' := hbreak
        · exact .inl ⟨c, hm.breaksOff hover n, hm'.breaksOff hover' n⟩
        · exact .inr (.inl (hm.breaksOff hover n))
        · exact .inr (.inr (hm'.breaksOff hover' n))

/-! ## Requests -/

theorem concluded (h : R l l') : R l.concluded l'.concluded := by
  unfold Loop.concluded
  rw [(H.control h).phase_eq]
  split
  · exact H.silenced h
  · exact h

theorem run_alike (h : R l l') (n : Nat) : RunAlike R n l l' := by
  obtain ⟨es, m, m', hsteps, ⟨hm, hm', hes, hes'⟩ | hbreak⟩ := H.lockstep_passes h n
  · refine ⟨es, m, m', hsteps, .inl ⟨?_, ?_, H.concluded hsteps.related, hes, hes'⟩⟩
    · rw [Loop.outcome_run, hm]
      rfl
    · rw [Loop.outcome_run, hm']
      rfl
  · exact ⟨es, m, m', hsteps, .inr hbreak⟩

theorem serve (h : R l l') {r : Request} {m : Loop κ α ν} {m' : Loop κ' α' ν'}
    (hm : (l.serve r).outcome = .ok m) (hm' : (l'.serve r).outcome = .ok m') : R m m' := by
  have hmailbox := (H.control h).mailbox_eq
  cases r with
  | step => exact H.step h hm hm'
  | command c =>
    obtain ⟨-, rfl⟩ := Loop.heed_eq_ok_iff.mp hm
    obtain ⟨-, rfl⟩ := Loop.heed_eq_ok_iff.mp hm'
    exact H.handle h c
  | post cs =>
    cases hm
    cases hm'
    exact hmailbox ▸ H.receiving h _
  | hangUp =>
    cases hm
    cases hm'
    exact hmailbox ▸ H.receiving h _
  | expect arrivals =>
    cases hm
    cases hm'
    exact hmailbox ▸ H.receiving h _
  | run n =>
    change (l.run n).outcome = _ at hm
    change (l'.run n).outcome = _ at hm'
    obtain ⟨es, k, k', -, ⟨hk, hk', hr, -, -⟩ | hbreak⟩ := H.run_alike h n
    · cases hk.symm.trans hm
      cases hk'.symm.trans hm'
      exact hr
    · obtain ⟨f, hf⟩ | ⟨f, hf⟩ := hbreak.broken
      · rw [Loop.outcome_run, hf] at hm
        cases hm
      · rw [Loop.outcome_run, hf] at hm'
        cases hm'

theorem serveAll (h : R l l') {rs : List Request} {m : Loop κ α ν} {m' : Loop κ' α' ν'}
    (hm : (l.serveAll rs).outcome = .ok m) (hm' : (l'.serveAll rs).outcome = .ok m') :
    R m m' := by
  induction rs generalizing l l' with
  | nil =>
    cases hm
    cases hm'
    exact h
  | cons r rs ih =>
    obtain ⟨k, hk, hm⟩ := Logged.bind_outcome_eq_ok_iff.mp hm
    obtain ⟨k', hk', hm'⟩ := Logged.bind_outcome_eq_ok_iff.mp hm'
    exact ih (H.serve h hk hk') hm hm'

end Steady

/-- Every session keeps step with itself. -/
theorem steady_eq : Steady (Eq : κ → κ → Prop) (Eq : Loop κ α ν → Loop κ α ν → Prop) where
  control := by
    rintro l _ rfl
    exact ⟨rfl, rfl, rfl, rfl, rfl, rfl⟩
  steer := by
    rintro l _ rfl core _ rfl mailbox phase restarts
    rfl
  reset := by
    rintro k _ rfl
    rfl
  actions_eq := by
    rintro l _ core core' actions actions' rfl hcycle hcycle'
    cases hcycle.symm.trans hcycle'
    rfl
  step := by
    rintro l _ m m' rfl hm hm'
    exact Except.ok.inj (hm.symm.trans hm')
  silenced := by
    rintro l _ rfl
    rfl

/-- The events of a run are a course. -/
theorem Loop.passes_course (l : Loop κ α ν) (n : Nat) :
    ∃ es m, l.now.Course es m.now ∧
      (((l.passes n).outcome = .ok m ∧ l.events n = es) ∨ ∃ e, l.BreaksOff n es e m) := by
  obtain ⟨es, m, m', hsteps, hend⟩ := steady_eq.lockstep_passes (rfl : l = l) n
  obtain rfl : m = m' := hsteps.related
  obtain ⟨hm, -, hes, -⟩ | ⟨c, hbreak, -⟩ | hbreak | hbreak := hend
  · exact ⟨es, m, hsteps.left, .inl ⟨hm, hes⟩⟩
  · exact ⟨es, m, hsteps.left, .inr ⟨.handled c, hbreak⟩⟩
  · exact ⟨es, m, hsteps.left, .inr ⟨.cycled, hbreak⟩⟩
  · exact ⟨es, m, hsteps.left, .inr ⟨.cycled, hbreak⟩⟩

end EmulatorOutput.Session
