import EmulatorOutput.Proofs.Backpressure

/-!
# Counts and alarms

Every period that a session closes is accepted by the device or lost, and it is lost in one of
three ways: a wait runs out, a wait fails, or the device refuses the period. What a session
counts is told by its exchanges with the device, and so are its alarms, the notices that are
warnings or worse: there is one for each period lost.
-/

namespace EmulatorOutput

theorem Notice.atLeast_append (least : Level) (ns ms : List Notice) :
    atLeast least (ns ++ ms) = atLeast least ns ++ atLeast least ms :=
  List.filter_append ns ms

namespace Logged

variable {ε α β : Type}

theorem notices_bind_pure (x : Logged ε α) (f : α → β) :
    (x >>= fun a => pure (f a)).notices = x.notices := by
  cases h : x.outcome with
  | ok a => rw [bind_of_ok h, notices_pure, List.append_nil]
  | error e => rw [bind_of_error h]

theorem atLeast_bind {least : Level} {x : Logged ε α} {f : α → Logged ε β}
    (hx : Notice.atLeast least x.notices = []) (hf : ∀ a, Notice.atLeast least (f a).notices = []) :
    Notice.atLeast least (x >>= f).notices = [] := by
  cases h : x.outcome with
  | ok a => rw [bind_of_ok h, Notice.atLeast_append, hx, hf, List.append_nil]
  | error e => rwa [bind_of_error h]

end Logged

namespace Sound

namespace Exchange

def isWait : Exchange → Bool
  | .waited _ _ => true
  | _ => false

def isTimeout : Exchange → Bool
  | .waited _ (.ok .timedOut) => true
  | _ => false

def isFailedWait : Exchange → Bool
  | .waited _ (.error _) => true
  | _ => false

def isRefusal : Exchange → Bool
  | .submitted _ (.error _) => true
  | _ => false

theorem isTimeout_iff (e : Exchange) :
    e.isTimeout = true ↔ ∃ limit, e = .waited limit (.ok .timedOut) := by
  rcases e with ⟨period, answer⟩ | ⟨limit, _ | ⟨id⟩ | _ | _⟩ | _ <;> simp [isTimeout]

theorem isFailedWait_iff (e : Exchange) :
    e.isFailedWait = true ↔ ∃ limit cause, e = .waited limit (.error cause) := by
  rcases e with ⟨period, answer⟩ | ⟨limit, _ | answer⟩ | _ <;> simp [isFailedWait]

theorem isRefusal_iff (e : Exchange) :
    e.isRefusal = true ↔ ∃ period cause, e = .submitted period (.error cause) := by
  rcases e with ⟨period, _ | answer⟩ | ⟨limit, answer⟩ | _ <;> simp [isRefusal]

/-- The weight of the alarm that an exchange gives cause for: losing a period is no more than
worth a warning, unless the device refuses it for good. -/
def severity? : Exchange → Option Level
  | .waited _ (.ok .timedOut) => some .warn
  | .waited _ (.error _) => some .warn
  | .submitted _ (.error e) => some (if e.recoverable then .warn else .error)
  | _ => none

/-- The text of that alarm, where `lost` counts the periods lost up to this one. -/
def complaint (lost : Nat) : Exchange → String
  | .waited limit (.ok .timedOut) =>
    s!"{(waitedOut limit).message}, " ++ s!"dropped period ({lost} total)"
  | .waited _ (.error e) => s!"Audio device wait failed: {e.message}, dropped period"
  | .submitted period (.error e) =>
    if e.recoverable then s!"Audio device rejected buffer {period.id}: {e.message}"
    else s!"Audio device failed on buffer {period.id}: {e.message}"
  | _ => ""

end Exchange

/-- The alarms that exchanges give cause for, when so many periods have been lost before. -/
def alarms : Nat → List Exchange → List Notice
  | _, [] => []
  | lost, e :: es =>
    match e.severity? with
    | some level => ⟨level, e.complaint (lost + 1)⟩ :: alarms (lost + 1) es
    | none => alarms lost es

theorem alarms_append (lost : Nat) (es es' : List Exchange) :
    alarms lost (es ++ es') = alarms lost es ++ alarms (lost + (alarms lost es).length) es' := by
  induction es generalizing lost with
  | nil => rfl
  | cons e es ih =>
    rw [List.cons_append, alarms, alarms]
    cases e.severity? with
    | none => exact ih lost
    | some level =>
      change _ :: alarms (lost + 1) (es ++ es') = _ :: (_ ++ alarms (lost + (_ + 1)) es')
      rw [ih (lost + 1), Nat.add_assoc, Nat.add_comm 1]

theorem level_alarms (lost : Nat) (es : List Exchange) :
    (alarms lost es).map Notice.level = es.filterMap Exchange.severity? := by
  induction es generalizing lost with
  | nil => rfl
  | cons e es ih =>
    rw [alarms, List.filterMap_cons]
    cases e.severity? with
    | none => exact ih lost
    | some level => exact congrArg (level :: ·) (ih (lost + 1))

/-- There is an alarm for each period lost. -/
theorem length_alarms (lost : Nat) (es : List Exchange) :
    (alarms lost es).length =
      es.countP Exchange.isTimeout + es.countP Exchange.isFailedWait +
        es.countP Exchange.isRefusal := by
  induction es generalizing lost with
  | nil => rfl
  | cons e es ih =>
    have hlost := ih lost
    have hmore := ih (lost + 1)
    rcases e with ⟨period, e | ⟨⟩⟩ | ⟨limit, e | ⟨id⟩ | _ | _⟩ | _ <;>
      simp [alarms, Exchange.severity?, Exchange.isTimeout, Exchange.isFailedWait,
        Exchange.isRefusal, List.countP_cons] <;> omega

theorem alarms_refused_of_recoverable {e : Failure} (he : e.recoverable = true)
    (period : Submission) (lost : Nat) :
    alarms lost [.submitted period (.error e)] =
      [⟨.warn, s!"Audio device rejected buffer {period.id}: {e.message}"⟩] := by
  have hseverity : (Exchange.submitted period (.error e)).severity? = some .warn :=
    congrArg some (if_pos he)
  have htext : (Exchange.submitted period (.error e)).complaint (lost + 1) =
      s!"Audio device rejected buffer {period.id}: {e.message}" := if_pos he
  rw [alarms, hseverity, ← htext]
  rfl

theorem alarms_refused_of_lasting {e : Failure} (he : ¬ e.recoverable = true)
    (period : Submission) (lost : Nat) :
    alarms lost [.submitted period (.error e)] =
      [⟨.error, s!"Audio device failed on buffer {period.id}: {e.message}"⟩] := by
  have hseverity : (Exchange.submitted period (.error e)).severity? = some .error :=
    congrArg some (if_neg he)
  have htext : (Exchange.submitted period (.error e)).complaint (lost + 1) =
      s!"Audio device failed on buffer {period.id}: {e.message}" := if_neg he
  rw [alarms, hseverity, ← htext]
  rfl

/-! ## The end of a period -/

namespace Closing

theorem countP_isWait (c : Closing) (limit : Option Nat) :
    (c.exchanges limit).countP Exchange.isWait = if c.waits then 1 else 0 := by
  cases c with
  | late cause => cases cause <;> rfl
  | offered passage period answer => cases passage <;> rfl

theorem countP_isAcceptance (c : Closing) (limit : Option Nat) :
    (c.exchanges limit).countP Exchange.isAcceptance = if c.accepted then 1 else 0 := by
  cases c with
  | late cause => cases cause <;> rfl
  | offered passage period answer => cases passage <;> cases answer <;> rfl

/-- A period that a closing does not hand over was lost in one of three ways. -/
theorem lost_eq (c : Closing) (limit : Option Nat) :
    (c.exchanges limit).countP Exchange.isTimeout +
        (c.exchanges limit).countP Exchange.isFailedWait +
        (c.exchanges limit).countP Exchange.isRefusal = if c.accepted then 0 else 1 := by
  cases c with
  | late cause => cases cause <;> rfl
  | offered passage period answer => cases passage <;> cases answer <;> rfl

end Closing

namespace Stream

variable {δ : Type} [Device δ]

/-- Making room gives an alarm just where it loses the period. -/
theorem makeRoom_alarms {s s' : Stream (Recorder δ)} {ready : Bool}
    (h : s.makeRoom.outcome = .ok (s', ready)) :
    ∃ es, s'.device.history = s.device.history ++ es ∧
      Notice.atLeast .warn s.makeRoom.notices = alarms s.tally.periodsDropped es ∧
      (ready = true → s'.tally.periodsDropped = s.tally.periodsDropped ∧
        alarms s.tally.periodsDropped es = []) := by
  by_cases hfree : s.inFlight < s.setup.queueDepth.toNat
  · have hroom : s.makeRoom = pure (s, true) := by rw [makeRoom, if_pos hfree]
    rw [hroom] at h ⊢
    cases h
    exact ⟨[], (List.append_nil _).symm, rfl, fun _ => ⟨rfl, rfl⟩⟩
  · have hhistory := Recorder.history_wait s.device s.setup.waitLimit
    refine ⟨[.waited s.setup.waitLimit (Device.wait s.device s.setup.waitLimit).2], ?_⟩
    unfold makeRoom at h ⊢
    rw [if_neg hfree] at h ⊢
    cases hw : Device.wait s.device s.setup.waitLimit with
    | mk device answer =>
      rw [hw] at h hhistory
      rcases answer with e | ⟨id⟩ | _ | _
      · cases h
        exact ⟨hhistory, rfl, fun hready => absurd hready Bool.false_ne_true⟩
      · dsimp only at h ⊢
        cases hsub : Word.sub s.inFlight 1 with
        | error e =>
          simp only [hsub] at h
          cases h
        | ok n =>
          simp only [hsub] at h ⊢
          cases h
          exact ⟨hhistory, rfl, fun _ => ⟨rfl, rfl⟩⟩
      · cases h
        exact ⟨hhistory, rfl, fun _ => ⟨rfl, rfl⟩⟩
      · cases h
        exact ⟨hhistory, rfl, fun hready => absurd hready Bool.false_ne_true⟩

theorem handOver_alarms {s s' : Stream (Recorder δ)} {accepted : Bool}
    (h : s.handOver.outcome = .ok (s', accepted)) :
    ∃ es, s'.device.history = s.device.history ++ es ∧
      Notice.atLeast .warn s.handOver.notices = alarms s.tally.periodsDropped es := by
  have hhistory := Recorder.history_submit s.device s.submission
  refine ⟨[.submitted s.submission (Device.submit s.device s.submission).2], ?_⟩
  unfold handOver at h ⊢
  cases hd : Device.submit s.device s.submission with
  | mk device answer =>
    rw [hd] at h hhistory
    rcases answer with e | ⟨⟩
    · by_cases he : e.recoverable = true
      · have halarm := alarms_refused_of_recoverable he s.submission s.tally.periodsDropped
        simp only [he, if_true] at h ⊢
        cases h
        exact ⟨hhistory, halarm.symm⟩
      · have halarm := alarms_refused_of_lasting he s.submission s.tally.periodsDropped
        simp only [he] at h ⊢
        cases h
        exact ⟨hhistory, halarm.symm⟩
    · cases h
      exact ⟨hhistory, rfl⟩

theorem closePeriod_alarms {s s' : Stream (Recorder δ)} {accepted : Bool}
    (h : s.closePeriod.outcome = .ok (s', accepted)) :
    ∃ es, s'.device.history = s.device.history ++ es ∧
      Notice.atLeast .warn s.closePeriod.notices = alarms s.tally.periodsDropped es := by
  rw [closePeriod, Logged.bind_outcome_eq_ok_iff] at h
  obtain ⟨⟨t, ready⟩, hroom, h⟩ := h
  obtain ⟨es, hhistory, halarms, hready⟩ := makeRoom_alarms hroom
  rw [closePeriod, Logged.bind_of_ok hroom, Notice.atLeast_append, halarms]
  cases ready with
  | false =>
    cases h
    exact ⟨es, hhistory, List.append_nil _⟩
  | true =>
    obtain ⟨es', hhistory', halarms'⟩ := handOver_alarms h
    obtain ⟨hdropped, hnone⟩ := hready rfl
    refine ⟨es ++ es', ?_, ?_⟩
    · rw [hhistory', hhistory, List.append_assoc]
    · have hsame : (alarms s.tally.periodsDropped es).length = 0 := by rw [hnone, List.length_nil]
      change alarms s.tally.periodsDropped es ++ _ = alarms s.tally.periodsDropped _
      rw [alarms_append, hsame, Nat.add_zero, ← hdropped, ← halarms']
      rfl

theorem Closes.alarms_eq {s : Stream (Recorder δ)} {c : Closing} {device : Recorder δ}
    (hc : s.Closes c device) : Notice.atLeast .warn s.closePeriod.notices =
      alarms s.tally.periodsDropped (c.exchanges s.setup.waitLimit) := by
  obtain ⟨es, hhistory, halarms⟩ := closePeriod_alarms hc.outcome_eq
  rwa [List.append_cancel_left (hhistory.symm.trans hc.history_eq)] at halarms

/-! ## The whole session -/

variable {setup : Setup} {device : δ} {s₀ s : Stream (Recorder δ)} {xs : List Int16}
  {cs : List Closing}

/-- A count of the session is told by its history, if each closing adds to it what its own exchanges
tell. -/
theorem Run.count_eq (h₀ : Opened setup { device } s₀) (run : Run s₀ xs cs s) {f : Tally → Nat}
    {n : List Exchange → Nat} (hnone : f {} = n [])
    (happend : ∀ es es', n (es ++ es') = n es + n es')
    (hclosing : ∀ (c : Closing) (t : Tally) (limit : Option Nat),
      f (c.tally t) = f t + n (c.exchanges limit)) :
    f s.tally = n s.device.history := by
  induction run with
  | start => rw [h₀.tally_eq, h₀.history_eq, hnone]
  | fill run x hlt ih => exact ih
  | @close xs cs s c device run x hfull hc ih =>
    change f (c.tally s.tally) = n device.history
    rw [hc.history_put, happend, hclosing c s.tally s.setup.waitLimit, ih]

theorem Run.submitted_eq (h₀ : Opened setup { device } s₀) (run : Run s₀ xs cs s) :
    s.tally.periodsSubmitted = s.device.history.countP Exchange.isAcceptance := by
  refine run.count_eq h₀ rfl (fun _ _ => List.countP_append) fun c t limit => ?_
  rw [c.countP_isAcceptance]
  rfl

/-- The periods dropped are told by the history. -/
theorem Run.dropped_eq (h₀ : Opened setup { device } s₀) (run : Run s₀ xs cs s) :
    s.tally.periodsDropped = s.device.history.countP Exchange.isTimeout +
      s.device.history.countP Exchange.isFailedWait +
      s.device.history.countP Exchange.isRefusal := by
  refine run.count_eq h₀ (f := Tally.periodsDropped) (n := fun es => es.countP Exchange.isTimeout +
    es.countP Exchange.isFailedWait + es.countP Exchange.isRefusal) rfl ?_ fun c t limit => ?_
  · intro es es'
    simp only [List.countP_append]
    omega
  · rw [c.lost_eq]
    rfl

theorem Run.waits_eq (h₀ : Opened setup { device } s₀) (run : Run s₀ xs cs s) :
    s.tally.waits = s.device.history.countP Exchange.isWait := by
  refine run.count_eq h₀ rfl (fun _ _ => List.countP_append) fun c t limit => ?_
  rw [c.countP_isWait]
  rfl

/-- Every period closed is counted, as handed over or as dropped. -/
theorem Run.closings_eq (h₀ : Opened setup { device } s₀) (run : Run s₀ xs cs s) :
    s.tally.periodsSubmitted = cs.countP Closing.accepted ∧
      s.tally.periodsSubmitted + s.tally.periodsDropped = cs.length := by
  induction run with
  | start =>
    rw [h₀.tally_eq]
    exact ⟨rfl, rfl⟩
  | fill run x hlt ih => exact ih
  | @close xs cs s c device run x hfull hc ih =>
    obtain ⟨haccepted, hall⟩ := ih
    change s.tally.periodsSubmitted + (if c.accepted then 1 else 0) = _ ∧
      s.tally.periodsSubmitted + (if c.accepted then 1 else 0) +
        (s.tally.periodsDropped + if c.accepted then 0 else 1) = _
    rw [List.countP_append, List.countP_singleton, List.length_append, List.length_singleton]
    refine ⟨by rw [haccepted], ?_⟩
    cases c.accepted <;> simp <;> omega

/-- The alarms of a session are those that its history gives cause for. -/
theorem Run.alarms_eq (h₀ : Opened setup { device } s₀) (run : Run s₀ xs cs s) :
    Notice.atLeast .warn (s₀.consume xs).notices = alarms 0 s.device.history := by
  induction run with
  | start =>
    rw [consume_nil, h₀.history_eq]
    rfl
  | @fill xs cs s run x hlt ih =>
    have hstep := (run.ready h₀.ready).consume_of_lt hlt
    rw [consume_append, Logged.bind_of_ok (run.consume_eq h₀.ready), Notice.atLeast_append, ih,
      hstep]
    exact List.append_nil _
  | @close xs cs s c device run x hfull hc ih =>
    have heq : (s.put [x]).offset = (s.put [x]).capacity := hfull
    have hlost : (alarms 0 s.device.history).length = (s.put [x]).tally.periodsDropped :=
      (length_alarms 0 _).trans (run.dropped_eq h₀).symm
    rw [consume_append, Logged.bind_of_ok (run.consume_eq h₀.ready), Notice.atLeast_append, ih,
      (run.ready h₀.ready).consume_singleton, closeIfFull, if_pos heq]
    change _ = alarms 0 device.history
    rw [hc.history_put, alarms_append, Nat.zero_add, hlost]
    congr 1
    rw [Logged.notices_bind_pure]
    exact (congrArg (Notice.atLeast .warn) (Logged.notices_bind_pure _ _)).trans hc.alarms_eq

omit [Device δ] in
/-- Opening a session gives no alarm. -/
theorem start_alarms (grants : Allocator) (setup : Setup) (device : δ) :
    Notice.atLeast .warn (start grants setup device).notices = [] := by
  unfold start
  refine Logged.atLeast_bind rfl fun _ => Logged.atLeast_bind ?_ fun _ =>
    Logged.atLeast_bind rfl fun _ => Logged.atLeast_bind rfl fun _ =>
    Logged.atLeast_bind ?_ fun _ => Logged.atLeast_bind rfl fun _ =>
    Logged.atLeast_bind rfl fun _ => Logged.atLeast_bind rfl fun _ => rfl
  · cases setup.conversion <;> rfl
  · unfold StagingPool.allocate
    dsimp only
    split
    · rfl
    · split
      · rfl
      · rfl

/-- The end of a session gives no alarm of its own. -/
theorem close_alarms {s : Stream δ} (h : s.stopped = false) :
    Notice.atLeast .warn s.close.2 = Notice.atLeast .warn (Device.stop s.device).2 := by
  have hrunning : ¬ s.stopped = true := by rw [h]; exact Bool.false_ne_true
  have hdiscarded (ns : List Notice) : Notice.atLeast .warn
      ((if s.offset = 0 then []
        else [⟨.debug, s!"Discarding {s.offset} samples of a partial period"⟩]) ++ ns) =
      Notice.atLeast .warn ns := by
    split <;> rfl
  rw [close, if_neg hrunning]
  dsimp only
  rw [List.append_assoc, hdiscarded, Notice.atLeast_append]
  exact List.append_nil _

variable {grants : Allocator}

/-- The accounts of a session. Samples are counted as they come in, periods as they are closed:
each is counted as submitted or as dropped. All counts are true to the history of the device, the
producer hears of every period submitted, and there is one alarm for each period dropped, in the
order of the losses, which is an error just where the device has refused the period for good. -/
theorem session_accounts (h₀ : (start grants setup { device }).outcome = .ok s₀)
    (bursts : List (List Int16)) :
    let given := Notice.atLeast .warn
      ((start grants setup ({ device } : Recorder δ)).notices ++ (s₀.pushAll bursts).notices)
    setup.conversion = .ok s₀.conversion ∧ setup.periodSamples = .ok s₀.capacity ∧
    ∃ (s : Stream (Recorder δ)) (answers : List Nat),
      (s₀.pushAll bursts).outcome = .ok (s, answers) ∧
      s.tally.samplesAccepted = bursts.flatten.length ∧
      s.tally.periodsSubmitted + s.tally.periodsDropped =
        (s₀.conversion.apply bursts.flatten).length / s₀.capacity ∧
      s.tally.periodsSubmitted = s.device.history.countP Exchange.isAcceptance ∧
      s.tally.periodsSubmitted = answers.sum ∧
      s.tally.waits = s.device.history.countP Exchange.isWait ∧
      s.tally.periodsDropped = s.device.history.countP Exchange.isTimeout +
        s.device.history.countP Exchange.isFailedWait +
        s.device.history.countP Exchange.isRefusal ∧
      given = alarms 0 s.device.history ∧
      given.length = s.tally.periodsDropped ∧
      given.map Notice.level = s.device.history.filterMap Exchange.severity? ∧
      Notice.atLeast .warn s.close.2 = Notice.atLeast .warn (Device.stop s.device).2 := by
  intro given
  have hopened := start_spec h₀
  obtain ⟨cs, s, answers, hpush, run, hsum⟩ := pushAll_run h₀ bursts
  have hsubmitted := run.submitted_eq hopened
  have hdropped := run.dropped_eq hopened
  have hwaits := run.waits_eq hopened
  obtain ⟨haccepted, hclosed⟩ := run.closings_eq hopened
  have hgiven : given = alarms 0 s.device.history := by
    have hall : (s₀.pushAll bursts).notices = (s₀.consume bursts.flatten).notices := by
      rw [← Logged.notices_bind_pure (s₀.pushAll bursts), pushAll_eq_push_flatten,
        push_of_running hopened.stopped_eq, Logged.notices_bind_pure]
    change Notice.atLeast .warn (_ ++ (s₀.pushAll bursts).notices) = _
    rw [Notice.atLeast_append, start_alarms, hall]
    exact run.alarms_eq hopened
  refine ⟨hopened.conversion_eq, hopened.capacity_eq, s.relabel bursts.flatten.length false,
    answers, hpush, rfl, ?_, hsubmitted, ?_, hwaits, hdropped, hgiven, ?_, ?_, close_alarms rfl⟩
  · exact hclosed.trans (run.periods_eq hopened).1.symm
  · exact haccepted.trans hsum.symm
  · rw [hgiven, length_alarms]
    exact hdropped.symm
  · rw [hgiven, level_alarms]
    rfl

theorem session_accounts_balky :
    ∃ (s₀ s : Stream (Recorder ScriptedDevice)) (answers : List Nat),
      (start Allocator.standard shortPeriods { device := balky }).outcome = .ok s₀ ∧
      (s₀.pushAll [[1, 2, 3], [], [4, 5, 6, 7]]).outcome = .ok (s, answers) ∧
      s.tally.samplesAccepted = 7 ∧ s.tally.periodsSubmitted + s.tally.periodsDropped = 3 ∧
      s.tally.periodsSubmitted = answers.sum ∧
      (alarms 0 s.device.history).length = s.tally.periodsDropped := by
  obtain ⟨s₀, h₀, hconversion, hcapacity⟩ := start_balky
  obtain ⟨-, -, s, answers, hpush, haccepted, hclosed, -, hsum, -, -, hgiven, hcount, -⟩ :=
    session_accounts h₀ [[1, 2, 3], [], [4, 5, 6, 7]]
  rw [hconversion, hcapacity] at hclosed
  rw [hgiven] at hcount
  exact ⟨s₀, s, answers, h₀, hpush, haccepted, hclosed, hsum, hcount⟩

end Stream

end Sound

end EmulatorOutput
