import EmulatorOutput.Proofs.PeriodCounts
import EmulatorOutput.Proofs.PlaybackAccounts

/-!
# Sessions over a playback line

A session over a playback line whose voice is alive loses a period in two ways only: a wait with
a bound is given up, or the line refuses a period because its queue is full. The second asks for
a session that may have more buffers in flight than the queue of the line holds.
-/

namespace EmulatorOutput.Sound

/-- A playback line with a schedule: the turns that go by before each answer to the producer. -/
structure Scheduled where
  line : Line
  schedule : List (List Line.Turn) := []

namespace Scheduled

/-- Lets the next part of the schedule go by. -/
def proceed (d : Scheduled) : Scheduled :=
  { line := d.line.turns (d.schedule.headD []), schedule := d.schedule.tail }

def submit (d : Scheduled) (p : Submission) : Scheduled × Except Failure Unit :=
  let d := d.proceed
  let (line, answer) := d.line.accept { id := p.id, data := p.dataWithin }
  ({ d with line }, answer)

/-- The turns that a wait lets go by. It ends at once if it can, or if it has a bound and is given
up; otherwise it goes on until the line comes to rest. -/
def patience (l : Line) (limit : Option Nat) : List Line.Turn :=
  if limit = none ∧ l.receive = none then l.restTurns else []

def wait (d : Scheduled) (limit : Option Nat) : Scheduled × Except Failure WaitOutcome :=
  let d := d.proceed
  let line := d.line.turns (patience d.line limit)
  match line.receive with
  | some (line, answer) => ({ d with line }, answer)
  | none => ({ d with line }, .ok .timedOut)

instance : Device Scheduled where
  submit := submit
  wait := wait
  stop d :=
    let (line, notices) := d.line.stop
    ({ d with line }, notices)

theorem submit_spec (d : Scheduled) (p : Submission) :
    ∃ ts, (d.submit p).1.line =
        ((d.line.turns ts).accept { id := p.id, data := p.dataWithin }).1 ∧
      (d.submit p).2 = ((d.line.turns ts).accept { id := p.id, data := p.dataWithin }).2 :=
  ⟨d.schedule.headD [], rfl, rfl⟩

/-- A wait that comes to nothing has a bound, or has left the line at rest. -/
theorem wait_spec (d : Scheduled) (limit : Option Nat) :
    ∃ ts, match (d.line.turns ts).receive with
      | some (l, answer) => (d.wait limit).1.line = l ∧ (d.wait limit).2 = answer
      | none => (d.wait limit).1.line = d.line.turns ts ∧ (d.wait limit).2 = .ok .timedOut ∧
        (limit = none → (d.line.turns ts).Resting) := by
  refine ⟨d.schedule.headD [] ++ patience d.proceed.line limit, ?_⟩
  have hproceed : d.line.turns (d.schedule.headD []) = d.proceed.line := rfl
  rw [Line.turns_append, hproceed]
  unfold wait
  dsimp only
  cases hr : (d.proceed.line.turns (patience d.proceed.line limit)).receive with
  | some r => exact ⟨rfl, rfl⟩
  | none =>
    refine ⟨rfl, rfl, fun hlimit => ?_⟩
    by_cases hnone : d.proceed.line.receive = none
    · rw [patience, if_pos ⟨hlimit, hnone⟩]
      exact Line.resting_turns_restTurns _
    · rw [patience, if_neg fun h => hnone h.2] at hr
      exact absurd hr hnone

end Scheduled

/-! ## What a line answers -/

namespace Exchange

/-- What a live line answers after the given exchanges: it refuses a period only with a full
queue, and so with as many buffers in flight; it gives up no wait without a bound; and no wait
fails. -/
def Regular (before : List Exchange) : Exchange → Prop
  | .submitted _ (.error e) => e = .deviceError "playback queue full" ∧
    ∃ n, Balanced before n ∧ Line.queueCapacity ≤ n
  | .waited limit (.ok .timedOut) => limit ≠ none
  | .waited _ (.error _) => False
  | _ => True

end Exchange

theorem Balanced.unique {history : List Exchange} {m n : Nat} (hm : Balanced history m)
    (hn : Balanced history n) : m = n := by
  rw [Balanced] at hm hn
  omega

/-- An exchange of a longer history is the last one, or one of the shorter history. -/
theorem cut_concat {history before after : List Exchange} {e e' : Exchange}
    (h : history ++ [e] = before ++ e' :: after) :
    (before = history ∧ e' = e) ∨ ∃ after', history = before ++ e' :: after' := by
  obtain rfl | ⟨after, last, rfl⟩ := List.eq_nil_or_concat after
  · obtain ⟨rfl, hlast⟩ := List.append_inj' h rfl
    cases hlast
    exact .inl ⟨rfl, rfl⟩
  · rw [List.concat_eq_append, ← List.cons_append, ← List.append_assoc] at h
    exact .inr ⟨after, List.append_inj_left' h rfl⟩

theorem countP_eq_zero_of_cuts {history : List Exchange} {q : Exchange → Bool}
    (h : ∀ before e after, history = before ++ e :: after → q e = false) :
    history.countP q = 0 := by
  refine List.countP_eq_zero.mpr fun e he => Bool.eq_false_iff.mp ?_
  obtain ⟨before, after, hcut⟩ := List.append_of_mem he
  exact h before e after hcut

namespace Scheduled

/-- A line that was opened as `l₀` and has not been stopped. -/
def Running (l₀ l : Line) : Prop :=
  l.stopping = false ∧ ∃ accepted heard, Playing.Accounts l₀ { line := l, accepted, heard }

namespace Running

variable {l₀ l : Line}

theorem turns (h : Running l₀ l) (ts : List Line.Turn) : Running l₀ (l.turns ts) := by
  obtain ⟨hs, accepted, heard, haccounts⟩ := h
  exact ⟨(l.turns_steady ts).1.trans hs, accepted, heard, haccounts.turns ts⟩

theorem steady (h : Running l₀ l) : l.connected = true ∧ (l.voice ≠ .crashed →
    l.inFlight = l.queue.length + l.voice.held.length + l.released.length) := by
  obtain ⟨hs, accepted, heard, haccounts⟩ := h
  obtain ⟨hc, hj, -⟩ := haccounts.running hs
  refine ⟨hc, fun hv => ?_⟩
  obtain ⟨lost, -, hlost, hcount⟩ := haccounts.inFlight_eq hj
  rw [hlost.mpr hv] at hcount
  exact hcount

/-- A live line at rest owes its producer nothing but word of buffers. -/
theorem inFlight_of_resting (h : Running l₀ l) (hrest : l.Resting) (he : l.voice.ended = false) :
    l.inFlight = l.released.length := by
  obtain hended | ⟨hv, hq, -⟩ := hrest
  · exact absurd (he.symm.trans hended) Bool.false_ne_true
  · rw [h.steady.2 (by rw [hv]; exact Voice.noConfusion), hv, hq]
    simp [Voice.held]

theorem accept (h : Running l₀ l) (p : Period) : Running l₀ (l.accept p).1 := by
  obtain ⟨hs, accepted, heard, haccounts⟩ := h
  obtain ⟨he, hlt, ha⟩ | ⟨e, ha, -⟩ := l.accept_cases p
  · rw [ha]
    exact ⟨hs, _, _, haccounts.accept p (Voice.ne_crashed_of_ended he) hlt⟩
  · rw [ha]
    exact ⟨hs, _, _, haccounts⟩

theorem hear {id : Nat} {released : List Nat} (h : Running l₀ l)
    (hr : l.released = id :: released) :
    Running l₀ { l with released, inFlight := l.inFlight - 1 } := by
  obtain ⟨hs, accepted, heard, haccounts⟩ := h
  exact ⟨hs, _, _, haccounts.hear hr⟩

end Running

/-- What holds of a line and of its history with a session. -/
structure Orderly (l₀ : Line) (r : Recorder Scheduled) : Prop where
  running : Running l₀ r.device.line
  balanced : Balanced r.history r.device.line.inFlight
  regular : r.device.line.voice.ended = false →
    ∀ before e after, r.history = before ++ e :: after → e.Regular before

namespace Orderly

variable {l₀ : Line} {r r' : Recorder Scheduled}

/-- One exchange, by what it makes of the line. -/
theorem step {e : Exchange} (h : Orderly l₀ r) (hhistory : r'.history = r.history ++ [e])
    (hrunning : Running l₀ r'.device.line)
    (hinFlight : r'.device.line.inFlight = e.inFlight r.device.line.inFlight)
    (hpos : e.isRelease = true → 0 < r.device.line.inFlight)
    (halive : r.device.line.voice.ended = true → r'.device.line.voice.ended = true)
    (hregular : r'.device.line.voice.ended = false → e.Regular r.history) : Orderly l₀ r' where
  running := hrunning
  balanced := by
    rw [hhistory, hinFlight]
    exact h.balanced.step e hpos
  regular := by
    intro he before e' after hcut
    rw [hhistory] at hcut
    have he₀ : r.device.line.voice.ended = false :=
      Bool.eq_false_iff.mpr fun hended =>
        Bool.false_ne_true (he.symm.trans (halive hended))
    obtain ⟨rfl, rfl⟩ | ⟨after', hcut⟩ := cut_concat hcut
    · exact hregular he
    · exact h.regular he₀ before e' after' hcut

theorem submit (h : Orderly l₀ r) (p : Submission) : Orderly l₀ (Device.submit r p).1 := by
  obtain ⟨ts, hline, hanswer⟩ := r.device.submit_spec p
  have hturned := h.running.turns ts
  have hsame := (r.device.line.turns_steady ts).2.2
  have hrunning := hturned.accept { id := p.id, data := p.dataWithin }
  have hvoice := (r.device.line.turns ts).accept_voice { id := p.id, data := p.dataWithin }
  have hhistory := Recorder.history_submit r p
  change Recorder.history _ = r.history ++ [.submitted p (r.device.submit p).2] at hhistory
  rw [hanswer] at hhistory
  rw [← hline] at hrunning hvoice
  have hended : r.device.line.voice.ended = true → (r.device.submit p).1.line.voice.ended = true :=
    fun hended => hvoice ▸ Line.turns_ended hended ts
  obtain ⟨he, hlt, ha⟩ | ⟨e, ha, hcause⟩ :=
    (r.device.line.turns ts).accept_cases { id := p.id, data := p.dataWithin }
  · rw [ha] at hline hhistory
    refine h.step hhistory hrunning ?_ (fun hrelease => by cases hrelease) hended fun _ => trivial
    change (r.device.submit p).1.line.inFlight = r.device.line.inFlight + 1
    rw [hline, ← hsame]
  · rw [ha] at hline hhistory
    refine h.step hhistory hrunning ?_ (fun hrelease => by cases hrelease) hended fun halive => ?_
    · change (r.device.submit p).1.line.inFlight = r.device.line.inFlight
      rw [hline, hsame]
    · obtain ⟨hconnected, hcount⟩ := hturned.steady
      have hsteady : (r.device.line.turns ts).voice.ended = false := hvoice ▸ halive
      obtain ⟨rfl, hfull⟩ := hcause hconnected hsteady
      -- a full queue is part of what is in flight
      refine ⟨rfl, r.device.line.inFlight, h.balanced, ?_⟩
      rw [← hsame, hcount (Voice.ne_crashed_of_ended hsteady)]
      omega

theorem wait (h : Orderly l₀ r) (limit : Option Nat) : Orderly l₀ (Device.wait r limit).1 := by
  obtain ⟨ts, hwait⟩ := r.device.wait_spec limit
  have hrunning := h.running.turns ts
  have hsame := (r.device.line.turns_steady ts).2.2
  have hended : r.device.line.voice.ended = true → (r.device.line.turns ts).voice.ended = true :=
    fun hended => Line.turns_ended hended ts
  have hhistory := Recorder.history_wait r limit
  change Recorder.history _ = r.history ++ [.waited limit (r.device.wait limit).2] at hhistory
  obtain ⟨id, released, hpos, hr, ha⟩ | ⟨hzero, ha⟩ | ⟨e, he, ha⟩ | ⟨hpos, hr, he, ha⟩ :=
    (r.device.line.turns ts).receive_cases
  · rw [ha] at hwait
    obtain ⟨hline, hanswer⟩ := hwait
    have hkept := hrunning.hear hr
    rw [hanswer] at hhistory
    rw [← hline] at hkept
    refine h.step hhistory hkept ?_ (fun _ => ?_) (fun he => ?_) fun _ => trivial
    · change (r.device.wait limit).1.line.inFlight = r.device.line.inFlight - 1
      rw [hline, ← hsame]
    · rw [← hsame]
      exact Nat.pos_of_ne_zero hpos
    · change (r.device.wait limit).1.line.voice.ended = true
      rw [hline]
      exact hended he
  · rw [ha] at hwait
    obtain ⟨hline, hanswer⟩ := hwait
    rw [hanswer] at hhistory
    rw [← hline] at hrunning hended
    refine h.step hhistory hrunning ?_ (fun hrelease => by cases hrelease) hended
      fun _ => trivial
    change (r.device.wait limit).1.line.inFlight = 0
    rw [hline, hzero]
  · rw [ha] at hwait
    obtain ⟨hline, hanswer⟩ := hwait
    rw [hanswer] at hhistory
    rw [← hline] at hrunning hended hsame he
    refine h.step hhistory hrunning hsame (fun hrelease => by cases hrelease) hended
      fun halive => absurd (halive.symm.trans he) Bool.false_ne_true
  · rw [ha] at hwait
    obtain ⟨hline, hanswer, hrest⟩ := hwait
    rw [hanswer] at hhistory
    have hlimit : limit ≠ none := by
      intro hlimit
      apply hpos
      rw [hrunning.inFlight_of_resting (hrest hlimit) he, hr]
      rfl
    rw [← hline] at hrunning hended hsame
    exact h.step hhistory hrunning hsame (fun hrelease => by cases hrelease) hended
      fun _ => hlimit

theorem served (h : Orderly l₀ r) (served : Served r r') : Orderly l₀ r' := by
  induction served with
  | refl => exact h
  | submit served p ih => exact ih.submit p
  | wait served limit ih => exact ih.wait limit

theorem opened {format : Format} {realtime : Bool} {answers : Option (Nat → WriteAnswer)}
    (hl₀ : (Line.start format realtime (answers.map Sink.fresh)).outcome = .ok l₀)
    (schedule : List (List Line.Turn)) :
    Orderly l₀ { device := { line := l₀, schedule } } where
  running := by
    refine ⟨?_, [], [], Playing.Accounts.opened hl₀⟩
    rw [Line.start_eq hl₀]
  balanced := by
    rw [Line.start_eq hl₀]
    rfl
  regular _ before e after hcut := by
    cases before <;> cases hcut

end Orderly

end Scheduled

/-! ## What a session loses -/

/-- A hand-over is the last exchange of its closing. -/
theorem Closing.submit_last {c : Closing} {limit : Option Nat} {early after : List Exchange}
    {p : Submission} {answer : Except Failure Unit}
    (h : c.exchanges limit = early ++ .submitted p answer :: after) :
    ∃ passage, c = .offered passage p answer ∧ early = passage.exchanges limit := by
  cases c with
  | late cause =>
    cases cause <;> rcases early with _ | ⟨e, early⟩ <;> simp [exchanges] at h
  | offered passage period answer' =>
    obtain rfl | ⟨after, last, rfl⟩ := List.eq_nil_or_concat after
    · obtain ⟨hearly, hlast⟩ := List.append_inj' h rfl
      cases hlast
      exact ⟨passage, rfl, hearly.symm⟩
    · rw [List.concat_eq_append, ← List.cons_append, ← List.append_assoc] at h
      have hpassage := List.append_inj_left' h rfl
      cases passage <;> rcases early with _ | ⟨e, early⟩ <;> simp [Passage.exchanges] at hpassage

namespace Stream

variable {δ : Type} [Device δ] {setup : Setup} {s₀ s : Stream (Recorder δ)}
  {xs : List Int16} {cs : List Closing}

/-- A period is handed over only while fewer buffers are in flight than the queue is deep. -/
theorem Run.submit_after {device : δ} (h₀ : Opened setup { device } s₀) (run : Run s₀ xs cs s)
    {before after : List Exchange} {p : Submission} {answer : Except Failure Unit}
    (h : s.device.history = before ++ .submitted p answer :: after) :
    ∃ n, Balanced before n ∧ n < s₀.setup.queueDepth.toNat := by
  obtain ⟨ys, cs', t, x, c, device', early, late, run, hc, hbefore, hes⟩ := run.exists_exchange h₀ h
  obtain ⟨passage, rfl, rfl⟩ := Closing.submit_last hes
  have hsetup := run.fixed.1
  have hdepth := h₀.ready.depth_pos
  have hwaits : passage.waits = true ↔ s₀.setup.queueDepth.toNat ≤ t.inFlight :=
    hsetup ▸ hc.waits_iff
  refine ⟨passage.inFlight t.inFlight, ?_,
    Passage.inFlight_lt (run.inFlight_le h₀) hdepth hwaits⟩
  rw [hbefore]
  exact passage.balanced (run.balanced h₀) _ fun hw => Nat.lt_of_lt_of_le hdepth (hwaits.mp hw)

variable {grants : Allocator} {format : Format} {realtime : Bool}
  {answers : Option (Nat → WriteAnswer)} {l₀ : Line} {schedule : List (List Line.Turn)}
  {s₀ : Stream (Recorder Scheduled)}

/-- A session over a playback line, under every schedule that keeps the voice alive. A period is
dropped only where a wait is given up or the line refuses the period, and the line refuses one
only with a full queue, eight buffers or more being in flight. So a session whose queue is no
deeper than that of the line is never refused, and without a bound on its waits drops nothing. -/
theorem session_over_playback
    (hl₀ : (Line.start format realtime (answers.map Sink.fresh)).outcome = .ok l₀)
    (h₀ : (start grants setup { device := { line := l₀, schedule } }).outcome = .ok s₀)
    (bursts : List (List Int16)) :
    ∃ (s : Stream (Recorder Scheduled)) (accepted : List Nat),
      (s₀.pushAll bursts).outcome = .ok (s, accepted) ∧
      (s.device.device.line.voice.ended = false →
        s.tally.periodsDropped = s.device.history.countP Exchange.isTimeout +
          s.device.history.countP Exchange.isRefusal ∧
        (∀ before p e after, s.device.history = before ++ .submitted p (.error e) :: after →
          e = .deviceError "playback queue full" ∧
            ∃ n, Balanced before n ∧ 8 ≤ n ∧ n < setup.queueDepth.toNat) ∧
        (setup.queueDepth.toNat ≤ 8 → s.device.history.countP Exchange.isRefusal = 0) ∧
        (setup.waitLimit = none → s.device.history.countP Exchange.isTimeout = 0) ∧
        (setup.queueDepth.toNat ≤ 8 → setup.waitLimit = none → s.tally.periodsDropped = 0)) := by
  have hopened := start_spec h₀
  obtain ⟨cs, s, accepted, hpush, run, -⟩ := pushAll_run h₀ bursts
  refine ⟨_, accepted, hpush, fun halive => ?_⟩
  have horderly : Scheduled.Orderly l₀ s.device := by
    refine Scheduled.Orderly.served ?_ run.served
    rw [hopened.device_eq]
    exact .opened hl₀ schedule
  have hregular := horderly.regular halive
  have hdropped := run.dropped_eq hopened
  have hrefused : ∀ before p e after,
      s.device.history = before ++ .submitted p (.error e) :: after →
      e = .deviceError "playback queue full" ∧
        ∃ n, Balanced before n ∧ 8 ≤ n ∧ n < setup.queueDepth.toNat := by
    intro before p e after hcut
    obtain ⟨hcause, n, hn, hfull⟩ := hregular before _ after hcut
    obtain ⟨m, hm, hlt⟩ := run.submit_after hopened hcut
    rw [hm.unique hn, hopened.setup_eq] at hlt
    exact ⟨hcause, n, hn, hfull, hlt⟩
  have hfailed : s.device.history.countP Exchange.isFailedWait = 0 :=
    countP_eq_zero_of_cuts fun before e after hcut => by
      cases hq : e.isFailedWait with
      | false => rfl
      | true =>
        obtain ⟨limit, cause, rfl⟩ := e.isFailedWait_iff.mp hq
        exact (hregular before _ after hcut).elim
  have hdeep : setup.queueDepth.toNat ≤ 8 →
      s.device.history.countP Exchange.isRefusal = 0 := fun hdepth =>
    countP_eq_zero_of_cuts fun before e after hcut => by
      cases hq : e.isRefusal with
      | false => rfl
      | true =>
        obtain ⟨p, cause, rfl⟩ := e.isRefusal_iff.mp hq
        obtain ⟨-, n, -, hfull, hlt⟩ := hrefused before p cause after hcut
        omega
  have hpatient : setup.waitLimit = none →
      s.device.history.countP Exchange.isTimeout = 0 := fun hlimit =>
    countP_eq_zero_of_cuts fun before e after hcut => by
      cases hq : e.isTimeout with
      | false => rfl
      | true =>
        obtain ⟨limit, rfl⟩ := e.isTimeout_iff.mp hq
        have hbound := (run.wait_after hopened hcut).1
        rw [hopened.setup_eq, hlimit] at hbound
        exact absurd hbound (hregular before _ after hcut)
  rw [hfailed, Nat.add_zero] at hdropped
  refine ⟨hdropped, hrefused, hdeep, hpatient, fun hdepth hlimit => ?_⟩
  change s.tally.periodsDropped = 0
  rw [hdropped, hdeep hdepth, hpatient hlimit]

/-- Four device samples a period, with waits that have no bound. -/
def patientPeriods (depth : UInt64) : Setup :=
  { shortPeriods with queueDepth := depth, waitLimit := none }

theorem eq_ok_of_toOption {ε α : Type} {x : Except ε α} {a : α} (h : x.toOption = some a) :
    x = .ok a := by
  cases x with
  | ok b =>
    cases h
    rfl
  | error e => cases h

/-- A line whose voice takes its first steps between the first calls of the producer. -/
def brisk (l : Line) : Recorder Scheduled :=
  { device := { line := l, schedule := [[], [.advance], [.advance, .advance]] } }

theorem session_over_playback_patient :
    ∃ (l₀ : Line) (s₀ s : Stream (Recorder Scheduled)) (accepted : List Nat),
      (Line.start {} false none).outcome = .ok l₀ ∧
      (start Allocator.standard (patientPeriods 2) (brisk l₀)).outcome = .ok s₀ ∧
      (s₀.pushAll [[1, 2, 3], [4, 5, 6, 7]]).outcome = .ok (s, accepted) ∧
      s.device.device.line.voice.ended = false ∧ s.tally.periodsDropped = 0 := by
  have hrun : ((Line.start {} false (Option.map Sink.fresh none)).outcome.toOption.bind fun l₀ =>
      (start Allocator.standard (patientPeriods 2) (brisk l₀)).outcome.toOption.bind fun s₀ =>
      (s₀.pushAll [[1, 2, 3], [4, 5, 6, 7]]).outcome.toOption.map fun r =>
        r.1.device.device.line.voice.ended) = some false := by
    decide +kernel
  simp only [Option.bind_eq_some_iff, Option.map_eq_some_iff] at hrun
  obtain ⟨l₀, hl₀, s₀, h₀, ⟨s, accepted⟩, hpush, halive⟩ := hrun
  have hl₀ := eq_ok_of_toOption hl₀
  have h₀ := eq_ok_of_toOption h₀
  have hpush := eq_ok_of_toOption hpush
  obtain ⟨s', accepted', hpush', hdropped⟩ :=
    session_over_playback hl₀ h₀ [[1, 2, 3], [4, 5, 6, 7]]
  obtain ⟨rfl, rfl⟩ := Prod.mk.inj (Except.ok.inj (hpush.symm.trans hpush'))
  exact ⟨l₀, s₀, s, accepted, hl₀, h₀, hpush, halive,
    (hdropped halive).2.2.2.2 (by decide) rfl⟩

/-- A session that may have nine periods in flight, over a line whose voice is held up before its
first period: the ninth is refused, and dropped without any wait. -/
theorem session_refused :
    ∃ (l₀ : Line) (s₀ s : Stream (Recorder Scheduled)) (accepted : Nat),
      (Line.start {} false none).outcome = .ok l₀ ∧
      (start Allocator.standard (patientPeriods 9) { device := { line := l₀ } }).outcome =
        .ok s₀ ∧
      (s₀.push (List.replicate 18 1)).outcome = .ok (s, accepted) ∧
      s.device.device.line.voice.ended = false ∧ s.tally.waits = 0 ∧
      s.tally.periodsDropped = 1 ∧ s.device.history.countP Exchange.isRefusal = 1 := by
  have hrun : ((Line.start {} false none).outcome.toOption.bind fun l₀ =>
      (start Allocator.standard (patientPeriods 9)
        ({ device := { line := l₀ } } : Recorder Scheduled)).outcome.toOption.bind fun s₀ =>
      (s₀.push (List.replicate 18 1)).outcome.toOption.map fun r =>
        (r.1.device.device.line.voice.ended, r.1.tally.waits, r.1.tally.periodsDropped,
          r.1.device.history.countP Exchange.isRefusal)) = some (false, 0, 1, 1) := by
    decide +kernel
  simp only [Option.bind_eq_some_iff, Option.map_eq_some_iff] at hrun
  obtain ⟨l₀, hl₀, s₀, h₀, ⟨s, accepted⟩, hpush, hvalues⟩ := hrun
  simp only [Prod.mk.injEq] at hvalues
  obtain ⟨halive, hwaits, hdropped, hrefused⟩ := hvalues
  exact ⟨l₀, s₀, s, accepted, eq_ok_of_toOption hl₀, eq_ok_of_toOption h₀,
    eq_ok_of_toOption hpush, halive, hwaits, hdropped, hrefused⟩

end Stream

end EmulatorOutput.Sound
