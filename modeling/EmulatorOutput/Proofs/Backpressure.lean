import EmulatorOutput.Proofs.Sessions

/-!
# Backpressure

A stream waits for its device where the device holds all the buffers it may, and only there.
The buffers in flight are told by the history alone: they are the periods accepted, less the
buffers released, since the device was last idle.
-/

namespace EmulatorOutput.Sound

namespace Exchange

def isAcceptance : Exchange → Bool
  | .submitted _ (.ok _) => true
  | _ => false

def isRelease : Exchange → Bool
  | .waited _ (.ok (.released _)) => true
  | _ => false

def isIdle : Exchange → Bool
  | .waited _ (.ok .idle) => true
  | _ => false

/-- What an exchange makes of the number of buffers in flight. -/
def inFlight : Exchange → Nat → Nat
  | .submitted _ (.ok _), n => n + 1
  | .waited _ (.ok (.released _)), n => n - 1
  | .waited _ (.ok .idle), _ => 0
  | _, n => n

end Exchange

/-- The exchanges since the device was last idle, the latest first. -/
def sinceIdle (history : List Exchange) : List Exchange :=
  history.reverse.takeWhile fun e => !e.isIdle

theorem sinceIdle_concat_of_idle {history : List Exchange} {e : Exchange} (h : e.isIdle = true) :
    sinceIdle (history ++ [e]) = [] := by
  simp [sinceIdle, h]

theorem sinceIdle_concat {history : List Exchange} {e : Exchange} (h : e.isIdle = false) :
    sinceIdle (history ++ [e]) = e :: sinceIdle history := by
  simp [sinceIdle, h]

theorem countP_sinceIdle_le (p : Exchange → Bool) (history : List Exchange) :
    (sinceIdle history).countP p ≤ history.countP p := by
  calc (sinceIdle history).countP p
      ≤ history.reverse.countP p := (List.takeWhile_sublist _).countP_le
    _ = history.countP p := List.countP_reverse

/-- Since the device was last idle it has accepted so many more buffers than it has released. -/
def Balanced (history : List Exchange) (n : Nat) : Prop :=
  n + (sinceIdle history).countP Exchange.isRelease =
    (sinceIdle history).countP Exchange.isAcceptance

theorem Balanced.le {history : List Exchange} {n : Nat} (h : Balanced history n) :
    n ≤ history.countP Exchange.isAcceptance := by
  have hle := countP_sinceIdle_le Exchange.isAcceptance history
  rw [Balanced] at h
  omega

/-- One exchange keeps the balance, if a release finds a buffer in flight. -/
theorem Balanced.step {history : List Exchange} {n : Nat} (h : Balanced history n) (e : Exchange)
    (hpos : e.isRelease = true → 0 < n) : Balanced (history ++ [e]) (e.inFlight n) := by
  rw [Balanced] at h ⊢
  cases hidle : e.isIdle with
  | true =>
    rw [sinceIdle_concat_of_idle hidle]
    unfold Exchange.isIdle at hidle
    split at hidle
    · rfl
    · cases hidle
  | false =>
    rw [sinceIdle_concat hidle, List.countP_cons, List.countP_cons]
    rcases e with ⟨period, _ | ⟨⟩⟩ | ⟨limit, _ | ⟨id⟩ | _ | _⟩ | _
    · exact h
    · change n + 1 + ((sinceIdle history).countP Exchange.isRelease + 0) = _ + 1
      omega
    · exact h
    · have := hpos rfl
      change n - 1 + ((sinceIdle history).countP Exchange.isRelease + 1) = _ + 0
      omega
    · cases hidle
    · exact h
    · exact h

theorem Balanced.step_of_kept {history : List Exchange} {n : Nat} (h : Balanced history n)
    {e : Exchange} (hkept : e.isRelease = false) : Balanced (history ++ [e]) (e.inFlight n) :=
  h.step e fun hrelease => absurd (hkept.symm.trans hrelease) Bool.false_ne_true

/-- The exchanges at the end of a period, by whether the producer has to wait: one wait at most,
then at once the hand-over, unless the wait came to nothing. -/
inductive Protocol (limit : Option Nat) : Bool → List Exchange → Prop where
  | direct (period answer) : Protocol limit false [.submitted period answer]
  | released (id period answer) :
      Protocol limit true [.waited limit (.ok (.released id)), .submitted period answer]
  | idle (period answer) :
      Protocol limit true [.waited limit (.ok .idle), .submitted period answer]
  | timedOut : Protocol limit true [.waited limit (.ok .timedOut)]
  | failed (cause) : Protocol limit true [.waited limit (.error cause)]

theorem Protocol.wait_first {limit limit' : Option Nat} {waits : Bool} {es before after}
    {answer : Except Failure WaitOutcome} (h : Protocol limit waits es)
    (hes : es = before ++ .waited limit' answer :: after) :
    before = [] ∧ limit' = limit ∧ waits = true := by
  cases h <;> rcases before with _ | ⟨e, _ | ⟨e', before⟩⟩ <;> simp_all

namespace Passage

theorem balanced {history : List Exchange} {n : Nat} (h : Balanced history n) (passage : Passage)
    (limit : Option Nat) (hpos : passage.waits = true → 0 < n) :
    Balanced (history ++ passage.exchanges limit) (passage.inFlight n) := by
  cases passage with
  | direct => rwa [exchanges, List.append_nil]
  | released id => exact h.step (.waited limit (.ok (.released id))) fun _ => hpos rfl
  | idle => exact h.step_of_kept (e := .waited limit (.ok .idle)) rfl

/-- A period that comes to be offered finds room in the queue. -/
theorem inFlight_lt {passage : Passage} {n depth : Nat} (hn : n ≤ depth) (hdepth : 0 < depth)
    (hwaits : passage.waits = true ↔ depth ≤ n) : passage.inFlight n < depth := by
  cases passage with
  | direct => exact Nat.lt_of_not_le fun h => Bool.false_ne_true (hwaits.mpr h)
  | released id =>
    change n - 1 < depth
    omega
  | idle => exact hdepth

end Passage

namespace Closing

theorem protocol (c : Closing) (limit : Option Nat) :
    Protocol limit c.waits (c.exchanges limit) := by
  cases c with
  | late cause =>
    cases cause with
    | none => exact .timedOut
    | some e => exact .failed e
  | offered passage period answer =>
    cases passage with
    | direct => exact .direct period answer
    | released id => exact .released id period answer
    | idle => exact .idle period answer

theorem balanced {history : List Exchange} {n : Nat} (h : Balanced history n) (c : Closing)
    (limit : Option Nat) (hpos : c.waits = true → 0 < n) :
    Balanced (history ++ c.exchanges limit) (c.inFlight n) := by
  cases c with
  | late cause =>
    cases cause with
    | none => exact h.step_of_kept (e := .waited limit (.ok .timedOut)) rfl
    | some e => exact h.step_of_kept (e := .waited limit (.error e)) rfl
  | offered passage period answer =>
    have hpassage := passage.balanced h limit hpos
    have hstep := hpassage.step_of_kept (e := .submitted period answer) rfl
    rw [exchanges, ← List.append_assoc]
    cases answer with
    | ok => exact hstep
    | error e => exact hstep

/-- A closing that waits only where the queue is full leaves it within its bound. -/
theorem inFlight_le {c : Closing} {n depth : Nat} (hn : n ≤ depth) (hdepth : 0 < depth)
    (hwaits : c.waits = true ↔ depth ≤ n) : c.inFlight n ≤ depth := by
  cases c with
  | late cause => exact hn
  | offered passage period answer =>
    have hpassage : passage.inFlight n < depth := passage.inFlight_lt hn hdepth hwaits
    cases answer with
    | ok => exact hpassage
    | error e => exact Nat.le_of_succ_le hpassage

end Closing

namespace Stream

variable {δ : Type} [Device δ] {setup : Setup} {device : δ} {s₀ s : Stream (Recorder δ)}
  {xs : List Int16} {cs : List Closing}

theorem Run.inFlight_le (h₀ : Opened setup { device } s₀) (run : Run s₀ xs cs s) :
    s.inFlight ≤ s₀.setup.queueDepth.toNat := by
  induction run with
  | start =>
    rw [h₀.inFlight_eq]
    exact Nat.zero_le _
  | fill run x hlt ih => exact ih
  | close run x hfull hc ih =>
    have hsetup := run.fixed.1
    exact Closing.inFlight_le ih h₀.ready.depth_pos (hsetup ▸ hc.waits_iff)

/-- The count of the buffers in flight is true to the history. -/
theorem Run.balanced (h₀ : Opened setup { device } s₀) (run : Run s₀ xs cs s) :
    Balanced s.device.history s.inFlight := by
  induction run with
  | start =>
    rw [h₀.inFlight_eq, h₀.history_eq]
    rfl
  | fill run x hlt ih => exact ih
  | @close xs cs s c device run x hfull hc ih =>
    have hdepth := (run.ready h₀.ready).depth_pos
    change Balanced device.history (c.inFlight s.inFlight)
    rw [hc.history_put]
    exact Closing.balanced ih c _ fun h => Nat.lt_of_lt_of_le hdepth (hc.waits_iff.mp h)

/-- Every exchange of a session was made at the end of a period, in a state on record. -/
theorem Run.exists_exchange (h₀ : Opened setup { device } s₀) (run : Run s₀ xs cs s)
    {before after : List Exchange} {e : Exchange}
    (h : s.device.history = before ++ e :: after) :
    ∃ ys cs' t x c device' early late, Run s₀ ys cs' t ∧ (t.put [x]).Closes c device' ∧
      before = t.device.history ++ early ∧
      c.exchanges t.setup.waitLimit = early ++ e :: late := by
  induction run generalizing after with
  | start => exact absurd (h₀.history_eq.symm.trans h) (by simp)
  | fill run x hlt ih => exact ih h
  | @close ys cs' t c device' run x hfull hc ih =>
    obtain ⟨early, hbefore, hes⟩ | ⟨late, hold, hes⟩ :=
      List.append_eq_append_iff.mp (hc.history_put.symm.trans h)
    · exact ⟨ys, cs', t, x, c, device', early, after, run, hc, hbefore, hes⟩
    · cases late with
      | nil =>
        rw [List.append_nil] at hold
        exact ⟨ys, cs', t, x, c, device', [], after, run, hc, by rw [List.append_nil, hold],
          hes.symm⟩
      | cons e' late =>
        obtain ⟨rfl, -⟩ := List.cons.inj hes
        exact ih hold

/-- A wait finds a queue that the device has filled by accepting as many periods. -/
theorem Run.wait_after (h₀ : Opened setup { device } s₀) (run : Run s₀ xs cs s)
    {before after : List Exchange} {limit : Option Nat} {answer : Except Failure WaitOutcome}
    (h : s.device.history = before ++ .waited limit answer :: after) :
    limit = s₀.setup.waitLimit ∧
      s₀.setup.queueDepth.toNat ≤ before.countP Exchange.isAcceptance := by
  obtain ⟨ys, cs', t, x, c, device', early, late, run, hc, hbefore, hes⟩ := run.exists_exchange h₀ h
  have hsetup := run.fixed.1
  obtain ⟨rfl, hlimit, hwaits⟩ := (c.protocol _).wait_first hes
  have hfull := hc.waits_iff.mp hwaits
  have hle := (run.balanced h₀).le
  rw [hbefore, List.append_nil, ← hsetup]
  exact ⟨hlimit, Nat.le_trans hfull hle⟩

variable {grants : Allocator}

/-- Backpressure. The buffers in flight never outnumber the depth of the queue and are always
those accepted and not released since the device was last idle. The history falls into the
exchanges of the periods closed: each is closed by a sample in a reachable state, and begins with
a wait just where in that state as many buffers are in flight as the queue is deep. -/
theorem session_backpressure (h₀ : (start grants setup { device }).outcome = .ok s₀)
    (bursts : List (List Int16)) :
    ∃ (s : Stream (Recorder δ)) (answers : List Nat) (periods : List (List Exchange)),
      (s₀.pushAll bursts).outcome = .ok (s, answers) ∧
      s.inFlight ≤ setup.queueDepth.toNat ∧
      s.inFlight + (sinceIdle s.device.history).countP Exchange.isRelease =
        (sinceIdle s.device.history).countP Exchange.isAcceptance ∧
      s.device.history = periods.flatten ∧
      periods.length = (s₀.conversion.apply bursts.flatten).length / s₀.capacity ∧
      (∀ before exchanges after, periods = before ++ exchanges :: after →
        ∃ xs x ys t t' m n, bursts.flatten = xs ++ x :: ys ∧
          (s₀.push xs).outcome = .ok (t, m) ∧ (t.push [x]).outcome = .ok (t', n) ∧
          t.device.history = before.flatten ∧
          t'.device.history = t.device.history ++ exchanges ∧
          Protocol setup.waitLimit (decide (t.inFlight = setup.queueDepth.toNat)) exchanges) ∧
      (∀ before limit answer after, s.device.history = before ++ .waited limit answer :: after →
        limit = setup.waitLimit ∧
          setup.queueDepth.toNat ≤ before.countP Exchange.isAcceptance) := by
  have hopened := start_spec h₀
  obtain ⟨cs, s, answers, hpush, run, -⟩ := pushAll_run h₀ bursts
  have hbound := run.inFlight_le hopened
  have hbalanced := run.balanced hopened
  have hhistory := run.history_eq
  rw [hopened.history_eq, List.nil_append, List.flatMap_def] at hhistory
  rw [← hopened.setup_eq]
  refine ⟨s.relabel bursts.flatten.length false, answers,
    cs.map (Closing.exchanges s₀.setup.waitLimit), hpush, hbound, hbalanced, hhistory, ?_, ?_,
    fun _ _ _ _ h => run.wait_after hopened h⟩
  · rw [List.length_map]
    exact (run.periods_eq hopened).1.symm
  · intro before exchanges after hsplit
    obtain ⟨early, tail, rfl, rfl, htail⟩ := List.map_eq_append_iff.mp hsplit
    obtain ⟨c, late, rfl, rfl, rfl⟩ := List.map_eq_cons_iff.mp htail
    obtain ⟨xs, x, ys, t, device', hxs, runt, hfull, hc⟩ := run.exists_closing rfl
    have hsetup := runt.fixed.1
    have hbefore := runt.history_eq
    rw [hopened.history_eq, List.nil_append, List.flatMap_def] at hbefore
    have hle := runt.inFlight_le hopened
    have hwaits : c.waits = decide (t.inFlight = s₀.setup.queueDepth.toNat) := by
      have hiff := hc.waits_iff
      change c.waits = true ↔ t.setup.queueDepth.toNat ≤ t.inFlight at hiff
      rw [hsetup] at hiff
      rw [Bool.eq_iff_iff, hiff, decide_eq_true_iff]
      omega
    refine ⟨xs, x, ys, _, _, _, _, hxs, hopened.push_eq runt,
      hopened.push_closing runt x hfull hc, hbefore, ?_, ?_⟩
    · have hafter := hc.history_put
      rw [hsetup] at hafter
      exact hafter
    · change Protocol _ (decide (t.inFlight = _)) _
      rw [← hwaits]
      exact c.protocol _

theorem session_backpressure_balky :
    ∃ (s₀ s : Stream (Recorder ScriptedDevice)) (answers : List Nat)
        (periods : List (List Exchange)),
      (start Allocator.standard shortPeriods { device := balky }).outcome = .ok s₀ ∧
      (s₀.pushAll [[1, 2, 3], [], [4, 5, 6, 7]]).outcome = .ok (s, answers) ∧
      s.inFlight ≤ 1 ∧ s.device.history = periods.flatten ∧ periods.length = 3 := by
  obtain ⟨s₀, h₀, hconversion, hcapacity⟩ := start_balky
  obtain ⟨s, answers, periods, hpush, hbound, -, hhistory, hcount, -⟩ :=
    session_backpressure h₀ [[1, 2, 3], [], [4, 5, 6, 7]]
  rw [hconversion, hcapacity] at hcount
  exact ⟨s₀, s, answers, periods, h₀, hpush, hbound, hhistory, hcount⟩

end Stream

end EmulatorOutput.Sound
