import EmulatorOutput.Proofs.PlaybackTurns
import Mathlib.Data.List.Chain

/-!
# Underruns

What a line that plays in real time counts as underruns. The clock is read when the voice takes a
period up, and not when the producer hands it over. So a period is counted that came too late, but
also one that was queued in good time, if the voice is back for it after the period before has
ended. As the voice sleeps until that end, only a voice that wakes at that very moment counts none
too many.

A `Timeline` is a run with the times that matter: when each accepted period was handed over, and
when the voice took it up.
-/

namespace EmulatorOutput.Sound

/-- A period that the voice begins to hold. -/
structure Uptake where
  period : Period
  /-- When the voice read the clock. -/
  time : Nat
  /-- The end of the period before, if there was one. -/
  previousEnd : Option Nat
  deriving DecidableEq, Repr

namespace Uptake

/-- The period before was over by then. -/
def late (u : Uptake) : Bool := u.previousEnd.any (· < u.time)

/-- When the period begins to play. -/
def start (u : Uptake) : Nat := if u.late then u.time else u.previousEnd.getD u.time

/-- The play time of the period is over at the given time. -/
def EndsAt (format : Format) (u : Uptake) (time : Option Nat) : Prop :=
  ∃ nanos, format.nanosOf u.period.data.size = .ok nanos ∧ time = some (u.start + nanos)

end Uptake

/-- The periods a voice has taken off the queue and not yet looked at the clock for. -/
def Voice.untimed : Voice → List Period
  | .received p => [p]
  | _ => []

namespace Line

def uptake (l : Line) (p : Period) : Uptake :=
  { period := p, time := l.now, previousEnd := l.playedUntil }

/-- What an act has the voice begin to hold. -/
def uptakes (l : Line) : Act → List Uptake
  | .turn .advance =>
    match l.voice with
    | .received p => if l.realtime ∧ ¬ l.stopping then [l.uptake p] else []
    | _ => []
  | _ => []

/-- The voice sleeps until the end of its period, or the period before has ended. -/
def Timed (l : Line) : Prop :=
  match l.voice with
  | .sleeping _ wakeAt => l.playedUntil = some wakeAt
  | .crashed => True
  | _ => ∀ time ∈ l.playedUntil, time ≤ l.now

variable {l l' : Line}

theorem Timed.le_now (h : l.Timed) (hcrashed : l.voice ≠ .crashed)
    (hawake : ∀ p wakeAt, l.voice ≠ .sleeping p wakeAt) : ∀ time ∈ l.playedUntil, time ≤ l.now := by
  unfold Timed at h
  split at h
  · rename_i p wakeAt hv
    exact absurd hv (hawake p wakeAt)
  · rename_i hv
    exact absurd hv hcrashed
  · exact h

theorem timed_of_le (h : ∀ time ∈ l.playedUntil, time ≤ l.now)
    (hawake : ∀ p wakeAt, l.voice ≠ .sleeping p wakeAt) : l.Timed := by
  unfold Timed
  split
  · rename_i p wakeAt hv
    exact absurd hv (hawake p wakeAt)
  · trivial
  · exact h

theorem Timed.elapse (h : l.Timed) (nanos : Nat) :
    ({ l with now := l.now + nanos } : Line).Timed := by
  unfold Timed at h ⊢
  dsimp only
  split at h
  · exact h
  · trivial
  · exact fun time htime => Nat.le_add_right_of_le (h time htime)

/-- What all steps have in common that begin no period: nothing is counted, and no end is set. -/
structure Quiet (l l' : Line) : Prop where
  format_eq : l'.format = l.format
  realtime_eq : l'.realtime = l.realtime
  underruns_eq : l'.counts.underruns = l.counts.underruns
  playedUntil_eq : l'.playedUntil = l.playedUntil
  now_le : l.now ≤ l'.now
  untimed_eq : l'.voice ≠ .crashed →
    l'.voice.untimed ++ l'.queue = l.voice.untimed ++ l.queue
  timed : l.Timed → l'.Timed
  crashed : l.voice = .crashed → l'.voice = .crashed

theorem Quiet.refl (l : Line) : l.Quiet l :=
  ⟨rfl, rfl, rfl, rfl, Nat.le_refl _, fun _ => rfl, id, id⟩

theorem Quiet.elapse (l : Line) (nanos : Nat) : l.Quiet { l with now := l.now + nanos } :=
  ⟨rfl, rfl, rfl, rfl, Nat.le_add_right _ _, fun _ => rfl, fun h => h.elapse nanos, id⟩

/-- A voice that is awake and has looked at the clock for its period goes on without it. -/
theorem Move.quiet (m : l.Move l') (htimed : ∀ p, l.voice ≠ .received p)
    (hawake : ∀ p wakeAt, l.voice ≠ .sleeping p wakeAt) : l.Quiet l' := by
  cases m with
  | rest => exact .refl l
  | tick nanos => exact .elapse l nanos
  | gate blocked => exact ⟨rfl, rfl, rfl, rfl, Nat.le_refl _, fun _ => rfl, id, id⟩
  | hold p underruns until_ hv => exact absurd hv (htimed p)
  | derail p underruns e hv hr he => exact absurd hv (htimed p)
  | hurry p hv => exact absurd hv (htimed p)
  | wake p time hv => exact absurd hv (hawake p time)
  | _ =>
    refine ⟨rfl, rfl, rfl, rfl, Nat.le_refl _, ?_, fun h => ?_, ?_⟩
    · simp_all [Voice.untimed, loseSink, loseVoice]
    · exact timed_of_le (h.le_now (by simp_all) hawake) (by simp [loseSink, loseVoice])
    · simp_all

/-- What beginning a period comes to. A period whose play time cannot be told loses the voice. -/
structure Begins (l : Line) (p : Period) (l' : Line) : Prop where
  realtime_eq : l'.realtime = l.realtime
  format_eq : l'.format = l.format
  now_eq : l'.now = l.now
  queue_eq : l'.voice ≠ .crashed → l'.queue = l.queue
  underruns_eq : l'.counts.underruns = l.counts.underruns + if (l.uptake p).late then 1 else 0
  untimed_eq : l'.voice.untimed = []
  ends : l'.voice ≠ .crashed → (l.uptake p).EndsAt l.format l'.playedUntil
  timed : l'.Timed

theorem pace_begins (l : Line) (p : Period) : l.Begins p (l.pace p) := by
  unfold pace
  dsimp only
  cases hnanos : l.format.nanosOf p.data.size with
  | error e =>
    exact ⟨rfl, rfl, rfl, fun h => absurd rfl h, rfl, rfl, fun h => absurd rfl h, trivial⟩
  | ok nanos => exact ⟨rfl, rfl, rfl, fun _ => rfl, rfl, rfl, fun _ => ⟨nanos, hnanos, rfl⟩, rfl⟩

theorem wake_quiet (l : Line) : l.Quiet (l.turn .wake) := by
  change l.Quiet (l.wake.getD l)
  unfold wake
  split
  · rename_i p wakeAt hv
    split
    · rename_i hover
      refine ⟨rfl, rfl, rfl, rfl, Nat.le_refl _, ?_, fun h => ?_, ?_⟩
      · simp [Voice.untimed, hv]
      · have huntil : l.playedUntil = some wakeAt := by
          unfold Timed at h
          rwa [hv] at h
        refine timed_of_le (fun time htime => ?_) (by simp)
        obtain rfl : wakeAt = time := Option.some.inj (huntil.symm.trans htime)
        exact hover
      · simp [hv]
    · exact .refl l
  · exact .refl l

/-- Only the step after a period has been taken off the queue reads the clock. -/
theorem turn_quiet (l : Line) (t : Turn) (h : t = .advance → ∀ p, l.voice ≠ .received p) :
    l.Quiet (l.turn t) := by
  cases t with
  | elapse nanos => exact .elapse l nanos
  | gate blocked => exact ⟨rfl, rfl, rfl, rfl, Nat.le_refl _, fun _ => rfl, id, id⟩
  | wake => exact l.wake_quiet
  | lapse =>
    change l.Quiet (l.lapse.getD l)
    unfold lapse
    split
    · rename_i hl
      exact (Move.lapse hl.1 hl.2.1).quiet (by simp [hl.1]) (by simp [hl.1])
    · exact .refl l
  | advance =>
    by_cases hawake : ∃ p wakeAt, l.voice = .sleeping p wakeAt
    · obtain ⟨p, wakeAt, hv⟩ := hawake
      have hrest : l.advance = none := by
        unfold advance
        rw [hv]
      change l.Quiet (l.advance.getD l)
      rw [hrest]
      exact .refl l
    · exact (l.turn_move .advance).quiet (h rfl) fun p wakeAt hv => hawake ⟨p, wakeAt, hv⟩

end Line

namespace Playing

/-- A wait hands no period over and begins none. -/
theorem wait_quiet (g : Playing) :
    (g.act .wait).accepted = g.accepted ∧ g.line.Quiet (g.act .wait).line := by
  unfold act
  dsimp only
  by_cases hs : g.line.stopping = true
  · rw [if_pos hs]
    exact ⟨rfl, .refl _⟩
  · rw [if_neg hs]
    obtain ⟨id, released, -, -, ha⟩ | ⟨-, ha⟩ | ⟨e, -, ha⟩ | ⟨-, -, -, ha⟩ := g.line.receive_cases
    · rw [ha]
      exact ⟨rfl, rfl, rfl, rfl, rfl, Nat.le_refl _, fun _ => rfl, fun h => h, fun h => h⟩
    · rw [ha]
      exact ⟨rfl, .refl _⟩
    · rw [ha]
      exact ⟨rfl, .refl _⟩
    · rw [ha]
      exact ⟨rfl, .refl _⟩

theorem join_quiet (g : Playing) :
    (g.act .join).accepted = g.accepted ∧ g.line.Quiet (g.act .join).line := by
  unfold act
  dsimp only
  split
  · exact ⟨rfl, rfl, rfl, rfl, rfl, Nat.le_refl _, fun _ => rfl, fun h => h, fun h => h⟩
  · exact ⟨rfl, .refl _⟩

theorem format_run (g : Playing) (acts : List Act) : (g.run acts).line.format = g.line.format := by
  refine run_induction (P := fun g' => g'.line.format = g.line.format) ?_ rfl acts
  intro g' g'' hformat hstep
  cases hstep with
  | move m => exact m.made.1.trans hformat
  | _ => exact hformat

/-- A line that is to stop stays so. -/
theorem stopping_of_act {g : Playing} {a : Act} (h : (g.act a).line.stopping = false) :
    g.line.stopping = false := by
  have hstep := g.act_step a
  generalize g.act a = g' at h hstep
  cases hstep with
  | move m => exact m.steady.1.symm.trans h
  | raiseStop => cases h
  | _ => exact h

end Playing

/-- A run with its times. -/
structure Timeline where
  playing : Playing
  /-- When each accepted period was handed over, oldest first. -/
  handedOver : List Nat := []
  /-- The periods that the voice has begun to hold, oldest first. -/
  takenUp : List Uptake := []

namespace Timeline

/-- The clock at an act, for each period that it has the line accept. -/
def arrivals (t : Timeline) (a : Act) : List Nat :=
  ((t.playing.act a).accepted.drop t.playing.accepted.length).map fun _ => t.playing.line.now

def act (t : Timeline) (a : Act) : Timeline where
  playing := t.playing.act a
  handedOver := t.handedOver ++ t.arrivals a
  takenUp := t.takenUp ++ t.playing.line.uptakes a

def run (t : Timeline) (acts : List Act) : Timeline := acts.foldl act t

/-- Each period that has begun, with the time it was handed over at. -/
def begun (t : Timeline) : List (Nat × Uptake) := t.handedOver.zip t.takenUp

theorem run_concat (t : Timeline) (acts : List Act) (a : Act) :
    t.run (acts ++ [a]) = (t.run acts).act a := List.foldl_append

/-- Keeping the times changes nothing. -/
theorem playing_run (t : Timeline) (acts : List Act) :
    (t.run acts).playing = t.playing.run acts := by
  induction acts generalizing t with
  | nil => rfl
  | cons a acts ih => exact ih (t.act a)

/-- What is counted, against the times. -/
structure Accounted (t : Timeline) : Prop where
  realtime_eq : t.playing.line.realtime = true
  length_eq : t.handedOver.length = t.playing.accepted.length
  -- the queue keeps the order, so the periods taken up are the first ones handed over
  taken_prefix : t.takenUp.map Uptake.period <+: t.playing.accepted
  accepted_eq : t.playing.line.voice ≠ .crashed → t.playing.accepted =
    t.takenUp.map Uptake.period ++ (t.playing.line.voice.untimed ++ t.playing.line.queue)
  handed_le : ∀ time ∈ t.handedOver, time ≤ t.playing.line.now
  handed_before : ∀ b ∈ t.begun, b.1 ≤ b.2.time
  underruns_eq : t.playing.line.counts.underruns = t.takenUp.countP Uptake.late
  first_eq : ∀ u ∈ t.takenUp.head?, u.previousEnd = none
  taken_after : ∀ u ∈ t.takenUp, ∀ time ∈ u.previousEnd, time ≤ u.time
  chain : t.takenUp.IsChain fun u v => u.EndsAt t.playing.line.format v.previousEnd
  -- a voice lost over a play time that cannot be told leaves an end that says nothing
  ends : t.playing.line.voice ≠ .crashed → match t.takenUp.getLast? with
    | none => t.playing.line.playedUntil = none
    | some u => u.EndsAt t.playing.line.format t.playing.line.playedUntil
  timed : t.playing.line.Timed

theorem zip_append_of_le {α β : Type} {xs zs : List α} {ys : List β}
    (h : ys.length ≤ xs.length) : (xs ++ zs).zip ys = xs.zip ys := by
  induction xs generalizing ys with
  | nil =>
    obtain rfl : ys = [] := List.length_eq_zero_iff.mp (Nat.le_zero.mp h)
    simp
  | cons x xs ih =>
    cases ys with
    | nil => rfl
    | cons y ys => exact congrArg _ (ih (Nat.le_of_succ_le_succ h))

theorem mem_zip_concat {α β : Type} {xs : List α} {ys : List β} {y : β} {e : α × β}
    (h : e ∈ xs.zip (ys ++ [y])) : e ∈ xs.zip ys ∨ (e.1 ∈ xs ∧ e.2 = y) := by
  induction xs generalizing ys with
  | nil => cases h
  | cons x xs ih =>
    cases ys with
    | nil =>
      obtain rfl : e = (x, y) := by simpa using h
      exact .inr ⟨List.mem_cons_self, rfl⟩
    | cons z ys =>
      rcases List.mem_cons.mp h with rfl | h
      · exact .inl List.mem_cons_self
      · rcases ih h with hbefore | ⟨htime, hlast⟩
        · exact .inl (List.mem_cons_of_mem _ hbefore)
        · exact .inr ⟨List.mem_cons_of_mem _ htime, hlast⟩

namespace Accounted

variable {t : Timeline} (h : t.Accounted)

include h

theorem quiet {g : Playing} (haccepted : g.accepted = t.playing.accepted)
    (q : t.playing.line.Quiet g.line) : Accounted { t with playing := g } where
  realtime_eq := q.realtime_eq ▸ h.realtime_eq
  length_eq := haccepted ▸ h.length_eq
  taken_prefix := haccepted ▸ h.taken_prefix
  accepted_eq hcrashed := by
    rw [haccepted, q.untimed_eq hcrashed, h.accepted_eq (mt q.crashed hcrashed)]
  handed_le time htime := Nat.le_trans (h.handed_le time htime) q.now_le
  handed_before := h.handed_before
  underruns_eq := q.underruns_eq ▸ h.underruns_eq
  first_eq := h.first_eq
  taken_after := h.taken_after
  chain := q.format_eq ▸ h.chain
  ends hcrashed := by
    rw [q.format_eq, q.playedUntil_eq]
    exact h.ends (mt q.crashed hcrashed)
  timed := q.timed h.timed

theorem takenUp_length_le : t.takenUp.length ≤ t.handedOver.length := by
  rw [h.length_eq, ← List.length_map Uptake.period]
  exact h.taken_prefix.length_le

theorem accept (p : Period) :
    Accounted
      { playing := { t.playing with
          line := { t.playing.line with
            queue := t.playing.line.queue ++ [p]
            inFlight := t.playing.line.inFlight + 1 }
          accepted := t.playing.accepted ++ [p] }
        handedOver := t.handedOver ++ [t.playing.line.now]
        takenUp := t.takenUp } where
  realtime_eq := h.realtime_eq
  length_eq := by simp [h.length_eq]
  taken_prefix := h.taken_prefix.trans (List.prefix_append _ _)
  accepted_eq hcrashed := by simp [h.accepted_eq hcrashed]
  handed_le time htime := by
    rcases List.mem_append.mp htime with hbefore | hnow
    · exact h.handed_le time hbefore
    · exact Nat.le_of_eq (List.mem_singleton.mp hnow)
  handed_before b hb := by
    rw [begun, zip_append_of_le h.takenUp_length_le] at hb
    exact h.handed_before b hb
  underruns_eq := h.underruns_eq
  first_eq := h.first_eq
  taken_after := h.taken_after
  chain := h.chain
  ends := h.ends
  timed := h.timed

/-- The next period handed over is the next one taken up. -/
theorem takeUp {p : Period} {l : Line} (hv : t.playing.line.voice = .received p)
    (hl : t.playing.line.Begins p l) :
    Accounted { t with
      playing := { t.playing with line := l }
      takenUp := t.takenUp ++ [t.playing.line.uptake p] } := by
  have hcrashed : t.playing.line.voice ≠ .crashed := by simp [hv]
  have hends := h.ends hcrashed
  have hover : ∀ time ∈ t.playing.line.playedUntil, time ≤ t.playing.line.now :=
    h.timed.le_now hcrashed (by simp [hv])
  have haccepted : t.playing.accepted =
      t.takenUp.map Uptake.period ++ p :: t.playing.line.queue := by
    rw [h.accepted_eq hcrashed, hv]
    rfl
  exact {
    realtime_eq := hl.realtime_eq ▸ h.realtime_eq
    length_eq := h.length_eq
    taken_prefix := by simp [haccepted, Line.uptake]
    accepted_eq := fun hlost => by
      simp [haccepted, hl.queue_eq hlost, hl.untimed_eq, Line.uptake]
    handed_le := hl.now_eq ▸ h.handed_le
    handed_before := fun b hb => by
      rcases mem_zip_concat hb with hbefore | ⟨htime, hlast⟩
      · exact h.handed_before b hbefore
      · rw [hlast]
        exact h.handed_le _ htime
    underruns_eq := by
      rw [hl.underruns_eq, h.underruns_eq, List.countP_append, List.countP_singleton]
    first_eq := fun u hu => by
      cases htaken : t.takenUp with
      | nil =>
        rw [htaken] at hu hends
        cases hu
        exact hends
      | cons v vs =>
        rw [htaken] at hu
        exact h.first_eq u (htaken ▸ hu)
    taken_after := fun u hu => by
      rcases List.mem_append.mp hu with hbefore | hlast
      · exact h.taken_after u hbefore
      · rw [List.mem_singleton.mp hlast]
        exact hover
    chain := by
      rw [hl.format_eq]
      refine h.chain.append (.singleton _) fun u hu v hv => ?_
      rw [Option.mem_def.mp hu] at hends
      cases hv
      exact hends
    ends := fun hlost => by
      rw [List.getLast?_concat, hl.format_eq]
      exact hl.ends hlost
    timed := hl.timed }

theorem act_of_quiet {a : Act} (haccepted : (t.playing.act a).accepted = t.playing.accepted)
    (hnone : t.playing.line.uptakes a = [])
    (q : t.playing.line.Quiet (t.playing.act a).line) : (t.act a).Accounted := by
  have hact : t.act a = { t with playing := t.playing.act a } := by
    simp [Timeline.act, arrivals, haccepted, hnone]
  rw [hact]
  exact h.quiet haccepted q

theorem act_offer {p : Period} (hs : t.playing.line.stopping = false) :
    (t.act (.offer p)).Accounted := by
  have hrunning : ¬ t.playing.line.stopping = true := Bool.eq_false_iff.mp hs
  obtain ⟨-, -, ha⟩ | ⟨e, ha, -⟩ := t.playing.line.accept_cases p
  · have hact : t.playing.act (.offer p) = { t.playing with
        line := { t.playing.line with
          queue := t.playing.line.queue ++ [p]
          inFlight := t.playing.line.inFlight + 1 }
        accepted := t.playing.accepted ++ [p] } := by
      rw [Playing.act, if_neg hrunning, ha]
    have harrivals : t.arrivals (.offer p) = [t.playing.line.now] := by
      simp [arrivals, hact]
    have haccept := h.accept p
    rw [← hact, ← harrivals] at haccept
    simpa [Timeline.act, Line.uptakes] using haccept
  · have hact : t.playing.act (.offer p) = t.playing := by
      rw [Playing.act, if_neg hrunning, ha]
    exact h.act_of_quiet (by rw [hact]) rfl (by rw [hact]; exact .refl _)

theorem act_advance {p : Period} (hs : t.playing.line.stopping = false)
    (hv : t.playing.line.voice = .received p) : (t.act (.turn .advance)).Accounted := by
  have hpaced : t.playing.line.realtime = true ∧ ¬ t.playing.line.stopping = true :=
    ⟨h.realtime_eq, Bool.eq_false_iff.mp hs⟩
  have hadvance : t.playing.line.advance = some (t.playing.line.pace p) := by
    rw [Line.advance, hv]
    exact if_pos hpaced
  have hact : t.playing.act (.turn .advance) =
      { t.playing with line := t.playing.line.pace p } := by
    rw [Playing.act, Line.turn, hadvance, Option.getD_some]
  have huptakes : t.playing.line.uptakes (.turn .advance) = [t.playing.line.uptake p] := by
    rw [Line.uptakes, hv]
    exact if_pos hpaced
  have htakeUp := h.takeUp hv (t.playing.line.pace_begins p)
  rw [← hact, ← huptakes] at htakeUp
  simpa [Timeline.act, arrivals, hact] using htakeUp

/-- One act of a line that does not stop. -/
theorem act {a : Act} (hs : (t.act a).playing.line.stopping = false) : (t.act a).Accounted := by
  have hrunning : t.playing.line.stopping = false := Playing.stopping_of_act hs
  cases a with
  | offer p => exact h.act_offer hrunning
  | wait => exact h.act_of_quiet t.playing.wait_quiet.1 rfl t.playing.wait_quiet.2
  | join => exact h.act_of_quiet t.playing.join_quiet.1 rfl t.playing.join_quiet.2
  | raiseStop => cases hs
  | hangUp =>
    have hact : t.playing.act .hangUp = t.playing := by
      rw [Playing.act, if_neg (Bool.eq_false_iff.mp hrunning)]
    exact h.act_of_quiet (by rw [hact]) rfl (by rw [hact]; exact .refl _)
  | turn s =>
    by_cases hread : s = .advance ∧ ∃ p, t.playing.line.voice = .received p
    · obtain ⟨rfl, p, hv⟩ := hread
      exact h.act_advance hrunning hv
    · have hnone : t.playing.line.uptakes (.turn s) = [] := by
        cases s with
        | advance =>
          rw [Line.uptakes]
          split
          · rename_i p hv
            exact absurd ⟨rfl, p, hv⟩ hread
          · rfl
        | _ => rfl
      exact h.act_of_quiet rfl hnone
        (t.playing.line.turn_quiet s fun hs' p hv => hread ⟨hs', p, hv⟩)

/-- All acts of a line that does not stop. -/
theorem run {acts : List Act} (hs : (t.run acts).playing.line.stopping = false) :
    (t.run acts).Accounted := by
  induction acts using List.reverseRecOn with
  | nil => exact h
  | append_singleton acts a ih =>
    rw [run_concat] at hs ⊢
    exact (ih (Playing.stopping_of_act hs)).act hs

end Accounted

theorem accounted_of_start {format : Format} {sink : Option Sink} {l : Line}
    (h : (Line.start format true sink).outcome = .ok l) :
    Accounted { playing := { line := l } } := by
  have hl := Line.start_eq h
  subst hl
  exact {
    realtime_eq := rfl
    length_eq := rfl
    taken_prefix := List.prefix_rfl
    accepted_eq := fun _ => rfl
    handed_le := nofun
    handed_before := nofun
    underruns_eq := rfl
    first_eq := nofun
    taken_after := nofun
    chain := .nil
    ends := fun _ => rfl
    timed := nofun }

/-- The producer was late: the period before was over when this one was handed over. -/
def handedOverLate (b : Nat × Uptake) : Bool := b.2.previousEnd.any (· < b.1)

/-- Only the voice was late: the period was in the queue before the one before was over. -/
def takenUpLate (b : Nat × Uptake) : Bool := b.2.late && !handedOverLate b

theorem late_of_handedOverLate {b : Nat × Uptake} (h : b.1 ≤ b.2.time)
    (hlate : handedOverLate b = true) : b.2.late = true := by
  unfold handedOverLate at hlate
  unfold Uptake.late
  cases hend : b.2.previousEnd with
  | none => simp [hend] at hlate
  | some time =>
    simp only [hend, Option.any_some, decide_eq_true_eq] at hlate ⊢
    omega

/-- A period that waited is counted unless it is taken up in the moment the one before ends. -/
theorem takenUpLate_eq_false_iff {b : Nat × Uptake}
    (h : ∀ time ∈ b.2.previousEnd, time ≤ b.2.time) :
    takenUpLate b = false ↔
      (handedOverLate b = false → ∀ time ∈ b.2.previousEnd, b.2.time = time) := by
  unfold takenUpLate Uptake.late
  cases hend : b.2.previousEnd with
  | none => simp
  | some time =>
    have hover := h time (by simp [hend])
    cases handedOverLate b with
    | true => simp
    | false => simp; omega

/-- A late period is late by its producer or by the voice alone. -/
theorem countP_late {bs : List (Nat × Uptake)} (h : ∀ b ∈ bs, b.1 ≤ b.2.time) :
    bs.countP (fun b => b.2.late) = bs.countP handedOverLate + bs.countP takenUpLate := by
  induction bs with
  | nil => rfl
  | cons b bs ih =>
    have hb := late_of_handedOverLate (h b List.mem_cons_self)
    have hrest := ih fun e he => h e (List.mem_cons_of_mem _ he)
    rw [List.countP_cons, List.countP_cons, List.countP_cons, hrest]
    by_cases hlate : handedOverLate b = true
    · have hnot : takenUpLate b ≠ true := by simp [takenUpLate, hlate]
      rw [if_pos (hb hlate), if_pos hlate, if_neg hnot]
      omega
    · have hsame : takenUpLate b = b.2.late := by simp [takenUpLate, hlate]
      rw [if_neg hlate, hsame]
      omega

/-- What a line that plays in real time and is not to stop has counted. The periods are taken up
in the order they were handed over in, each after the one before has ended, and that end is what
it is measured against. Counted are those that the producer handed over after it; and besides
those that waited in the queue and that the voice took up after it. No others are counted just if
each period that waited was taken up in the very moment in which the one before ended. -/
theorem underruns_counted {format : Format} {sink : Option Sink} {l : Line}
    (hl : (Line.start format true sink).outcome = .ok l) {acts : List Act}
    (hs : (Playing.run { line := l } acts).line.stopping = false) :
    let t := Timeline.run { playing := { line := l } } acts
    let underruns := t.playing.line.counts.underruns
    t.playing = Playing.run { line := l } acts ∧
    t.handedOver.length = t.playing.accepted.length ∧
    t.takenUp.map Uptake.period <+: t.playing.accepted ∧
    (∀ u ∈ t.takenUp.head?, u.previousEnd = none) ∧
    (t.takenUp.IsChain fun u v => u.EndsAt format v.previousEnd) ∧
    (∀ b ∈ t.begun, b.1 ≤ b.2.time ∧ ∀ time ∈ b.2.previousEnd, time ≤ b.2.time) ∧
    underruns = t.begun.countP handedOverLate + t.begun.countP takenUpLate ∧
    (underruns = t.begun.countP handedOverLate ↔
      ∀ b ∈ t.begun, handedOverLate b = false → ∀ time ∈ b.2.previousEnd, b.2.time = time) := by
  intro t underruns
  have hplaying : t.playing = Playing.run { line := l } acts := playing_run _ acts
  have ht : t.Accounted := (accounted_of_start hl).run (hplaying ▸ hs)
  have hformat : t.playing.line.format = format := by
    rw [hplaying, Playing.format_run, Line.start_eq hl]
  have hbegun : t.begun.map Prod.snd = t.takenUp := List.map_snd_zip ht.takenUp_length_le
  have hafter : ∀ b ∈ t.begun, ∀ time ∈ b.2.previousEnd, time ≤ b.2.time := fun b hb =>
    ht.taken_after b.2 (hbegun ▸ List.mem_map_of_mem hb)
  have hcount : underruns = t.begun.countP handedOverLate + t.begun.countP takenUpLate := by
    rw [← countP_late ht.handed_before]
    change t.playing.line.counts.underruns = _
    rw [ht.underruns_eq, ← hbegun, List.countP_map]
    rfl
  refine ⟨hplaying, ht.length_eq, ht.taken_prefix, ht.first_eq, hformat ▸ ht.chain,
    fun b hb => ⟨ht.handed_before b hb, hafter b hb⟩, hcount, ?_⟩
  have hnone : underruns = t.begun.countP handedOverLate ↔ t.begun.countP takenUpLate = 0 := by
    omega
  rw [hnone, List.countP_eq_zero]
  refine forall₂_congr fun b hb => ?_
  rw [Bool.not_eq_true]
  exact takenUpLate_eq_false_iff (hafter b hb)

/-- A line without a sink, on which a frame plays for 20833 nanoseconds. -/
def silentLine : Line := { format := {}, realtime := true, sink := none }

/-- Two periods of one frame are queued at once. The voice sleeps while the first one plays, and
wakes up one nanosecond late. -/
def lateWaking : List Act :=
  [.offer { id := 0, data := #[1, 2, 3, 4] }, .offer { id := 1, data := #[5, 6, 7, 8] },
    .turn .advance, .turn .advance, .turn (.elapse 20834), .turn .wake, .turn .advance,
    .turn .advance, .turn .advance, .turn .advance, .turn .advance]

theorem underruns_counted_lateWaking :
    let t := Timeline.run { playing := { line := silentLine } } lateWaking
    t.playing.line.stopping = false ∧
      t.begun.map (fun b => (b.1, b.2.time, b.2.previousEnd)) =
        [(0, 0, none), (0, 20834, some 20833)] ∧
      t.playing.line.counts.underruns =
        t.begun.countP handedOverLate + t.begun.countP takenUpLate := by
  have hl : (Line.start {} true none).outcome = .ok silentLine := rfl
  have hs : (Playing.run { line := silentLine } lateWaking).line.stopping = false := rfl
  obtain ⟨-, -, -, -, -, -, hcount, -⟩ := underruns_counted hl hs
  exact ⟨rfl, rfl, hcount⟩

/-- The second period was in the queue before the first one began, and is an underrun. -/
theorem underrun_of_queued_period :
    let t := Timeline.run { playing := { line := silentLine } } lateWaking
    t.playing.line.stopping = false ∧ t.begun.length = 2 ∧
      (∀ b ∈ t.begun, handedOverLate b = false) ∧ t.playing.line.counts.underruns = 1 := by
  decide

end Timeline

end EmulatorOutput.Sound
