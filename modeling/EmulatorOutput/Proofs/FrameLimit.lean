import EmulatorOutput.Proofs.SessionControl
import EmulatorOutput.Session.Recording

/-!
# The frame limit

The limit is looked at when a pass is over. So a run that begins below it keeps it, but a run that
begins at it still works on one frame, if the first look into the mailbox leaves the session
running.
-/

namespace EmulatorOutput.Session.Loop

variable {κ α ν : Type} [Core κ]

/-! ## One pass -/

/-- The frames that the next pass adds. -/
def framesDue (l : Loop κ α ν) : Nat := if l.Due then 1 else 0

theorem framesDue_le (l : Loop κ α ν) : l.framesDue ≤ 1 := by
  unfold framesDue
  split <;> omega

variable [SoundSink α] [PictureSink ν]

theorem frames_act {l m : Loop κ α ν} (h : l.act.outcome = .ok m) :
    m.frameLimit = l.frameLimit ∧
      m.totals.frames = l.totals.frames + if l.phase = .running then 1 else 0 := by
  by_cases hrunning : l.phase = .running
  · rw [(act_of_running hrunning).1] at h
    obtain ⟨core, actions, t, -, -, rfl⟩ := step_eq_ok_iff.mp h
    rw [if_pos hrunning]
    exact ⟨rfl, rfl⟩
  · rw [if_neg hrunning]
    by_cases hover : l.phase = .shuttingDown
    · rw [(act_of_shuttingDown hover).1] at h
      cases h
      exact ⟨rfl, rfl⟩
    · rw [(act_of_waiting hrunning hover).1] at h
      obtain ⟨core, mailbox, phase, restarts, rfl⟩ := exists_await_eq h
      exact ⟨rfl, rfl⟩

/-- A pass adds its frame, and ends the session if it is then at its limit. -/
theorem frames_pass {l m : Loop κ α ν} (h : l.pass.outcome = .ok m) :
    m.frameLimit = l.frameLimit ∧ m.totals.frames = l.totals.frames + l.framesDue ∧
      (m.AtLimit → m.phase = .shuttingDown) := by
  obtain ⟨p, k, hp, hact, rfl⟩ := pass_eq_ok_iff.mp h
  obtain ⟨core, mailbox, phase, restarts, hpoll⟩ := exists_poll_eq hp
  obtain ⟨hlimit, hframes⟩ := frames_act hact
  have hlimit' : k.frameLimit = l.frameLimit := by
    rw [hlimit, hpoll]
    rfl
  have hframes' : k.totals.frames = l.totals.frames + l.framesDue := by
    rw [hframes, framesDue, if_congr (due_iff hp) rfl rfl, hpoll]
    rfl
  by_cases hat : k.AtLimit
  · rw [(checkLimit_of_atLimit hat).1]
    exact ⟨hlimit', hframes', fun _ => rfl⟩
  · rw [(checkLimit_of_not_atLimit hat).1]
    exact ⟨hlimit', hframes', fun hat' => absurd hat' hat⟩

/-! ## Passes -/

/-- The session has not had more frames than its limit, and is at it only when it is over. -/
structure Within (limit : Nat) (l : Loop κ α ν) : Prop where
  frameLimit_eq : l.frameLimit = some limit
  frames_le : l.totals.frames ≤ limit
  frames_lt : l.phase ≠ .shuttingDown → l.totals.frames < limit

theorem Within.pass {limit : Nat} {l m : Loop κ α ν} (h : l.Within limit)
    (hp : l.phase ≠ .shuttingDown) (hm : l.pass.outcome = .ok m) : m.Within limit := by
  obtain ⟨hlimit, hframes, hend⟩ := frames_pass hm
  have hlimit' : m.frameLimit = some limit := hlimit.trans h.frameLimit_eq
  have hlt := h.frames_lt hp
  have hdue := l.framesDue_le
  refine ⟨hlimit', by omega, fun hm => ?_⟩
  by_contra hge
  exact hm (hend ⟨limit, hlimit', by omega⟩)

theorem Within.passes {limit n : Nat} {l m : Loop κ α ν} (h : l.Within limit)
    (hm : (l.passes n).outcome = .ok m) : m.Within limit := by
  induction n generalizing l with
  | zero =>
    cases hm
    exact h
  | succ n ih =>
    by_cases hp : l.phase = .shuttingDown
    · rw [(passes_of_shuttingDown hp _).1] at hm
      cases hm
      exact h
    · obtain ⟨k, hpass, hk⟩ := (passes_succ_eq_ok_iff hp).mp hm
      exact ih (h.pass hp hpass) hk

/-- A session at its limit is over after one pass. -/
theorem passes_of_atLimit {n : Nat} {l m : Loop κ α ν} (hat : l.AtLimit)
    (hp : l.phase ≠ .shuttingDown) (hm : (l.passes n).outcome = .ok m) :
    (n = 0 ∧ m = l) ∨
      (n ≠ 0 ∧ m.phase = .shuttingDown ∧ m.frameLimit = l.frameLimit ∧
        m.totals.frames = l.totals.frames + l.framesDue) := by
  cases n with
  | zero =>
    cases hm
    exact .inl ⟨rfl, rfl⟩
  | succ n =>
    obtain ⟨limit, hl, hle⟩ := hat
    obtain ⟨k, hpass, hk⟩ := (passes_succ_eq_ok_iff hp).mp hm
    obtain ⟨hlimit, hframes, hend⟩ := frames_pass hpass
    have hover : k.phase = .shuttingDown := hend ⟨limit, hlimit.trans hl, by omega⟩
    rw [(passes_of_shuttingDown hover _).1] at hk
    cases hk
    exact .inr ⟨Nat.succ_ne_zero n, hover, hlimit, hframes⟩

/-- The session is at its limit, and yet its next pass works on a frame. -/
structure Overdue (limit : Nat) (l : Loop κ α ν) : Prop where
  frames_eq : l.totals.frames = limit
  phase_ne : l.phase ≠ .shuttingDown
  due : l.Due

/-- What passes may lead to: nothing has happened yet, the limit is kept, or the session was
overdue and is over one frame later. -/
theorem passes_cases {limit n : Nat} {l m : Loop κ α ν} (hl : l.frameLimit = some limit)
    (hle : l.totals.frames ≤ limit) (hm : (l.passes n).outcome = .ok m) :
    (n = 0 ∧ m = l) ∨ (m.Within limit ∧ ¬ l.Overdue limit) ∨
      (n ≠ 0 ∧ l.Overdue limit ∧ m.phase = .shuttingDown ∧ m.totals.frames = limit + 1) := by
  by_cases hwithin : l.Within limit
  · refine .inr (.inl ⟨hwithin.passes hm, fun h => ?_⟩)
    have hlt := hwithin.frames_lt h.phase_ne
    have heq := h.frames_eq
    omega
  · have hpast : l.phase ≠ .shuttingDown ∧ limit ≤ l.totals.frames := by
      by_contra hnot
      refine hwithin ⟨hl, hle, fun hp => ?_⟩
      by_contra hge
      exact hnot ⟨hp, by omega⟩
    obtain ⟨hp, hge⟩ := hpast
    have heq : l.totals.frames = limit := by omega
    obtain hzero | ⟨hn, hover, hlimit, hframes⟩ := passes_of_atLimit ⟨limit, hl, hge⟩ hp hm
    · exact .inl hzero
    · by_cases hdue : l.Due
      · rw [heq, framesDue, if_pos hdue] at hframes
        exact .inr (.inr ⟨hn, ⟨heq, hp, hdue⟩, hover, hframes⟩)
      · rw [heq, framesDue, if_neg hdue] at hframes
        have hwithin' : m.Within limit := ⟨hlimit.trans hl, by omega, fun h => absurd hover h⟩
        exact .inr (.inl ⟨hwithin', fun h => hdue h.due⟩)

/-- The frames that are there when a run breaks off. At the limit it breaks off in a frame just if
it began overdue. -/
theorem BreaksOff.frames {limit n : Nat} {l m : Loop κ α ν} {es : List Event} {e : Event}
    (h : l.BreaksOff n es e m) (hl : l.frameLimit = some limit) (hle : l.totals.frames ≤ limit) :
    m.totals.frames < limit ∨ (m.totals.frames = limit ∧ (e = .cycled ↔ l.Overdue limit)) := by
  obtain ⟨⟨k, p, -, hp, hphase, hframes, hdue⟩, -, -⟩ := h
  rw [hframes]
  obtain ⟨-, rfl⟩ | ⟨hwithin, -⟩ | ⟨-, -, hover, -⟩ := passes_cases hl hle hp
  · obtain hlt | heq := Nat.lt_or_eq_of_le hle
    · exact .inl hlt
    · exact .inr ⟨heq, hdue.trans ⟨fun h => ⟨heq, hphase, h⟩, Overdue.due⟩⟩
  · exact .inl (hwithin.frames_lt hphase)
  · exact absurd hover hphase

/-! ## Runs -/

/-- Every frame that a run begins is counted, but for the one in which it may break off. -/
theorem frames_events (l : Loop (Watched κ) α ν) (n : Nat) :
    (∃ m, (l.passes n).outcome = .ok m ∧
        m.totals.frames = l.totals.frames + (l.events n).count .cycled) ∨
      ∃ es e m, l.BreaksOff n es e m ∧ m.totals.frames = l.totals.frames + es.count .cycled ∧
        (l.events n).count .cycled = es.count .cycled + if e = .cycled then 1 else 0 := by
  obtain ⟨es, m, hcourse, hend⟩ := l.passes_course n
  have hframes : m.totals.frames = l.totals.frames + es.count .cycled :=
    count_cycle_account l es ▸ hcourse.accounted.frames_eq
  obtain ⟨hm, rfl⟩ | ⟨e, hm⟩ := hend
  · exact .inl ⟨m, hm, hframes⟩
  · refine .inr ⟨es, e, m, hm, hframes, ?_⟩
    rw [hm.events_eq, List.count_append, List.count_singleton]
    simp

theorem count_cycled_cases (l : Loop (Watched κ) α ν) {limit : Nat}
    (hl : l.frameLimit = some limit) (hle : l.totals.frames ≤ limit) (n : Nat) :
    (¬ l.Overdue limit → (l.events n).count .cycled ≤ limit - l.totals.frames) ∧
      (n ≠ 0 → l.Overdue limit → (l.events n).count .cycled = 1) := by
  obtain ⟨m, hm, hframes⟩ | ⟨es, e, m, hm, hframes, hbegun⟩ := l.frames_events n
  · obtain ⟨rfl, rfl⟩ | ⟨hwithin, hnot⟩ | ⟨-, hover, -, hpast⟩ := passes_cases hl hle hm
    · exact ⟨fun _ => Nat.zero_le _, fun hne => absurd rfl hne⟩
    · have hwithin := hwithin.frames_le
      exact ⟨fun _ => by omega, fun _ hover => absurd hover hnot⟩
    · have hat := hover.frames_eq
      exact ⟨fun hnot => absurd hover hnot, fun _ _ => by omega⟩
  · obtain hlt | ⟨hat, hiff⟩ := hm.frames hl hle
    · refine ⟨fun _ => ?_, fun _ hover => ?_⟩
      · split at hbegun <;> omega
      · have heq := hover.frames_eq
        omega
    · refine ⟨fun hnot => ?_, fun _ hover => ?_⟩
      · rw [if_neg (mt hiff.mp hnot)] at hbegun
        omega
      · have heq := hover.frames_eq
        rw [if_pos (hiff.mpr hover)] at hbegun
        omega

/-- A run that is over has asked its core for each of the frames that it has counted. -/
theorem frames_run {l l' : Loop (Watched κ) α ν} {n : Nat} (h : (l.run n).outcome = .ok l') :
    l'.totals.frames = l.totals.frames + (l.events n).count .cycled ∧
      l'.core.calls.count .cycle = l.core.calls.count .cycle + (l.events n).count .cycled := by
  obtain ⟨es, m, hcourse, ⟨hm, rfl⟩ | ⟨e, hm⟩⟩ := l.passes_course n
  · rw [outcome_run, hm] at h
    cases h
    have hkept := hcourse.accounted.concluded
    have hcalls : m.concluded.core.calls = l.core.calls ++ (l.account (l.events n)).calls :=
      hkept.calls_eq
    refine ⟨count_cycle_account l (l.events n) ▸ hkept.frames_eq, ?_⟩
    rw [hcalls, List.count_append, count_cycle_account]
  · obtain ⟨f, -, hn⟩ := hm.outcome_eq
    rw [outcome_run, hn] at h
    cases h

/-- A run keeps its limit unless it begins overdue, and then it works on one frame. The frames
counted are those that are begun, also the one in which the run may break off. -/
theorem run_keeps_limit (l : Loop (Watched κ) α ν) {limit : Nat} (hl : l.frameLimit = some limit)
    (hle : l.totals.frames ≤ limit) (n : Nat) :
    (¬ l.Overdue limit → (l.events n).count .cycled ≤ limit - l.totals.frames) ∧
      (n ≠ 0 → l.Overdue limit → (l.events n).count .cycled = 1) ∧
      ∀ l', (l.run n).outcome = .ok l' →
        l'.totals.frames = l.totals.frames + (l.events n).count .cycled ∧
        l'.core.calls.count .cycle = l.core.calls.count .cycle + (l.events n).count .cycled ∧
        (¬ l.Overdue limit → l'.totals.frames ≤ limit) := by
  obtain ⟨hbound, hoverdue⟩ := l.count_cycled_cases hl hle n
  refine ⟨hbound, hoverdue, fun l' hl' => ?_⟩
  obtain ⟨hframes, hcalls⟩ := frames_run hl'
  refine ⟨hframes, hcalls, fun hnot => ?_⟩
  have hcount := hbound hnot
  omega

/-- A new session of a core that does nothing in its frames. -/
def eagerSession (limit : Nat) : Loop (Watched ScriptedCore) SoundRecording PictureRecording where
  core := { core := { script := [[]], size := (160, 144) } }
  picture := none
  frameLimit := some limit

/-- Below its limit a session runs up to it. -/
theorem run_keeps_limit_eager :
    (eagerSession 3).frameLimit = some 3 ∧ (eagerSession 3).totals.frames ≤ 3 ∧
      (eagerSession 3).events 9 = [.cycled, .cycled, .cycled, .limited] ∧
      ∃ l', ((eagerSession 3).run 9).outcome = .ok l' ∧ l'.totals.frames = 3 ∧
        l'.core.calls.count .cycle = 3 := by
  have hlimit : (eagerSession 3).frameLimit = some 3 := rfl
  have hle : (eagerSession 3).totals.frames ≤ 3 := by decide
  have hevents : (eagerSession 3).events 9 = [.cycled, .cycled, .cycled, .limited] := by
    decide +kernel
  have hends : ((eagerSession 3).run 9).outcome.toOption.map (fun _ => ()) = some () := by
    decide +kernel
  obtain ⟨l', hrun, -⟩ := exists_of_toOption_map hends
  obtain ⟨-, -, hresult⟩ := run_keeps_limit (eagerSession 3) hlimit hle 9
  obtain ⟨hframes, hcalls, -⟩ := hresult l' hrun
  rw [hevents] at hframes hcalls
  exact ⟨hlimit, hle, hevents, l', hrun, hframes, hcalls⟩

/-- At its limit a session runs beyond it. -/
theorem run_exceeds_limit :
    ¬ ∀ (l l' : Loop (Watched ScriptedCore) SoundRecording PictureRecording) (limit n : Nat),
      l.frameLimit = some limit → l.totals.frames ≤ limit → (l.run n).outcome = .ok l' →
        l'.totals.frames ≤ limit := by
  intro h
  have hframes : ((eagerSession 0).run 9).outcome.toOption.map (·.totals.frames) = some 1 := by
    decide +kernel
  obtain ⟨l', hrun, hframes⟩ := exists_of_toOption_map hframes
  have hle := h (eagerSession 0) l' 0 9 rfl (Nat.le_refl _) hrun
  omega

end EmulatorOutput.Session.Loop
