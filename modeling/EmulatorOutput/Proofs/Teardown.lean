import EmulatorOutput.Proofs.CarriedSound
import EmulatorOutput.Proofs.SessionInvariants
import EmulatorOutput.Proofs.SplitTransfer

/-!
# The end of a stream

A stream ends when it is closed, by its owner or at the end of the session that carries it. However
that comes about, the device is stopped once and is not asked for anything afterwards, and every
period it was handed before is a whole one. In a session the device is stopped after the last cycle
of the core.
-/

namespace EmulatorOutput.Sound

namespace Closing

theorem stopped_notMem_exchanges (c : Closing) (limit : Option Nat) :
    .stopped ∉ c.exchanges limit := by
  obtain cause | ⟨passage, period, answer⟩ := c
  · cases cause <;> simp [exchanges]
  · cases passage <;> simp [exchanges, Passage.exchanges]

end Closing

namespace Stream

variable {δ : Type} [Device δ] {s t : Stream δ}

/-! ## Closing -/

theorem close_of_stopped (h : s.stopped = true) : s.close = (s, []) := if_pos h

theorem close_of_running (h : s.stopped = false) :
    s.close.1 = { s with device := (Device.stop s.device).1, stopped := true } := by
  have hrunning : ¬ s.stopped = true := by rw [h]; exact Bool.false_ne_true
  rw [close, if_neg hrunning]

theorem stopped_close (s : Stream δ) : s.close.1.stopped = true := by
  cases h : s.stopped with
  | true => rw [close_of_stopped h, h]
  | false => rw [close_of_running h]

theorem tally_close (s : Stream δ) : s.close.1.tally = s.tally := by
  cases h : s.stopped with
  | true => rw [close_of_stopped h]
  | false => rw [close_of_running h]

theorem history_close {s : Stream (Recorder δ)} (h : s.stopped = false) :
    s.close.1.device.history = s.device.history ++ [.stopped] := by
  rw [close_of_running h]
  exact List.reverse_cons

/-! ## Any use of a stream -/

/-- What the owner of a stream may do with it. A stream that is dropped is closed. -/
inductive Use where
  | push (samples : List Int16)
  | close

def use (s : Stream δ) : Use → Logged Fault (Stream δ)
  | .push samples => do
    let (s, _) ← s.push samples
    return s
  | .close => let (s, notices) := s.close; ⟨.ok s, notices⟩

def useAll : List Use → Stream δ → Logged Fault (Stream δ)
  | [], s => pure s
  | u :: rest, s => do
    let s ← s.use u
    useAll rest s

theorem outcome_use_close (s : Stream δ) : (s.use .close).outcome = .ok s.close.1 := rfl

/-- A stopped stream stays as it is. -/
theorem useAll_of_stopped (h : s.stopped = true) (uses : List Use) :
    (s.useAll uses).outcome = .ok s := by
  induction uses with
  | nil => rfl
  | cons u rest ih =>
    refine Logged.bind_ok ?_ ih
    cases u with
    | push samples =>
      rw [use, push_of_stopped h]
      rfl
    | close => rw [outcome_use_close, close_of_stopped h]

theorem useAll_of_pushAll {bursts : List (List Int16)} {answers : List Nat}
    (h : (s.pushAll bursts).outcome = .ok (t, answers)) (later : List Use) :
    (s.useAll (bursts.map .push ++ later)).outcome = (t.useAll later).outcome := by
  induction bursts generalizing s answers with
  | nil =>
    cases h
    rfl
  | cons xs bursts ih =>
    obtain ⟨⟨s₁, n⟩, hpush, h⟩ := Logged.bind_outcome_eq_ok_iff.mp h
    obtain ⟨⟨s₂, ns⟩, hrest, h⟩ := Logged.bind_outcome_eq_ok_iff.mp h
    cases h
    have huse : (s.use (.push xs)).outcome = .ok s₁ := Logged.bind_ok hpush rfl
    rw [← ih hrest, List.map_cons, List.cons_append, useAll, Logged.outcome_bind, huse]
    rfl

/-! ## The end -/

/-- The stream has come to its end after bursts: `t` is the stream before, and `s` after it. -/
structure Ended (s₀ : Stream (Recorder δ)) (bursts : List (List Int16))
    (t s : Stream (Recorder δ)) : Prop where
  taken : ∃ answers, (s₀.pushAll bursts).outcome = .ok (t, answers)
  close_eq : s = t.close.1
  tally_eq : s.tally = t.tally
  /-- The device is stopped in the last exchange with it. -/
  history_eq : s.device.history = t.device.history ++ [.stopped]
  stopped_notMem : .stopped ∉ t.device.history
  /-- Each period that was handed over is a whole period of the samples. -/
  whole : ∀ p answer, .submitted p answer ∈ t.device.history →
    ∃ k, s₀.capacity * (k + 1) ≤ (s₀.conversion.apply bursts.flatten).length ∧
      p.data = .ok
        (Bytes.ofSamples (slice (s₀.conversion.apply bursts.flatten) s₀.capacity k)).toArray

variable {grants : Allocator} {setup : Setup} {device : δ} {s₀ : Stream (Recorder δ)}

theorem ended_of_pushAll (h₀ : (start grants setup { device }).outcome = .ok s₀)
    {bursts : List (List Int16)} {answers : List Nat} {t : Stream (Recorder δ)}
    (h : (s₀.pushAll bursts).outcome = .ok (t, answers)) : s₀.Ended bursts t t.close.1 := by
  have hopened := start_spec h₀
  obtain ⟨cs, u, run, rfl⟩ := exists_run_of_pushAll h₀ h
  have hhistory : u.device.history = cs.flatMap fun c => c.exchanges setup.waitLimit := by
    rw [run.history_eq, hopened.history_eq, List.nil_append, hopened.setup_eq]
  exact {
    taken := ⟨answers, h⟩
    close_eq := rfl
    tally_eq := tally_close _
    history_eq := history_close rfl
    stopped_notMem := by
      change .stopped ∉ u.device.history
      rw [hhistory]
      intro hmem
      obtain ⟨c, -, hc⟩ := List.mem_flatMap.mp hmem
      exact c.stopped_notMem_exchanges _ hc
    whole := by
      intro p answer hmem
      change _ ∈ u.device.history at hmem
      rw [hhistory] at hmem
      obtain ⟨c, hc, hmem⟩ := List.mem_flatMap.mp hmem
      obtain ⟨k, hk, rfl⟩ := List.getElem_of_mem hc
      exact ⟨k, run.capacity_mul_le hopened hk,
        run.period_data hopened k hk p (Closing.period?_of_mem_exchanges hmem)⟩ }

end Stream

end EmulatorOutput.Sound

namespace EmulatorOutput.Session

open Sound (Recorder Stream Tally)

variable {κ δ ν : Type} [Core κ] [Sound.Device δ] [PictureSink ν]

/-! ## The stream of a session -/

/-- A session carries the stream that it was given. -/
theorem kept_carried (sound : Option (Stream δ)) :
    Kept fun l : Loop κ (Stream δ) ν =>
      ∃ bursts, Carried sound bursts l.sound l.totals.audio where
  steer h _ _ _ _ _ := h
  step := by
    rintro l m ⟨bursts, h⟩ hm
    obtain ⟨core, actions, t, -, ht, rfl⟩ := Loop.step_eq_ok_iff.mp hm
    exact ⟨_, h.afterTurn core ht⟩
  silenced := fun ⟨bursts, h⟩ => ⟨bursts, h.silenced⟩

/-- A stream in use stays in use until the session is silenced. -/
theorem held_soundWanted : Held fun l : Loop κ (Stream δ) ν => l.soundWanted = true where
  steer h _ _ _ _ _ := h
  step := by
    intro l m h hm
    obtain ⟨core, actions, t, -, ht, rfl⟩ := Loop.step_eq_ok_iff.mp hm
    have hsome : t.sound.isSome = true := (Turn.heard_performAll ht).1.isSome_eq.trans h
    obtain ⟨s, hs⟩ := Option.isSome_iff_exists.mp hsome
    change (l.sound.update t.sound).active?.isSome = true
    rw [hs]
    rfl

/-- A stream that is closed is left alone, and so are the counts kept of it. -/
theorem kept_closed (s : Stream δ) (audio : Option Tally) :
    Kept fun l : Loop κ (Stream δ) ν => l.sound = .closed s ∧ l.totals.audio = audio where
  steer h _ _ _ _ _ := h
  step := by
    rintro l m ⟨hlink, haudio⟩ hm
    obtain ⟨core, actions, t, -, ht, rfl⟩ := Loop.step_eq_ok_iff.mp hm
    have hheard := (Turn.heard_performAll ht).1
    have hnone : l.turn.sound = none := congrArg SoundLink.active? hlink
    rw [hnone] at hheard
    change l.sound.update t.sound = .closed s ∧ l.totals.audio = audio
    rw [hheard.of_none]
    exact ⟨hlink, haudio⟩
  silenced := by
    rintro l ⟨hlink, haudio⟩
    unfold Loop.silenced
    rw [hlink]
    exact ⟨hlink, haudio⟩

/-! ## The end of a session -/

/-- What a run of so many passes from `l` leaves behind in `m`, where its session has come to its
end: a stream that was `t` before it was closed. -/
structure TornDown (l : Loop κ (Stream (Recorder δ)) ν) (n : Nat)
    (m : Loop κ (Stream (Recorder δ)) ν) (t s : Stream (Recorder δ)) : Prop where
  sound_eq : m.sound = .closed s
  audio_eq : m.totals.audio = some t.tally
  /-- A stream in use is closed after the last event of the run. -/
  exists_end : l.soundWanted = true → ∃ k : Loop κ (Stream (Recorder δ)) ν,
    l.now.Course (l.events n) k.now ∧ k.sound = .attached t ∧ m = k.silenced
  /-- It is in use at every event, and its device has not been stopped. -/
  not_stopped {es b} : l.soundWanted = true → l.now.Course es b →
    ∃ u, b.loop.sound = .attached u ∧ .stopped ∉ u.device.history
  /-- To run the session again changes nothing. -/
  run_again (n' : Nat) : (m.run n').outcome = .ok m
  settled {rs m'} : (m.serveAll rs).outcome = .ok m' →
    m'.sound = .closed s ∧ m'.totals.audio = some t.tally

section Teardown

variable {grants : Sound.Allocator} {setup : Sound.Setup} {device : δ}
  {s₀ : Stream (Recorder δ)}

theorem tornDown_of_run (h₀ : (Stream.start grants setup { device }).outcome = .ok s₀)
    {l m : Loop κ (Stream (Recorder δ)) ν} {n : Nat}
    (hl : ∃ bursts, Carried (some s₀) bursts l.sound l.totals.audio)
    (hm : (l.run n).outcome = .ok m) (hend : m.phase = .shuttingDown) :
    ∃ bursts t s, s₀.Ended bursts t s ∧ TornDown l n m t s := by
  obtain ⟨k, hcourse, rfl⟩ := Loop.run_silenced hm hend
  obtain ⟨bursts, hk⟩ := (kept_carried _).course hl hcourse
  obtain ⟨t, answers, hpush, hsound, haudio, hwanted⟩ := hk.of_silenced
  refine ⟨bursts, t, t.close.1, Stream.ended_of_pushAll h₀ hpush, ?_⟩
  exact {
    sound_eq := hsound
    audio_eq := haudio
    exists_end := fun h => ⟨k, hcourse, hwanted (held_soundWanted.course h hcourse), rfl⟩
    -- what is in use at an event has only taken bursts so far
    not_stopped := by
      intro es b h hb
      obtain ⟨bursts, hcarried⟩ := (kept_carried _).course hl hb
      obtain ⟨u, answers, hpush, -, -, hattached⟩ := hcarried.of_silenced
      exact ⟨u, hattached (held_soundWanted.course h hb),
        (Stream.ended_of_pushAll h₀ hpush).stopped_notMem⟩
    -- the state is the last one already, so no pass is made, and there is nothing left to close
    run_again := by
      intro n'
      rw [Loop.outcome_run, (Loop.passes_of_shuttingDown hend n').1]
      change Except.ok k.silenced.concluded = _
      rw [Loop.concluded, if_pos hend]
      exact congrArg Except.ok (Loop.silenced_of_closed hsound)
    settled := (kept_closed _ _).serveAll ⟨hsound, haudio⟩ }

/-- However a stream ends, its device is stopped once and last, and was handed whole periods only.
That is so if its owner closes it, and does with it what he likes later; and if it is attached to a
session, for all requests that are made before and after. The stop of a run that comes to its end
follows its last cycle, the counts that are kept are those from before, and no later request changes
them or reaches the device. -/
theorem teardown_order (h₀ : (Stream.start grants setup { device }).outcome = .ok s₀) :
    (∀ (bursts : List (List Int16)) (later : List Stream.Use), ∃ t s,
      (s₀.useAll (bursts.map .push ++ .close :: later)).outcome = .ok s ∧ s₀.Ended bursts t s) ∧
    ∀ (core : κ) (picture : Option ν) (mailbox : Mailbox) (frameLimit : Option Nat)
        (early late : List Request) (l k m : Loop κ (Stream (Recorder δ)) ν),
      (Loop.create core picture mailbox frameLimit).outcome = .ok l →
      (l.serveAll early).outcome = .ok k →
      ((k.fitted (some (.ok s₀))).serveAll late).outcome = .ok m →
      (∃ bursts t s, s₀.Ended bursts t s ∧
        (m.sound = .attached t ∨ (m.sound = .closed s ∧ m.totals.audio = some t.tally))) ∧
      ∀ (n : Nat) (m' : Loop κ (Stream (Recorder δ)) ν),
        (m.run n).outcome = .ok m' → m'.phase = .shuttingDown →
          ∃ bursts t s, s₀.Ended bursts t s ∧ TornDown m n m' t s := by
  constructor
  · intro bursts later
    obtain ⟨cs, u, answers, hpush, -⟩ := Stream.pushAll_run h₀ bursts
    refine ⟨_, _, ?_, Stream.ended_of_pushAll h₀ hpush⟩
    rw [Stream.useAll_of_pushAll hpush]
    exact Logged.bind_ok (Stream.outcome_use_close _)
      (Stream.useAll_of_stopped (Stream.stopped_close _) later)
  · intro core picture mailbox frameLimit early late l k m hl hk hm
    obtain rfl := Loop.eq_of_create hl
    have hnothing : ∃ bursts, Carried none bursts k.sound k.totals.audio :=
      (kept_carried none).serveAll ⟨[], .absent⟩ hk
    obtain ⟨bursts, hnothing⟩ := hnothing
    obtain ⟨hlink, -, haudio⟩ := hnothing.of_none
    have hcarried : ∃ bursts, Carried (some s₀) bursts m.sound m.totals.audio :=
      (kept_carried _).serveAll ⟨[], Carried.fitted hlink haudio (some (.ok s₀))⟩ hm
    refine ⟨?_, fun n m' hrun hend => tornDown_of_run h₀ hcarried hrun hend⟩
    obtain ⟨bursts, hcarried⟩ := hcarried
    obtain ⟨t, answers, hpush, ⟨hlink, -⟩ | hlink⟩ := hcarried.of_some
    · exact ⟨bursts, t, _, Stream.ended_of_pushAll h₀ hpush, .inl hlink⟩
    · exact ⟨bursts, t, _, Stream.ended_of_pushAll h₀ hpush, .inr hlink⟩

end Teardown

open Sound.Stream (balky shortPeriods start_balky)

/-- A session of three frames, with three samples in each. -/
def briefSession :
    Loop ScriptedCore (Stream (Recorder Sound.ScriptedDevice)) PictureRecording where
  core := { script := [[.audio [1, 2, 3]]], size := (2, 1) }
  picture := none
  frameLimit := some 3

theorem teardown_order_brief :
    ∃ s₀ : Stream (Recorder Sound.ScriptedDevice),
      (Stream.start Sound.Allocator.standard shortPeriods { device := balky }).outcome = .ok s₀ ∧
      (∃ t s, (s₀.useAll [.push [1, 2, 3], .close, .push [4], .close]).outcome = .ok s ∧
        s₀.Ended [[1, 2, 3]] t s) ∧
      ∃ m m', ((briefSession.fitted (some (.ok s₀))).serveAll [.step]).outcome = .ok m ∧
        m.soundWanted = true ∧ (m.run 9).outcome = .ok m' ∧ m'.phase = .shuttingDown ∧
        m'.totals.frames = 3 ∧ ∃ bursts t s, s₀.Ended bursts t s ∧ TornDown m 9 m' t s := by
  obtain ⟨s₀, h₀, -⟩ := start_balky
  have hresult : ((briefSession.fitted ((Stream.start Sound.Allocator.standard shortPeriods
      ({ device := balky } : Recorder Sound.ScriptedDevice)).outcome.toOption.map .ok)).serveAll
        [.step, .run 9]).outcome.toOption.map (fun m => (m.phase, m.totals.frames)) =
      some (.shuttingDown, 3) := by
    decide +kernel
  rw [h₀] at hresult
  obtain ⟨m', hm', hresult⟩ := exists_of_toOption_map hresult
  obtain ⟨hend, hframes⟩ := Prod.mk.inj hresult
  obtain ⟨m, hstep, hm'⟩ := Logged.bind_outcome_eq_ok_iff.mp hm'
  obtain ⟨m', hrun, hm'⟩ := Logged.bind_outcome_eq_ok_iff.mp hm'
  cases hm'
  have hm : ((briefSession.fitted (some (.ok s₀))).serveAll [.step]).outcome = .ok m :=
    Logged.bind_ok hstep rfl
  obtain ⟨huse, hsession⟩ := @teardown_order ScriptedCore Sound.ScriptedDevice PictureRecording
    _ _ _ _ _ _ s₀ h₀
  obtain ⟨-, hdown⟩ := hsession briefSession.core none {} (some 3) [] [.step] _ _ m rfl rfl hm
  exact ⟨s₀, h₀, huse [[1, 2, 3]] [.push [4], .close], m, m', hm,
    held_soundWanted.step rfl hstep, hrun, hend, hframes, hdown 9 m' hrun hend⟩

end EmulatorOutput.Session
