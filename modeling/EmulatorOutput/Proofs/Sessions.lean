import EmulatorOutput.Proofs.BurstSplitting
import EmulatorOutput.Proofs.Opening
import EmulatorOutput.Proofs.PeriodClosing
import EmulatorOutput.Sound.ScriptedDevice
import Mathlib.Data.List.Induction

/-!
# Sessions

A session takes its samples one by one: each is put into the work buffer, and the one that fills
it closes the period. `Run` is the record of a session, with the samples taken and the closings.
From a state that is `Ready` every burst is taken to its end, so what holds of every run holds of
every reachable state.
-/

namespace EmulatorOutput.Sound.Stream

variable {δ : Type}

/-- A state in which there is room for a source sample. -/
structure Ready (s : Stream δ) : Prop where
  depth_pos : 0 < s.setup.queueDepth.toNat
  dataSize_eq : s.setup.dataSize = 2 * s.capacity
  factor_dvd_capacity : s.conversion.factor ∣ s.capacity
  factor_dvd_offset : s.conversion.factor ∣ s.offset
  offset_lt : s.offset < s.capacity
  capacity_le : ∀ b ∈ s.pool.buffers, s.capacity ≤ b.sampleCount

theorem Opened.ready {setup : Setup} {device : δ} {s : Stream δ} (h : Opened setup device s) :
    s.Ready := by
  have hcapacity : s.capacity = setup.dataSize / 2 :=
    Except.ok.inj (h.capacity_eq.symm.trans h.accepted.periodSamples_eq)
  have hdouble : 2 * s.capacity = setup.dataSize := hcapacity ▸ h.accepted.two_mul_dataSize_div
  obtain ⟨size, hsize, hblank⟩ := h.blank
  have hle : setup.dataSize ≤ size := (isLeast_alignUp h.accepted.alignment hsize).1.2
  have hpos := h.accepted.nonempty
  exact {
    depth_pos := h.setup_eq ▸ h.accepted.depth_pos
    dataSize_eq := h.setup_eq ▸ hdouble.symm
    factor_dvd_capacity := hcapacity ▸ h.accepted.factor_dvd h.conversion_eq
    factor_dvd_offset := h.offset_eq ▸ Nat.dvd_zero _
    offset_lt := by
      rw [h.offset_eq]
      omega
    capacity_le := by
      intro b hb
      rw [StagingBuffer.sampleCount, StagingBuffer.size, hblank b hb]
      change s.capacity ≤ size / 2
      omega }

theorem Opened.history_eq {setup : Setup} {device : δ} {s : Stream (Recorder δ)}
    (h : Opened setup { device } s) : s.device.history = [] := by
  rw [h.device_eq]
  rfl

theorem workBuffer_mem (s : Stream δ) : s.pool.workBuffer ∈ s.pool.buffers := Array.getElem_mem _

namespace Ready

variable {s : Stream δ} (h : s.Ready)

include h

theorem offset_add_factor_le : s.offset + s.conversion.factor ≤ s.capacity := by
  obtain ⟨k, hk⟩ := h.factor_dvd_offset
  obtain ⟨m, hm⟩ := h.factor_dvd_capacity
  have hlt := h.offset_lt
  rw [hk, hm] at hlt ⊢
  have hkm : k < m := Nat.lt_of_mul_lt_mul_left hlt
  calc s.conversion.factor * k + s.conversion.factor
      = s.conversion.factor * (k + 1) := (Nat.mul_succ _ _).symm
    _ ≤ s.conversion.factor * m := Nat.mul_le_mul_left _ hkm

theorem room_pos : 0 < s.room := by
  have := h.offset_add_factor_le
  exact Nat.div_pos (by omega) (factor_pos _)

/-- What there is room for ends within the period. -/
theorem offset_put_take_le (xs : List Int16) : (s.put (xs.take s.room)).offset ≤ s.capacity := by
  have hlt := h.offset_lt
  have hroom : s.conversion.factor * s.room ≤ s.capacity - s.offset := Nat.mul_div_le _ _
  have htake : s.conversion.factor * (xs.take s.room).length ≤ s.conversion.factor * s.room :=
    Nat.mul_le_mul_left _ (List.length_take_le _ _)
  change s.offset + s.conversion.factor * (xs.take s.room).length ≤ s.capacity
  omega

theorem fill_ok (xs : List Int16) :
    s.fill xs = .ok (s.put (xs.take s.room), (xs.take s.room).length) := by
  have hcount : s.offset + s.conversion.factor * (xs.take s.room).length ≤
      s.pool.workBuffer.sampleCount :=
    Nat.le_trans (h.offset_put_take_le xs) (h.capacity_le _ s.workBuffer_mem)
  rw [fill_eq, if_pos (Nat.le_of_lt h.offset_lt), if_pos hcount]

theorem take_room_singleton (x : Int16) : [x].take s.room = [x] :=
  List.take_of_length_le h.room_pos

theorem fill_singleton (x : Int16) : s.fill [x] = .ok (s.put [x], 1) := by
  have hfill := h.fill_ok [x]
  rwa [h.take_room_singleton] at hfill

theorem offset_put_singleton_le (x : Int16) : (s.put [x]).offset ≤ s.capacity := by
  have hle := h.offset_put_take_le [x]
  rwa [h.take_room_singleton] at hle

theorem capacity_le_put (xs : List Int16) :
    ∀ b ∈ (s.put xs).pool.buffers, s.capacity ≤ b.sampleCount :=
  StagingPool.forall_mem_put h.capacity_le fun hwork => by rwa [StagingBuffer.sampleCount_put]

/-- Samples that leave room for another. -/
theorem put {xs : List Int16} (hlt : (s.put xs).offset < s.capacity) : (s.put xs).Ready where
  depth_pos := h.depth_pos
  dataSize_eq := h.dataSize_eq
  factor_dvd_capacity := h.factor_dvd_capacity
  factor_dvd_offset := Nat.dvd_add h.factor_dvd_offset (Nat.dvd_mul_right _ _)
  offset_lt := hlt
  capacity_le := h.capacity_le_put xs

end Ready

/-- A closing keeps all buffers as they are. -/
theorem buffers_after (s : Stream (Recorder δ)) (c : Closing) (device : Recorder δ) :
    (s.after c device).pool.buffers = s.pool.buffers := by
  rw [after]
  split <;> rfl

theorem Ready.after_put {s : Stream (Recorder δ)} (h : s.Ready) (xs : List Int16) (c : Closing)
    (device : Recorder δ) : ((s.put xs).after c device).Ready where
  depth_pos := h.depth_pos
  dataSize_eq := h.dataSize_eq
  factor_dvd_capacity := h.factor_dvd_capacity
  factor_dvd_offset := Nat.dvd_zero _
  offset_lt := Nat.lt_of_le_of_lt (Nat.zero_le _) h.offset_lt
  capacity_le := by
    rw [buffers_after]
    exact h.capacity_le_put xs

variable [Device δ]

/-- The record of a session: the source samples taken, and the closings of its periods. -/
inductive Run (s₀ : Stream (Recorder δ)) :
    List Int16 → List Closing → Stream (Recorder δ) → Prop where
  | start : Run s₀ [] [] s₀
  | fill {xs cs s} (run : Run s₀ xs cs s) (x : Int16) (hlt : (s.put [x]).offset < s.capacity) :
      Run s₀ (xs ++ [x]) cs (s.put [x])
  | close {xs cs s c device} (run : Run s₀ xs cs s) (x : Int16)
      (hfull : (s.put [x]).offset = s.capacity) (hc : (s.put [x]).Closes c device) :
      Run s₀ (xs ++ [x]) (cs ++ [c]) ((s.put [x]).after c device)

variable {s₀ s : Stream (Recorder δ)} {xs : List Int16} {cs : List Closing}

theorem Closes.history_put {c : Closing} {x : Int16} {device : Recorder δ}
    (hc : (s.put [x]).Closes c device) :
    device.history = s.device.history ++ c.exchanges s.setup.waitLimit :=
  hc.history_eq

theorem Run.ready (h₀ : s₀.Ready) (run : Run s₀ xs cs s) : s.Ready := by
  induction run with
  | start => exact h₀
  | fill run x hlt ih => exact ih.put hlt
  | close run x hfull hc ih => exact ih.after_put [x] _ _

/-- A session keeps its set-up. -/
theorem Run.fixed (run : Run s₀ xs cs s) :
    s.setup = s₀.setup ∧ s.conversion = s₀.conversion ∧ s.capacity = s₀.capacity := by
  induction run with
  | start => exact ⟨rfl, rfl, rfl⟩
  | fill run x hlt ih => exact ih
  | close run x hfull hc ih => exact ih

/-- The device has seen the closings one after another, and nothing else. -/
theorem Run.history_eq (run : Run s₀ xs cs s) :
    s.device.history =
      s₀.device.history ++ cs.flatMap fun c => c.exchanges s₀.setup.waitLimit := by
  induction run with
  | start => exact (List.append_nil _).symm
  | fill run x hlt ih => exact ih
  | close run x hfull hc ih =>
    have hsetup := run.fixed.1
    calc _ = _ := hc.history_eq
      _ = _ := by
        rw [List.flatMap_append, ← List.append_assoc, ← ih, List.flatMap_singleton, ← hsetup]
        rfl

theorem Run.served (run : Run s₀ xs cs s) : Served s₀.device s.device := by
  induction run with
  | start => exact .refl
  | fill run x hlt ih => exact ih
  | close run x hfull hc ih => exact ih.trans hc.served

theorem Run.length_eq {setup : Setup} {device : Recorder δ} (h₀ : Opened setup device s₀)
    (run : Run s₀ xs cs s) :
    (s₀.conversion.apply xs).length = s₀.capacity * cs.length + s.offset := by
  induction run with
  | start => simp [h₀.offset_eq]
  | @fill xs cs s run x hlt ih =>
    have hfactor : s.conversion.factor = s₀.conversion.factor := by rw [run.fixed.2.1]
    rw [Conversion.apply_append, List.length_append, ih, Nat.add_assoc, Conversion.length_apply,
      ← hfactor]
    rfl
  | @close xs cs s c device run x hfull hc ih =>
    have hfactor : s.conversion.factor = s₀.conversion.factor := by rw [run.fixed.2.1]
    have hcapacity : s.capacity = s₀.capacity := run.fixed.2.2
    have hlast : s.offset + s₀.conversion.factor * 1 = s₀.capacity :=
      hfactor ▸ hcapacity ▸ hfull
    rw [Conversion.apply_append, List.length_append, ih, Conversion.length_apply,
      List.length_singleton, Nat.add_assoc, hlast, List.length_append, List.length_singleton,
      Nat.mul_succ]
    rfl

/-- The stream of device samples is cut into periods of one capacity each. -/
theorem Run.periods_eq {setup : Setup} {device : Recorder δ} (h₀ : Opened setup device s₀)
    (run : Run s₀ xs cs s) :
    (s₀.conversion.apply xs).length / s₀.capacity = cs.length ∧
      (s₀.conversion.apply xs).length % s₀.capacity = s.offset := by
  have hlt : s.offset < s₀.capacity := run.fixed.2.2 ▸ (run.ready h₀.ready).offset_lt
  rw [run.length_eq h₀]
  constructor
  · rw [Nat.mul_add_div (by omega), Nat.div_eq_of_lt hlt, Nat.add_zero]
  · rw [Nat.mul_add_mod, Nat.mod_eq_of_lt hlt]

theorem Ready.consume_singleton {s : Stream δ} (h : s.Ready) (x : Int16) :
    s.consume [x] = (s.put [x]).closeIfFull := by
  rw [consume_of_fill (h.fill_singleton x)]
  simp

theorem Ready.consume_of_lt {s : Stream δ} (h : s.Ready) {x : Int16}
    (hlt : (s.put [x]).offset < s.capacity) : s.consume [x] = pure (s.put [x], 0) := by
  rw [h.consume_singleton, closeIfFull_of_lt hlt]

theorem Ready.consume_of_full {s : Stream (Recorder δ)} (h : s.Ready) {x : Int16} {c : Closing}
    {device : Recorder δ} (hfull : (s.put [x]).offset = s.capacity)
    (hc : (s.put [x]).Closes c device) : (s.consume [x]).outcome =
      .ok ((s.put [x]).after c device, if c.accepted then 1 else 0) := by
  rw [h.consume_singleton]
  exact hc.closeIfFull_eq hfull

/-- What is on record is consumed to its end, and the count is that of the periods the device
took. -/
theorem Run.consume_eq (h₀ : s₀.Ready) (run : Run s₀ xs cs s) :
    (s₀.consume xs).outcome = .ok (s, cs.countP Closing.accepted) := by
  induction run with
  | start =>
    rw [consume_nil]
    rfl
  | @fill xs cs s run x hlt ih =>
    have hstep : (s.consume [x]).outcome = .ok (s.put [x], 0) := by
      rw [(run.ready h₀).consume_of_lt hlt]
      rfl
    rw [consume_append]
    exact Logged.bind_ok ih (Logged.bind_ok hstep rfl)
  | close run x hfull hc ih =>
    have hstep := (run.ready h₀).consume_of_full hfull hc
    rw [consume_append, List.countP_append, List.countP_singleton]
    exact Logged.bind_ok ih (Logged.bind_ok hstep rfl)

/-- Every burst has its record. -/
theorem Ready.exists_run (h₀ : s₀.Ready) (xs : List Int16) : ∃ cs s, Run s₀ xs cs s := by
  induction xs using List.reverseRecOn with
  | nil => exact ⟨[], s₀, .start⟩
  | append_singleton xs x ih =>
    obtain ⟨cs, s, run⟩ := ih
    have hready := run.ready h₀
    obtain hlt | hfull := Nat.lt_or_eq_of_le (hready.offset_put_singleton_le x)
    · exact ⟨cs, s.put [x], run.fill x hlt⟩
    · obtain ⟨c, device, hc⟩ := closePeriod_spec (s.put [x]) hready.depth_pos
      exact ⟨cs ++ [c], (s.put [x]).after c device, run.close x hfull hc⟩

/-- The period of every closing on record was closed by a sample, in a state on record. -/
theorem Run.exists_closing (run : Run s₀ xs cs s) {before after : List Closing} {c : Closing}
    (h : cs = before ++ c :: after) :
    ∃ ys x zs t device, xs = ys ++ x :: zs ∧ Run s₀ ys before t ∧
      (t.put [x]).offset = t.capacity ∧ (t.put [x]).Closes c device := by
  induction run generalizing after with
  | start => exact absurd h (by simp)
  | fill run x hlt ih =>
    obtain ⟨ys, y, zs, t, device, rfl, hrun, hfull, hc⟩ := ih h
    exact ⟨ys, y, zs ++ [x], t, device, by simp, hrun, hfull, hc⟩
  | @close xs cs s last device run x hfull hc ih =>
    obtain rfl | ⟨after, d, rfl⟩ := List.eq_nil_or_concat after
    · obtain ⟨rfl, hlast⟩ := List.append_inj' h rfl
      cases hlast
      exact ⟨xs, x, [], s, device, rfl, run, hfull, hc⟩
    · have hcut : cs = before ++ c :: after := by
        rw [List.concat_eq_append, ← List.cons_append, ← List.append_assoc] at h
        exact List.append_inj_left' h rfl
      obtain ⟨ys, y, zs, t, device, rfl, hrun, hfull, hc⟩ := ih hcut
      exact ⟨ys, y, zs ++ [x], t, device, by simp, hrun, hfull, hc⟩

theorem Opened.push_eq {setup : Setup} {device : Recorder δ} (h₀ : Opened setup device s₀)
    (run : Run s₀ xs cs s) :
    (s₀.push xs).outcome = .ok (s.relabel xs.length false, cs.countP Closing.accepted) := by
  rw [push_of_running h₀.stopped_eq, h₀.tally_eq]
  refine Logged.bind_ok (run.consume_eq h₀.ready) ?_
  rw [Nat.zero_add]
  rfl

/-- The sample that fills a period closes it. -/
theorem Opened.push_closing {setup : Setup} {device device' : Recorder δ} {c : Closing}
    (h₀ : Opened setup device s₀) (run : Run s₀ xs cs s) (x : Int16)
    (hfull : (s.put [x]).offset = s.capacity) (hc : (s.put [x]).Closes c device') :
    ((s.relabel xs.length false).push [x]).outcome =
      .ok (((s.put [x]).after c device').relabel (xs.length + 1) false,
        if c.accepted then 1 else 0) := by
  have hrunning : (s.relabel xs.length false).stopped = false := rfl
  have hstep := (run.ready h₀.ready).consume_of_full hfull hc
  rw [push_of_running hrunning, consume_relabel]
  exact Logged.bind_ok (Logged.bind_ok hstep rfl) rfl

/-- Every sequence of bursts on a new session is taken, and is on record. -/
theorem pushAll_run {grants : Allocator} {setup : Setup} {device : δ} {s₀ : Stream (Recorder δ)}
    (h₀ : (start grants setup { device }).outcome = .ok s₀) (bursts : List (List Int16)) :
    ∃ cs s answers, (s₀.pushAll bursts).outcome =
        .ok (s.relabel bursts.flatten.length false, answers) ∧
      Run s₀ bursts.flatten cs s ∧ answers.sum = cs.countP Closing.accepted := by
  have hopened := start_spec h₀
  obtain ⟨cs, s, run⟩ := hopened.ready.exists_run bursts.flatten
  have hpush := hopened.push_eq run
  rw [← pushAll_eq_push_flatten, Logged.bind_outcome_eq_ok_iff] at hpush
  obtain ⟨⟨s', answers⟩, hall, heq⟩ := hpush
  obtain ⟨rfl, hsum⟩ := Prod.mk.inj (Except.ok.inj heq)
  exact ⟨cs, s, answers, hall, run, hsum⟩

/-- What is reached by bursts is on record. -/
theorem exists_run_of_pushAll {grants : Allocator} {setup : Setup} {device : δ}
    {bursts : List (List Int16)} {answers : List Nat}
    (h₀ : (start grants setup { device }).outcome = .ok s₀)
    (h : (s₀.pushAll bursts).outcome = .ok (s, answers)) :
    ∃ cs t, Run s₀ bursts.flatten cs t ∧ s = t.relabel bursts.flatten.length false := by
  obtain ⟨cs, t, answers', hpush, run, -⟩ := pushAll_run h₀ bursts
  exact ⟨cs, t, run, congrArg Prod.fst (Except.ok.inj (h.symm.trans hpush))⟩

omit [Device δ] in
theorem Ready.relabel {s : Stream δ} (h : s.Ready) (accepted : Nat) (stopped : Bool) :
    (s.relabel accepted stopped).Ready where
  depth_pos := h.depth_pos
  dataSize_eq := h.dataSize_eq
  factor_dvd_capacity := h.factor_dvd_capacity
  factor_dvd_offset := h.factor_dvd_offset
  offset_lt := h.offset_lt
  capacity_le := h.capacity_le

theorem Ready.push_ready (h : s.Ready) (xs : List Int16) :
    ∃ s₁ n, (s.push xs).outcome = .ok (s₁, n) ∧ s₁.Ready := by
  cases hs : s.stopped with
  | true => exact ⟨s, 0, by rw [push_of_stopped hs]; rfl, h⟩
  | false =>
    obtain ⟨cs, s₁, run⟩ := h.exists_run xs
    refine ⟨s₁.relabel (s.tally.samplesAccepted + xs.length) false,
      cs.countP Closing.accepted, ?_, (run.ready h).relabel _ _⟩
    rw [push_of_running hs]
    exact Logged.bind_ok (run.consume_eq h) rfl

/-- Chunking does not matter. In every reachable state a burst and the same burst in two parts
come to the same state, the exchanges with the device included, and to the same count. -/
theorem push_append_of_reachable {grants : Allocator} {setup : Setup} {device : δ}
    {bursts : List (List Int16)} {answers : List Nat}
    (h₀ : (start grants setup { device }).outcome = .ok s₀)
    (h : (s₀.pushAll bursts).outcome = .ok (s, answers)) (xs ys : List Int16) :
    ∃ (s₁ s₂ : Stream (Recorder δ)) (m n : Nat),
      (s.push xs).outcome = .ok (s₁, m) ∧ (s₁.push ys).outcome = .ok (s₂, n) ∧
      (s.push (xs ++ ys)).outcome = .ok (s₂, m + n) ∧
      (s.push (xs ++ ys)).notices = (s.push xs).notices ++ (s₁.push ys).notices := by
  obtain ⟨cs, t, answers', hall, run, -⟩ := pushAll_run h₀ bursts
  have hst : s = t.relabel bursts.flatten.length false :=
    congrArg Prod.fst (Except.ok.inj (h.symm.trans hall))
  have hready : s.Ready := hst ▸ (run.ready (start_spec h₀).ready).relabel _ _
  obtain ⟨s₁, m, hxs, hready₁⟩ := hready.push_ready xs
  obtain ⟨s₂, n, hys, -⟩ := hready₁.push_ready ys
  have hall : s.push (xs ++ ys) =
      ⟨.ok (s₂, m + n), (s.push xs).notices ++ (s₁.push ys).notices⟩ := by
    rw [push_append, Logged.bind_of_ok hxs, Logged.bind_of_ok hys, Logged.notices_pure,
      List.append_nil]
    rfl
  exact ⟨s₁, s₂, m, n, hxs, hys, congrArg Logged.outcome hall, congrArg Logged.notices hall⟩

/-- Four device samples a period, made of a mono source. -/
def shortPeriods : Setup where
  format := { sampleRate := 80 }
  alignment := 16
  source := .mono

/-- Takes its first period, refuses the second, and is late with its first wait. -/
def balky : ScriptedDevice where
  waits := [.timeout]
  submits := [none, some (.deviceError "busy")]

theorem start_balky : ∃ s₀ : Stream (Recorder ScriptedDevice),
    (start Allocator.standard shortPeriods { device := balky }).outcome = .ok s₀ ∧
      s₀.conversion = .duplicateMono ∧ s₀.capacity = 4 := ⟨_, rfl, rfl, rfl⟩

theorem push_append_of_reachable_balky :
    ∃ (s₀ s s₁ s₂ : Stream (Recorder ScriptedDevice)) (answers : List Nat) (m n : Nat),
      (start Allocator.standard shortPeriods { device := balky }).outcome = .ok s₀ ∧
      (s₀.pushAll [[1, 2, 3]]).outcome = .ok (s, answers) ∧
      (s.push [4]).outcome = .ok (s₁, m) ∧ (s₁.push [5, 6, 7]).outcome = .ok (s₂, n) ∧
      (s.push [4, 5, 6, 7]).outcome = .ok (s₂, m + n) := by
  obtain ⟨s₀, h₀, -⟩ := start_balky
  obtain ⟨-, s, answers, h, -⟩ := pushAll_run h₀ [[1, 2, 3]]
  obtain ⟨s₁, s₂, m, n, hxs, hys, hall, -⟩ := push_append_of_reachable h₀ h [4] [5, 6, 7]
  exact ⟨s₀, _, s₁, s₂, answers, m, n, h₀, h, hxs, hys, hall⟩

end EmulatorOutput.Sound.Stream
