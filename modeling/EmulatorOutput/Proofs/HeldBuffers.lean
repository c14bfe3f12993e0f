import EmulatorOutput.Proofs.Backpressure
import Mathlib.Data.List.Nodup
import Mathlib.Data.Nat.ModEq

/-!
# Held buffers

A device that lets its buffers go in the order it took them holds the buffers that stand just
before the work buffer in the circle, as many as are in flight. The work buffer is not one of
them, so nothing is written to a buffer that the device still holds.
-/

namespace EmulatorOutput.Sound

/-! ## Windows of a circle -/

/-- The `n` places before `work` on a circle, the farthest first. -/
def window (size work n : Nat) : List Nat :=
  (List.range n).map fun j => (work + (size - n) + j) % size

theorem eq_of_add_mod_eq {size a i j : Nat} (hi : i < size) (hj : j < size)
    (h : (a + i) % size = (a + j) % size) : i = j :=
  Nat.ModEq.eq_of_lt_of_lt (Nat.ModEq.add_left_cancel' a h) hi hj

theorem nodup_window {size work n : Nat} (hn : n ≤ size) : (window size work n).Nodup := by
  refine List.Nodup.map_on ?_ List.nodup_range
  intro i hi j hj h
  rw [List.mem_range] at hi hj
  exact eq_of_add_mod_eq (by omega) (by omega) h

theorem notMem_window {size work n : Nat} (hwork : work < size) (hn : n < size) :
    work ∉ window size work n := by
  intro hmem
  obtain ⟨j, hj, h⟩ := List.mem_map.mp hmem
  rw [List.mem_range] at hj
  have hself : (work + (size - n + j)) % size = (work + 0) % size := by
    rw [← Nat.add_assoc, h, Nat.add_zero, Nat.mod_eq_of_lt hwork]
  have hzero := eq_of_add_mod_eq (by omega) (by omega) hself
  omega

/-- The farthest place of a window is the first to leave it. -/
theorem window_succ {size work n : Nat} (hn : n < size) :
    window size work (n + 1) = (work + (size - (n + 1))) % size :: window size work n := by
  rw [window, List.range_succ_eq_map, List.map_cons, List.map_map, window]
  congr 1
  refine List.map_congr_left fun j _ => ?_
  change (work + (size - (n + 1)) + (j + 1)) % size = _
  congr 1
  omega

/-- A step along the circle takes the place that was next into the window. -/
theorem window_step {size work n : Nat} (hwork : work < size) (hn : n < size) :
    window size ((work + 1) % size) (n + 1) = window size work n ++ [work] := by
  have hshift (j : Nat) : ((work + 1) % size + (size - (n + 1)) + j) % size =
      (work + (size - n) + j) % size := by
    rw [Nat.add_assoc, Nat.mod_add_mod]
    congr 1
    omega
  have hlast : (work + (size - n) + n) % size = work := by
    rw [Nat.add_assoc, Nat.sub_add_cancel (Nat.le_of_lt hn), Nat.add_mod_right,
      Nat.mod_eq_of_lt hwork]
  rw [window, window, List.range_succ, List.map_append, List.map_singleton, hshift, hlast]
  congr 1
  exact List.map_congr_left fun j _ => hshift j

/-! ## What a device holds -/

/-- The periods a device holds after an exchange, the oldest first. There are none to tell where
it lets another go than the oldest. -/
def Exchange.held? : List Submission → Exchange → Option (List Submission)
  | held, .submitted period (.ok _) => some (held ++ [period])
  | held, .submitted _ (.error _) => some held
  | [], .waited _ (.ok (.released _)) => none
  | oldest :: held, .waited _ (.ok (.released id)) => if id = oldest.id then some held else none
  | _, .waited _ (.ok .idle) => some []
  | held, .waited _ (.ok .timedOut) => some held
  | held, .waited _ (.error _) => some held
  | held, .stopped => some held

/-- The periods a device holds after a history in which it let them go in the order it took
them. -/
def holdings (history : List Exchange) : Option (List Submission) :=
  history.foldlM Exchange.held? []

theorem holdings_append {history es : List Exchange} {held : List Submission} :
    holdings (history ++ es) = some held ↔
      ∃ before, holdings history = some before ∧ es.foldlM Exchange.held? before = some held := by
  rw [holdings, List.foldlM_append]
  exact Option.bind_eq_some_iff

theorem holdings_concat {history : List Exchange} {before : List Submission} (e : Exchange)
    (h : holdings history = some before) : holdings (history ++ [e]) = Exchange.held? before e := by
  rw [holdings, List.foldlM_append]
  change (holdings history).bind _ = _
  rw [h]
  exact bind_pure (Exchange.held? before e)

/-- What is true of a pool while a device holds periods out of it: they lie in the window before
the work buffer, as they were handed over. -/
structure Guards (pool : StagingPool) (n : Nat) (held : List Submission) : Prop where
  free : n < pool.buffers.size
  ids_eq : held.map Submission.id = window pool.buffers.size pool.work n
  kept : ∀ p ∈ held, ∃ b, pool.buffers[p.id]? = some b ∧ b.memory = p.buffer

namespace Guards

variable {pool : StagingPool} {n : Nat} {held : List Submission}

theorem work_notMem (h : Guards pool n held) : pool.work ∉ held.map Submission.id :=
  h.ids_eq ▸ notMem_window pool.work_lt h.free

theorem length_eq (h : Guards pool n held) : held.length = n := by
  rw [← List.length_map Submission.id, h.ids_eq, window, List.length_map, List.length_range]

/-- Filling the work buffer leaves what is held alone. -/
theorem put (h : Guards pool n held) (start : Nat) (samples : List Int16) :
    Guards (pool.put start samples) n held where
  free := by
    rw [StagingPool.size_put]
    exact h.free
  ids_eq := by
    rw [StagingPool.size_put]
    exact h.ids_eq
  kept := by
    intro p hp
    have hne : p.id ≠ pool.work := fun heq => h.work_notMem (heq ▸ List.mem_map_of_mem hp)
    rw [StagingPool.getElem?_put_of_ne start samples hne]
    exact h.kept p hp

theorem forget (h : Guards pool n held) : Guards pool 0 [] where
  free := Nat.lt_of_le_of_lt (Nat.zero_le n) h.free
  ids_eq := rfl
  kept := fun _ hp => absurd hp List.not_mem_nil

theorem release {oldest : Submission} (h : Guards pool n (oldest :: held)) :
    Guards pool (n - 1) held := by
  obtain ⟨m, rfl⟩ : ∃ m, n = m + 1 := ⟨held.length, h.length_eq.symm⟩
  have hfree := h.free
  have hids := h.ids_eq
  rw [window_succ (by omega), List.map_cons] at hids
  exact {
    free := by omega
    ids_eq := (List.cons.inj hids).2
    kept := fun p hp => h.kept p (List.mem_cons_of_mem _ hp) }

/-- The work buffer joins what is held when it is accepted, and the next one takes its place. -/
theorem accept (h : Guards pool n held) (hfree : n + 1 < pool.buffers.size) {p : Submission}
    (hid : p.id = pool.work) (hbuffer : p.buffer = pool.workBuffer.memory) :
    Guards pool.rotate (n + 1) (held ++ [p]) where
  free := hfree
  ids_eq := by
    rw [List.map_append, h.ids_eq, List.map_singleton, hid]
    exact (window_step pool.work_lt h.free).symm
  kept := by
    intro q hq
    obtain hold | hnew := List.mem_append.mp hq
    · exact h.kept q hold
    · rw [List.mem_singleton.mp hnew, hid, hbuffer]
      exact ⟨pool.workBuffer, Array.getElem?_eq_getElem pool.work_lt, rfl⟩

theorem passage (h : Guards pool n held) (limit : Option Nat) (passage : Passage)
    {held' : List Submission}
    (hheld : (passage.exchanges limit).foldlM Exchange.held? held = some held') :
    Guards pool (passage.inFlight n) held' := by
  cases passage with
  | direct =>
    cases hheld
    exact h
  | released id =>
    cases held with
    | nil => cases hheld
    | cons oldest held =>
      have hstep : Exchange.held? (oldest :: held) (.waited limit (.ok (.released id))) =
          some held' := (bind_pure _).symm.trans hheld
      rw [Exchange.held?] at hstep
      split at hstep
      · cases hstep
        exact h.release
      · cases hstep
  | idle =>
    cases hheld
    exact h.forget

theorem closing (h : Guards pool n held) (limit : Option Nat) (c : Closing)
    (hfree : c.inFlight n < pool.buffers.size)
    (hperiod : ∀ p ∈ c.period?, p.id = pool.work ∧ p.buffer = pool.workBuffer.memory)
    {held' : List Submission}
    (hheld : (c.exchanges limit).foldlM Exchange.held? held = some held') :
    Guards (if c.accepted then pool.rotate else pool) (c.inFlight n) held' := by
  cases c with
  | late cause =>
    cases cause with
    | none =>
      cases hheld
      exact h
    | some e =>
      cases hheld
      exact h
  | offered passage period answer =>
    rw [Closing.exchanges, List.foldlM_append] at hheld
    obtain ⟨between, hpassage, hoffer⟩ := Option.bind_eq_some_iff.mp hheld
    have hbetween := h.passage limit passage hpassage
    obtain ⟨hid, hbuffer⟩ := hperiod period rfl
    cases answer with
    | ok =>
      cases hoffer
      exact hbetween.accept hfree hid hbuffer
    | error e =>
      cases hoffer
      exact hbetween

end Guards

namespace Stream

variable {δ : Type} [Device δ] {setup : Setup} {device : δ} {s₀ s : Stream (Recorder δ)}
  {xs : List Int16} {cs : List Closing}

theorem Run.buffers_size (run : Run s₀ xs cs s) :
    s.pool.buffers.size = s₀.pool.buffers.size := by
  induction run with
  | start => rfl
  | fill run x hlt ih => rwa [put, StagingPool.size_put]
  | close run x hfull hc ih =>
    rw [buffers_after, put, StagingPool.size_put]
    exact ih

/-- The buffers a device holds stay as they were handed over. -/
theorem Run.guards (h₀ : Opened setup { device } s₀) (run : Run s₀ xs cs s)
    {held : List Submission} (h : holdings s.device.history = some held) :
    Guards s.pool s.inFlight held := by
  induction run generalizing held with
  | start =>
    rw [h₀.history_eq] at h
    cases h
    rw [h₀.inFlight_eq]
    exact {
      free := Nat.lt_of_le_of_lt (Nat.zero_le _) s₀.pool.work_lt
      ids_eq := rfl
      kept := fun _ hp => absurd hp List.not_mem_nil }
  | fill run x hlt ih => exact (ih h).put _ _
  | @close xs cs s c device run x hfull hc ih =>
    have hbound := (Run.close run x hfull hc).inFlight_le h₀
    obtain ⟨before, hbefore, hheld⟩ := holdings_append.mp (hc.history_put ▸ h)
    have hput : Guards (s.put [x]).pool s.inFlight before := (ih hbefore).put _ _
    refine hput.closing s.setup.waitLimit c ?_ ?_ hheld
    · change c.inFlight s.inFlight ≤ _ at hbound
      rw [put, StagingPool.size_put, run.buffers_size, h₀.buffers_size, ← h₀.setup_eq]
      exact Nat.lt_succ_of_le hbound
    · intro p hp
      rw [hc.period_eq p hp]
      exact ⟨rfl, rfl⟩

end Stream

/-! ## Devices that let go in order -/

/-- What the answer to a submission makes of the buffers held. -/
inductive Takes (held : List Nat) (id : Nat) : Except Failure Unit → List Nat → Prop where
  | accepted : Takes held id (.ok ()) (held ++ [id])
  | refused (cause) : Takes held id (.error cause) held

/-- What the answer to a wait makes of the buffers held, the oldest first: it goes, or all go. -/
inductive Lets : List Nat → Except Failure WaitOutcome → List Nat → Prop where
  | released (id held) : Lets (id :: held) (.ok (.released id)) held
  | idle (held) : Lets held (.ok .idle) []
  | timedOut (held) : Lets held (.ok .timedOut) held
  | failed (cause held) : Lets held (.error cause) held

/-- A device with a view of the buffers it holds, that lets them go in the order it took them. -/
structure FirstOut {δ : Type} [Device δ] (view : δ → List Nat) : Prop where
  takes : ∀ d p, Takes (view d) p.id (Device.submit d p).2 (view (Device.submit d p).1)
  lets : ∀ d limit, Lets (view d) (Device.wait d limit).2 (view (Device.wait d limit).1)

/-- The holdings told by the history of a device are the ones in its view. -/
def Told {δ : Type} (view : δ → List Nat) (r : Recorder δ) : Prop :=
  ∃ held, holdings r.history = some held ∧ held.map Submission.id = view r.device

namespace FirstOut

variable {δ : Type} [Device δ] {view : δ → List Nat} {r r' : Recorder δ}

theorem told_submit (law : FirstOut view) (h : Told view r) (p : Submission) :
    Told view (Device.submit r p).1 := by
  obtain ⟨held, hheld, hview⟩ := h
  have htakes := law.takes r.device p
  rw [Told, Recorder.history_submit, holdings_concat _ hheld]
  change ∃ held', Exchange.held? held (.submitted p (Device.submit r.device p).2) = some held' ∧
    held'.map Submission.id = view (Device.submit r.device p).1
  rw [← hview] at htakes
  generalize (Device.submit r.device p).2 = answer, view (Device.submit r.device p).1 = after
    at htakes
  cases htakes with
  | accepted => exact ⟨held ++ [p], rfl, List.map_append⟩
  | refused cause => exact ⟨held, rfl, rfl⟩

theorem told_wait (law : FirstOut view) (h : Told view r) (limit : Option Nat) :
    Told view (Device.wait r limit).1 := by
  obtain ⟨held, hheld, hview⟩ := h
  have hlets := law.lets r.device limit
  rw [Told, Recorder.history_wait, holdings_concat _ hheld]
  change ∃ held', Exchange.held? held (.waited limit (Device.wait r.device limit).2) = some held' ∧
    held'.map Submission.id = view (Device.wait r.device limit).1
  rw [← hview] at hlets
  generalize (Device.wait r.device limit).2 = answer, view (Device.wait r.device limit).1 = after,
    hids : held.map Submission.id = ids at hlets
  cases hlets with
  | released id =>
    obtain ⟨oldest, held, rfl, rfl, hafter⟩ := List.map_eq_cons_iff.mp hids
    exact ⟨held, if_pos rfl, hafter⟩
  | idle => exact ⟨[], by cases held <;> rfl, rfl⟩
  | timedOut => exact ⟨held, by cases held <;> rfl, hids⟩
  | failed cause => exact ⟨held, by cases held <;> rfl, hids⟩

theorem told (law : FirstOut view) (h : Told view r) (served : Served r r') : Told view r' := by
  induction served with
  | refl => exact h
  | submit served p ih => exact law.told_submit ih p
  | wait served limit ih => exact law.told_wait ih limit

end FirstOut

theorem ScriptedDevice.firstOut : FirstOut ScriptedDevice.held where
  takes := by
    rintro ⟨waits, submits, held⟩ p
    rcases submits with _ | ⟨_ | cause, submits⟩
    · exact .accepted
    · exact .accepted
    · exact .refused cause
  lets := by
    rintro ⟨waits, submits, held⟩ limit
    rcases waits with _ | ⟨cue, waits⟩
    · cases held with
      | nil => exact .idle []
      | cons id held => exact .released id held
    · cases cue with
      | auto =>
        cases held with
        | nil => exact .idle []
        | cons id held => exact .released id held
      | idle => exact .idle held
      | timeout => exact .timedOut held
      | fail cause => exact .failed cause held

namespace Stream

variable {δ : Type} [Device δ] {grants : Allocator} {setup : Setup} {device : δ}
  {s₀ : Stream (Recorder δ)}

/-- The producer never writes to a buffer that the device still holds. While the device lets its
buffers go in the order it took them, it holds those that stand just before the work buffer in
the circle, as many as are in flight, and their bytes are the ones it was handed. -/
theorem session_guards_held_buffers (h₀ : (start grants setup { device }).outcome = .ok s₀)
    (bursts : List (List Int16)) :
    ∃ (s : Stream (Recorder δ)) (answers : List Nat),
      (s₀.pushAll bursts).outcome = .ok (s, answers) ∧
      s.pool.buffers.size = setup.queueDepth.toNat + 1 ∧
      s.inFlight ≤ setup.queueDepth.toNat ∧
      (∀ held, holdings s.device.history = some held →
        held.map Submission.id = (List.range s.inFlight).map (fun j =>
          (s.pool.work + (setup.queueDepth.toNat + 1 - s.inFlight) + j) %
            (setup.queueDepth.toNat + 1)) ∧
        (held.map Submission.id).Nodup ∧ s.pool.work ∉ held.map Submission.id ∧
        ∀ p ∈ held, ∃ b, s.pool.buffers[p.id]? = some b ∧ b.bytes = p.buffer.bytes) ∧
      ∀ view : δ → List Nat, FirstOut view → view device = [] →
        ∃ held, holdings s.device.history = some held ∧
          held.map Submission.id = view s.device.device := by
  have hopened := start_spec h₀
  obtain ⟨cs, s, answers, hpush, run, -⟩ := pushAll_run h₀ bursts
  have hsame := run.buffers_size.trans hopened.buffers_size
  have hbound := run.inFlight_le hopened
  rw [hopened.setup_eq] at hbound
  refine ⟨s.relabel bursts.flatten.length false, answers, hpush, hsame, hbound, ?_, ?_⟩
  · intro held hheld
    have hguards := run.guards hopened hheld
    have hids := hguards.ids_eq
    refine ⟨hsame ▸ hids, ?_, hguards.work_notMem, ?_⟩
    · rw [hids]
      exact nodup_window (Nat.le_of_lt hguards.free)
    · intro p hp
      obtain ⟨b, hb, hmemory⟩ := hguards.kept p hp
      exact ⟨b, hb, congrArg Memory.bytes hmemory⟩
  · intro view law hempty
    have htold : Told view s₀.device := by
      rw [hopened.device_eq]
      exact ⟨[], rfl, hempty.symm⟩
    exact law.told htold run.served

theorem session_guards_held_buffers_balky :
    ∃ (s₀ s : Stream (Recorder ScriptedDevice)) (answers : List Nat),
      (start Allocator.standard shortPeriods { device := balky }).outcome = .ok s₀ ∧
      (s₀.pushAll [[1, 2, 3], [], [4, 5, 6, 7]]).outcome = .ok (s, answers) ∧
      s.device.device.held =
        (List.range s.inFlight).map (fun j => (s.pool.work + (2 - s.inFlight) + j) % 2) ∧
      s.device.device.held.Nodup ∧ s.pool.work ∉ s.device.device.held := by
  obtain ⟨s₀, h₀, -⟩ := start_balky
  obtain ⟨s, answers, hpush, -, -, hguards, hview⟩ :=
    session_guards_held_buffers h₀ [[1, 2, 3], [], [4, 5, 6, 7]]
  obtain ⟨held, hheld, hids⟩ := hview ScriptedDevice.held ScriptedDevice.firstOut rfl
  obtain ⟨hwindow, hnodup, hwork, -⟩ := hguards held hheld
  rw [hids] at hwindow hnodup hwork
  exact ⟨s₀, s, answers, h₀, hpush, hwindow, hnodup, hwork⟩

end Stream

end EmulatorOutput.Sound
