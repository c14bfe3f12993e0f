import EmulatorOutput.Proofs.HeldBuffers
import EmulatorOutput.Proofs.SplitTransfer

/-!
# Submitted periods

What a device is handed is well formed. A period lies at the front of its buffer, and the buffer
is as long as the alignment asks for. No write reaches beyond the period, so what is behind it has
been blank since the buffers were allocated.
-/

namespace EmulatorOutput.Sound

namespace StagingBuffer

/-- A buffer of some size that is blank behind its first bytes. -/
structure Padded (b : StagingBuffer) (dataSize size : Nat) : Prop where
  size_eq : b.size = size
  blank : ∀ i, dataSize ≤ i → i < size → b.bytes[i]? = some 0

theorem padded_of_blank {b : StagingBuffer} {dataSize size : Nat}
    (h : b.memory = Memory.blank size) : b.Padded dataSize size where
  size_eq := by simp [StagingBuffer.size, h, Memory.blank]
  blank := by
    intro i _ hi
    simp [bytes, h, hi]

/-- A write that ends within the first bytes leaves the padding alone. -/
theorem Padded.put {b : StagingBuffer} {dataSize size start : Nat} {samples : List Int16}
    (h : b.Padded dataSize size) (hend : 2 * (start + samples.length) ≤ dataSize) :
    (b.put start samples).Padded dataSize size where
  size_eq := by simp [h.size_eq]
  blank := by
    intro i hle hi
    rw [getElem?_put_of_le samples (Nat.le_trans hend hle)]
    exact h.blank i hle hi

end StagingBuffer

/-- What a device may rely on when it is handed a period. The period lies at the front of one of
the buffers, which has the least size that the alignment allows and is blank behind it. -/
structure Submission.WellFormed (p : Submission) (setup : Setup) : Prop where
  id_lt : p.id < setup.queueDepth.toNat + 1
  dataOffset_eq : p.dataOffset = 0
  dataSize_eq : ∃ samples, setup.periodSamples = .ok samples ∧ p.dataSize = 2 * samples
  bufferSize_eq : p.bufferSize = p.buffer.bytes.size
  least : IsLeast {size | setup.alignment.toNat ∣ size ∧ p.dataSize ≤ size} p.bufferSize
  data_eq : p.data = .ok (p.buffer.bytes.extract 0 p.dataSize)
  blank : ∀ i, p.dataSize ≤ i → i < p.bufferSize → p.buffer.bytes[i]? = some 0

namespace Stream

variable {δ : Type}

/-- Every buffer of a stream has one size and is blank behind its period. -/
def Padded (s : Stream δ) (size : Nat) : Prop :=
  ∀ b ∈ s.pool.buffers, b.Padded s.setup.dataSize size

theorem Opened.padded {setup : Setup} {device : δ} {s : Stream δ} (h : Opened setup device s) :
    ∃ size, setup.bufferSize = .ok size ∧ s.Padded size := by
  obtain ⟨size, hsize, hblank⟩ := h.blank
  exact ⟨size, hsize, fun b hb => StagingBuffer.padded_of_blank (hblank b hb)⟩

theorem Padded.put {s : Stream δ} {size : Nat} {xs : List Int16} (h : s.Padded size)
    (hready : s.Ready) (hle : (s.put xs).offset ≤ s.capacity) : (s.put xs).Padded size := by
  have hend : 2 * (s.offset + (s.conversion.apply xs).length) ≤ s.setup.dataSize := by
    rw [Conversion.length_apply, hready.dataSize_eq]
    exact Nat.mul_le_mul_left 2 hle
  exact StagingPool.forall_mem_put h fun hwork => hwork.put hend

theorem Padded.after {s : Stream (Recorder δ)} {size : Nat} (h : s.Padded size) (c : Closing)
    (device : Recorder δ) : (s.after c device).Padded size := by
  rw [Padded, buffers_after]
  exact h

variable [Device δ] {s₀ s : Stream (Recorder δ)} {xs : List Int16} {cs : List Closing}

/-- The padding is never written to. -/
theorem Run.padded {size : Nat} (hready : s₀.Ready) (h₀ : s₀.Padded size) (run : Run s₀ xs cs s) :
    s.Padded size := by
  induction run with
  | start => exact h₀
  | fill run x hlt ih => exact ih.put (run.ready hready) (Nat.le_of_lt hlt)
  | close run x hfull hc ih =>
    exact (ih.put (run.ready hready) (Nat.le_of_eq hfull)).after _ _

/-- A full work buffer is handed over as a well formed period. -/
theorem Run.wellFormed_submission {setup : Setup} {device : Recorder δ}
    (h₀ : Opened setup device s₀) (run : Run s₀ xs cs s) (x : Int16)
    (hfull : (s.put [x]).offset = s.capacity) : (s.put [x]).submission.WellFormed setup := by
  obtain ⟨size, hsize, hblank⟩ := h₀.padded
  have hready := run.ready h₀.ready
  have hsetup : s.setup = setup := run.fixed.1.trans h₀.setup_eq
  have hpadded := (run.padded h₀.ready hblank).put hready (Nat.le_of_eq hfull)
  have hwork := hpadded _ (workBuffer_mem _)
  have hbuffer : (s.put [x]).submission.bufferSize = size := hwork.size_eq
  have hdata : (s.put [x]).submission.dataSize = setup.dataSize := congrArg Setup.dataSize hsetup
  have hleast := isLeast_alignUp h₀.accepted.alignment hsize
  exact {
    id_lt := by
      rw [← h₀.buffers_size, ← run.buffers_size, ← StagingPool.size_put]
      exact (s.put [x]).pool.work_lt
    dataOffset_eq := rfl
    dataSize_eq := by
      refine ⟨s.capacity, run.fixed.2.2 ▸ h₀.capacity_eq, ?_⟩
      rw [← hready.dataSize_eq]
      rfl
    bufferSize_eq := (Memory.size_bytes _).symm
    least := by
      rw [hbuffer, hdata]
      exact hleast
    data_eq := by
      refine submission_data ?_
      change s.setup.dataSize ≤ (s.put [x]).submission.bufferSize
      rw [hbuffer, hsetup]
      exact hleast.1.2
    blank := by
      rw [hbuffer]
      exact hwork.blank }

/-- What a device is handed is the work buffer of a state on record that is full. -/
theorem Run.exists_submission (hnew : s₀.device.history = []) (run : Run s₀ xs cs s)
    {p : Submission} {answer : Except Failure Unit} (h : .submitted p answer ∈ s.device.history) :
    ∃ ys before t x, Run s₀ ys before t ∧ (t.put [x]).offset = t.capacity ∧
      p = (t.put [x]).submission := by
  rw [run.history_eq, hnew, List.nil_append] at h
  obtain ⟨c, hmem, hp⟩ := List.mem_flatMap.mp h
  obtain ⟨before, later, hcut⟩ := List.append_of_mem hmem
  obtain ⟨ys, x, -, t, device, -, hrun, hfull, hc⟩ := run.exists_closing hcut
  exact ⟨ys, before, t, x, hrun, hfull, hc.period_eq p (Closing.period?_of_mem_exchanges hp)⟩

/-- Every period that a session hands over is well formed, whatever the device answers and however
long the session has gone on. -/
theorem session_submits_well_formed {grants : Allocator} {setup : Setup} {device : δ}
    (h₀ : (start grants setup { device }).outcome = .ok s₀) (bursts : List (List Int16)) :
    ∃ s answers, (s₀.pushAll bursts).outcome = .ok (s, answers) ∧
      ∀ p answer, .submitted p answer ∈ s.device.history → p.WellFormed setup := by
  have hopened := start_spec h₀
  obtain ⟨cs, s, answers, hpush, run, -⟩ := pushAll_run h₀ bursts
  refine ⟨_, answers, hpush, ?_⟩
  intro p answer hmem
  obtain ⟨ys, before, t, x, hrun, hfull, rfl⟩ := run.exists_submission hopened.history_eq hmem
  exact hrun.wellFormed_submission hopened x hfull

theorem session_submits_well_formed_balky :
    ∃ (s₀ s : Stream (Recorder ScriptedDevice)) (answers : List Nat) (p : Submission),
      (start Allocator.standard shortPeriods { device := balky }).outcome = .ok s₀ ∧
      (s₀.pushAll [[1, 2, 3]]).outcome = .ok (s, answers) ∧
      .submitted p (.ok ()) ∈ s.device.history ∧ p.WellFormed shortPeriods := by
  obtain ⟨s₀, h₀, -⟩ := start_balky
  obtain ⟨s, answers, hpush, hformed⟩ := session_submits_well_formed h₀ [[1, 2, 3]]
  have hcount : ((start Allocator.standard shortPeriods
      ({ device := balky } : Recorder ScriptedDevice)).outcome.toOption.map fun s₀ =>
        (s₀.pushAll [[1, 2, 3]]).outcome.toOption.map fun r =>
          r.1.device.history.countP Exchange.isAcceptance) = some (some 1) := by
    decide +kernel
  rw [h₀] at hcount
  have hone : s.device.history.countP Exchange.isAcceptance = 1 := by
    simpa [hpush, Except.toOption] using hcount
  obtain ⟨e, hmem, he⟩ := List.countP_pos_iff.mp (hone ▸ Nat.one_pos)
  obtain ⟨p, _ | ⟨⟩⟩ | _ | _ := e
  · cases he
  · exact ⟨s₀, s, answers, p, h₀, hpush, hmem, hformed p _ hmem⟩
  · cases he
  · cases he

end Stream

end EmulatorOutput.Sound
