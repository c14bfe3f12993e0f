import EmulatorOutput.Proofs.Sessions

/-!
# Split transfer

The samples of a session, one burst after another and converted for the device, are cut into
periods without a gap. What is not yet a period stands at the front of the work buffer, and each
period that is offered to the device carries its own slice of the stream.
-/

namespace EmulatorOutput

theorem Bytes.word16_little16 (w : UInt16) : word16 w.toUInt8 (w >>> 8).toUInt8 = w := by
  apply UInt16.toNat_inj.mp
  have hw := w.toNat_lt
  have hlow : w.toUInt8.toUInt16.toNat = w.toNat % 2 ^ 8 := by simp
  have hhigh : ((w >>> 8).toUInt8.toUInt16 <<< 8).toNat = (w.toNat / 2 ^ 8) <<< 8 := by
    simp [Nat.shiftRight_eq_div_pow, Nat.shiftLeft_eq]
    omega
  rw [word16, UInt16.toNat_or, hlow, hhigh, Nat.or_comm,
    ← Nat.shiftLeft_add_eq_or_of_lt (Nat.mod_lt _ (by decide)), Nat.shiftLeft_eq]
  omega

theorem Bytes.getElem?_ofSamples (xs : List Int16) (i : Nat) (hi : i < xs.length) :
    (ofSamples xs)[2 * i]? = some xs[i].toUInt16.toUInt8 ∧
      (ofSamples xs)[2 * i + 1]? = some (xs[i].toUInt16 >>> 8).toUInt8 := by
  induction xs generalizing i with
  | nil => exact absurd hi (Nat.not_lt_zero i)
  | cons x xs ih =>
    cases i with
    | zero => exact ⟨rfl, rfl⟩
    | succ i => exact ih i (Nat.lt_of_succ_lt_succ hi)

namespace Sound

/-- Samples that stand at the front of a buffer can be read back. -/
theorem StagingBuffer.sample_of_front {b : StagingBuffer} {xs : List Int16}
    (hfront : b.bytes.extract 0 (2 * xs.length) = (Bytes.ofSamples xs).toArray)
    (hcount : xs.length ≤ b.sampleCount) (i : Nat) (hi : i < xs.length) :
    b.sample i = .ok xs[i] := by
  have hsize : b.sampleCount = b.memory.size / 2 := rfl
  have hbyte (j : Nat) (hj : j < 2 * xs.length) :
      (Bytes.ofSamples xs)[j]? = some (b.memory.get j) := by
    have hin : j < b.memory.size := by omega
    have hget : (b.bytes.extract 0 (2 * xs.length))[j]? = some (b.memory.get j) := by
      have hmin : j < min (2 * xs.length) b.bytes.size - 0 := by
        rw [bytes, Memory.size_bytes]
        omega
      rw [Array.getElem?_extract, if_pos hmin, Nat.zero_add]
      exact Memory.get_eq_getElem? _ _ hin
    rwa [hfront, List.getElem?_toArray] at hget
  obtain ⟨hlow, hhigh⟩ := Bytes.getElem?_ofSamples xs i hi
  have hlow' := Option.some.inj ((hbyte (2 * i) (by omega)).symm.trans hlow)
  have hhigh' := Option.some.inj ((hbyte (2 * i + 1) (by omega)).symm.trans hhigh)
  rw [sample, if_pos (Nat.lt_of_lt_of_le hi hcount), hlow', hhigh', Bytes.word16_little16,
    Int16.toInt16_toUInt16]

namespace Stream

variable {δ : Type}

/-- The bytes of the period that has begun. -/
def front (s : Stream δ) : Array UInt8 := s.pool.workBuffer.bytes.extract 0 (2 * s.offset)

theorem Ready.front_put {s : Stream δ} (h : s.Ready) (x : Int16) :
    (s.put [x]).front = s.front ++ (Bytes.ofSamples (s.conversion.apply [x])).toArray := by
  have hrange : s.offset + (s.conversion.apply [x]).length ≤ s.pool.workBuffer.sampleCount := by
    rw [Conversion.length_apply]
    exact Nat.le_trans (h.offset_put_singleton_le x) (h.capacity_le _ s.workBuffer_mem)
  have hput := StagingBuffer.extract_bytes_put _ hrange
  rw [Conversion.length_apply, ← StagingPool.workBuffer_put] at hput
  exact hput

/-- What is offered can be read off the front of the work buffer if that is large enough. -/
theorem submission_data {s : Stream δ} (h : s.setup.dataSize ≤ s.pool.workBuffer.memory.size) :
    s.submission.data = .ok (s.pool.workBuffer.bytes.extract 0 s.setup.dataSize) := by
  have hsum : Word.add 0 s.setup.dataSize = .ok s.setup.dataSize :=
    Word.add_eq_ok_iff.mpr ⟨by rw [Nat.zero_add]; exact s.setup.dataSize_lt, (Nat.zero_add _).symm⟩
  calc s.submission.data
      = (Word.add 0 s.setup.dataSize >>= s.pool.workBuffer.memory.slice 0) := rfl
    _ = s.pool.workBuffer.memory.slice 0 s.setup.dataSize := by rw [hsum]; rfl
    _ = .ok (s.pool.workBuffer.memory.bytes.extract 0 s.setup.dataSize) := by
      rw [Memory.slice, if_pos ⟨Nat.zero_le _, h⟩, Memory.bytes_extract]

/-- A full work buffer is offered with all its samples. -/
theorem Ready.submission_data {s : Stream δ} (h : s.Ready) (x : Int16)
    (hfull : (s.put [x]).offset = s.capacity) :
    (s.put [x]).submission.data = .ok (s.put [x]).front := by
  have hfits : s.setup.dataSize ≤ (s.put [x]).pool.workBuffer.memory.size := by
    have hcount := h.capacity_le_put [x] _ (workBuffer_mem _)
    rw [StagingBuffer.sampleCount, StagingBuffer.size] at hcount
    have hdata := h.dataSize_eq
    omega
  rw [Stream.submission_data hfits, front, hfull, ← h.dataSize_eq]
  rfl

variable [Device δ] {setup : Setup} {device : δ} {s₀ s : Stream (Recorder δ)} {xs : List Int16}
  {cs : List Closing}

theorem Run.front_put (h₀ : Opened setup { device } s₀) (run : Run s₀ xs cs s)
    (hfront : s.front =
      (Bytes.ofSamples ((s₀.conversion.apply xs).drop (s₀.capacity * cs.length))).toArray)
    (x : Int16) :
    (s.put [x]).front = (Bytes.ofSamples
      ((s₀.conversion.apply (xs ++ [x])).drop (s₀.capacity * cs.length))).toArray := by
  have hle : s₀.capacity * cs.length ≤ (s₀.conversion.apply xs).length :=
    run.length_eq h₀ ▸ Nat.le_add_right _ _
  rw [(run.ready h₀.ready).front_put x, hfront, run.fixed.2.1, Conversion.apply_append,
    List.drop_append_of_le_length hle, Bytes.ofSamples_append, List.append_toArray]

/-- The samples that are not in a period yet stand at the front of the work buffer. -/
theorem Run.front_eq (h₀ : Opened setup { device } s₀) (run : Run s₀ xs cs s) :
    s.front =
      (Bytes.ofSamples ((s₀.conversion.apply xs).drop (s₀.capacity * cs.length))).toArray := by
  induction run with
  | start => simp [front, h₀.offset_eq]
  | fill run x hlt ih => exact run.front_put h₀ ih x
  | @close xs cs s c device run x hfull hc ih =>
    have hlength := (Run.close run x hfull hc).length_eq h₀
    have hall : (s₀.conversion.apply (xs ++ [x])).drop (s₀.capacity * (cs ++ [c]).length) = [] :=
      List.drop_eq_nil_of_le (Nat.le_of_eq hlength)
    rw [hall]
    exact Array.extract_eq_empty_of_le (Nat.min_le_left _ _)

theorem Run.length_rest (h₀ : Opened setup { device } s₀) (run : Run s₀ xs cs s) :
    ((s₀.conversion.apply xs).drop (s₀.capacity * cs.length)).length = s.offset := by
  rw [List.length_drop, run.length_eq h₀, Nat.add_sub_cancel_left]

theorem Run.sample_rest (h₀ : Opened setup { device } s₀) (run : Run s₀ xs cs s) {i : Nat}
    {rest : List Int16}
    (hrest : (s₀.conversion.apply xs).drop (s₀.capacity * cs.length) = rest)
    (hi : i < rest.length) : s.pool.workBuffer.sample i = .ok rest[i] := by
  have hlength := run.length_rest h₀
  have hfront := run.front_eq h₀
  rw [hrest] at hlength hfront
  rw [front, ← hlength] at hfront
  have hready := run.ready h₀.ready
  have hcount : rest.length ≤ s.pool.workBuffer.sampleCount := by
    rw [hlength]
    exact Nat.le_trans (Nat.le_of_lt hready.offset_lt) (hready.capacity_le _ s.workBuffer_mem)
  exact StagingBuffer.sample_of_front hfront hcount i hi

/-- The slice of the stream that makes up a period. -/
def slice (samples : List Int16) (capacity k : Nat) : List Int16 :=
  (samples.drop (capacity * k)).take capacity

theorem slice_append {samples : List Int16} {capacity k : Nat} (more : List Int16)
    (h : capacity * (k + 1) ≤ samples.length) :
    slice (samples ++ more) capacity k = slice samples capacity k := by
  rw [Nat.mul_succ] at h
  rw [slice, List.drop_append_of_le_length (by omega),
    List.take_append_of_le_length (by rw [List.length_drop]; omega), slice]

theorem Run.capacity_mul_le (h₀ : Opened setup { device } s₀) (run : Run s₀ xs cs s) {k : Nat}
    (hk : k < cs.length) : s₀.capacity * (k + 1) ≤ (s₀.conversion.apply xs).length := by
  have hlength := run.length_eq h₀
  have hmul : s₀.capacity * (k + 1) ≤ s₀.capacity * cs.length := Nat.mul_le_mul_left _ hk
  omega

/-- Each period that is offered carries its own slice of the stream. -/
theorem Run.period_data (h₀ : Opened setup { device } s₀) (run : Run s₀ xs cs s) :
    ∀ (k : Nat) (hk : k < cs.length), ∀ p ∈ cs[k].period?,
      p.data = .ok (Bytes.ofSamples (slice (s₀.conversion.apply xs) s₀.capacity k)).toArray := by
  induction run with
  | start => exact fun k hk => absurd hk (Nat.not_lt_zero k)
  | fill run x hlt ih =>
    intro k hk p hp
    rw [Conversion.apply_append, slice_append _ (run.capacity_mul_le h₀ hk)]
    exact ih k hk p hp
  | @close xs cs s c device run x hfull hc ih =>
    intro k hk p hp
    have hready := run.ready h₀.ready
    obtain hold | rfl := Nat.lt_or_eq_of_le (Nat.le_of_lt_succ (List.length_append ▸ hk))
    · rw [List.getElem_append_left hold] at hp
      rw [Conversion.apply_append, slice_append _ (run.capacity_mul_le h₀ hold)]
      exact ih k hold p hp
    · rw [List.getElem_append_right (Nat.le_refl _)] at hp
      simp only [Nat.sub_self, List.getElem_singleton] at hp
      have hlast : (slice (s₀.conversion.apply (xs ++ [x])) s₀.capacity cs.length) =
          (s₀.conversion.apply (xs ++ [x])).drop (s₀.capacity * cs.length) := by
        have hlength := (Run.close run x hfull hc).length_eq h₀
        rw [List.length_append, List.length_singleton, Nat.mul_succ] at hlength
        change _ = s₀.capacity * cs.length + s₀.capacity + 0 at hlength
        refine List.take_of_length_le ?_
        rw [List.length_drop]
        omega
      rw [hc.period_eq p hp, hready.submission_data x hfull,
        run.front_put h₀ (run.front_eq h₀) x, hlast]

variable {grants : Allocator}

/-- Split transfer. Bursts of any length are one stream of device samples. What the stream holds
beyond its whole periods stands in the work buffer; each whole period is closed, and is dropped
at the wait or offered once, in order, with its own samples. -/
theorem session_splits_stream (h₀ : (start grants setup { device }).outcome = .ok s₀)
    (bursts : List (List Int16)) :
    let samples := s₀.conversion.apply bursts.flatten
    let rest := samples.drop (samples.length - samples.length % s₀.capacity)
    setup.conversion = .ok s₀.conversion ∧ setup.periodSamples = .ok s₀.capacity ∧
    ∃ (s : Stream (Recorder δ)) (answers : List Nat) (cs : List Closing),
      (s₀.pushAll bursts).outcome = .ok (s, answers) ∧
      s.offset = samples.length % s₀.capacity ∧
      (∀ (i : Nat) (hi : i < rest.length), s.pool.workBuffer.sample i = .ok rest[i]) ∧
      rest.length = s.offset ∧
      cs.length = samples.length / s₀.capacity ∧
      s.device.history = (cs.flatMap fun c => c.exchanges setup.waitLimit) ∧
      ∀ (k : Nat) (hk : k < cs.length),
        (∃ cause, cs[k] = .late cause) ∨
        ∃ passage period answer, cs[k] = .offered passage period answer ∧
          period.data =
            .ok (Bytes.ofSamples ((samples.drop (s₀.capacity * k)).take s₀.capacity)).toArray := by
  intro samples rest
  have hopened := start_spec h₀
  obtain ⟨cs, s, answers, hpush, run, -⟩ := pushAll_run h₀ bursts
  obtain ⟨hdiv, hmod⟩ : samples.length / s₀.capacity = cs.length ∧
      samples.length % s₀.capacity = s.offset := run.periods_eq hopened
  have hrest : samples.drop (s₀.capacity * cs.length) = rest := by
    change _ = samples.drop (samples.length - samples.length % s₀.capacity)
    rw [hmod, run.length_eq hopened, Nat.add_sub_cancel]
  have hlength : rest.length = s.offset := hrest ▸ run.length_rest hopened
  have hhistory := run.history_eq
  rw [hopened.history_eq, List.nil_append, hopened.setup_eq] at hhistory
  refine ⟨hopened.conversion_eq, hopened.capacity_eq, s.relabel bursts.flatten.length false,
    answers, cs, hpush, hmod.symm, fun _ hi => run.sample_rest hopened hrest hi, hlength,
    hdiv.symm, hhistory, ?_⟩
  intro k hk
  have hdata := run.period_data hopened k hk
  cases hc : cs[k] with
  | late cause => exact .inl ⟨cause, rfl⟩
  | offered passage period answer =>
    exact .inr ⟨passage, period, answer, rfl, hdata period (by rw [hc]; rfl)⟩

theorem session_splits_stream_balky :
    ∃ (s₀ s : Stream (Recorder ScriptedDevice)) (answers : List Nat) (cs : List Closing),
      (start Allocator.standard shortPeriods { device := balky }).outcome = .ok s₀ ∧
      (s₀.pushAll [[1, 2, 3], [], [4, 5, 6, 7]]).outcome = .ok (s, answers) ∧
      s.offset = 2 ∧ s.pool.workBuffer.sample 0 = .ok 7 ∧ s.pool.workBuffer.sample 1 = .ok 7 ∧
      cs.length = 3 ∧
      s.device.history = cs.flatMap fun c => c.exchanges shortPeriods.waitLimit := by
  obtain ⟨s₀, h₀, hconversion, hcapacity⟩ := start_balky
  obtain ⟨-, -, s, answers, cs, hpush, hoffset, hwork, -, hcount, hhistory, -⟩ :=
    session_splits_stream h₀ [[1, 2, 3], [], [4, 5, 6, 7]]
  rw [hconversion, hcapacity] at hoffset hwork hcount
  exact ⟨s₀, s, answers, cs, h₀, hpush, hoffset, hwork 0 (by decide), hwork 1 (by decide),
    hcount, hhistory⟩

end Stream

end Sound

end EmulatorOutput
