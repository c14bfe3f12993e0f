import EmulatorOutput.Proofs.NoticeLaws
import EmulatorOutput.Proofs.WorkBuffer
import EmulatorOutput.Sound.Stream
import Mathlib.Algebra.Order.Ring.Nat

/-!
# Splitting a burst

A stream cannot tell a burst from the same samples in two bursts: consuming `xs ++ ys` is
consuming `xs` and then `ys`, with the same state, the same answers of the device, the same
notices and the same count of periods. This holds in every state, also where the loop breaks
off. The loop fills up to the end of a period or of the burst, so the two runs are aligned at
the end of `xs`: either it lies beyond the room of the work buffer, and both fill alike, or it
lies inside the room, and the longer fill is the shorter one and the next.
-/

namespace EmulatorOutput.Sound.Stream

variable {δ : Type} [Device δ]

/-- The source samples that fit in what is left of the work buffer. -/
def room (s : Stream δ) : Nat := (s.capacity - s.offset) / s.conversion.factor

/-- The stream with source samples put into the work buffer, in range or not. -/
def put (s : Stream δ) (xs : List Int16) : Stream δ :=
  { s with
    pool := s.pool.put s.offset (s.conversion.apply xs)
    offset := s.offset + s.conversion.factor * xs.length }

omit [Device δ] in
theorem fill_eq (s : Stream δ) (xs : List Int16) :
    s.fill xs =
      if s.offset ≤ s.capacity then
        if s.offset + s.conversion.factor * (xs.take s.room).length ≤ s.pool.workBuffer.sampleCount
        then .ok (s.put (xs.take s.room), (xs.take s.room).length)
        else .error .outOfRange
      else .error .subOverflow := by
  unfold fill Word.sub room
  by_cases ho : s.offset ≤ s.capacity
  · simp only [if_pos ho, bind, Except.bind, StagingPool.writeWork_eq, Conversion.length_apply]
    by_cases hw : s.offset + s.conversion.factor *
        (xs.take ((s.capacity - s.offset) / s.conversion.factor)).length ≤
          s.pool.workBuffer.sampleCount
    · rw [if_pos hw, if_pos hw]
      rfl
    · rw [if_neg hw, if_neg hw]
  · rw [if_neg ho, if_neg ho]
    rfl

omit [Device δ] in
theorem fill_spec {s s' : Stream δ} {xs : List Int16} {n : Nat} (h : s.fill xs = .ok (s', n)) :
    s' = s.put (xs.take s.room) ∧ n = min s.room xs.length := by
  rw [fill_eq] at h
  split at h
  · split at h
    · cases h
      exact ⟨rfl, List.length_take⟩
    · cases h
  · cases h

omit [Device δ] in
/-- Samples beyond the room are not looked at. -/
theorem fill_append_of_room_le {s : Stream δ} {xs : List Int16} (ys : List Int16)
    (h : s.room ≤ xs.length) : s.fill (xs ++ ys) = s.fill xs := by
  rw [fill_eq, fill_eq, List.take_append_of_le_length h]

omit [Device δ] in
theorem put_append {s : Stream δ} (xs ys : List Int16)
    (h : s.offset + s.conversion.factor * xs.length ≤ s.pool.workBuffer.sampleCount) :
    s.put (xs ++ ys) = (s.put xs).put ys := by
  have hp : s.offset + (s.conversion.apply xs).length ≤ s.pool.workBuffer.sampleCount := by
    rwa [Conversion.length_apply]
  simp only [put, Conversion.apply_append, StagingPool.put_append _ _ hp,
    Conversion.length_apply, List.length_append, Nat.mul_add, Nat.add_assoc]

omit [Device δ] in
theorem room_put (s : Stream δ) (xs : List Int16) : (s.put xs).room = s.room - xs.length := by
  change (s.capacity - (s.offset + s.conversion.factor * xs.length)) / s.conversion.factor = _
  rw [← Nat.sub_sub, Nat.sub_mul_div]
  rfl

theorem factor_pos (c : Conversion) : 0 < c.factor := by
  cases c <;> decide

omit [Device δ] in
theorem offset_put_lt {s : Stream δ} {xs : List Int16} (h : xs.length < s.room) :
    (s.put xs).offset < (s.put xs).capacity := by
  have hf := factor_pos s.conversion
  have hr : s.conversion.factor * s.room ≤ s.capacity - s.offset := Nat.mul_div_le _ _
  have hx : s.conversion.factor * (xs.length + 1) ≤ s.conversion.factor * s.room :=
    Nat.mul_le_mul_left _ h
  change s.offset + s.conversion.factor * xs.length < s.capacity
  rw [Nat.mul_succ] at hx
  omega

omit [Device δ] in
/-- A fill that ends before the room does can be made in two parts. -/
theorem fill_append_of_lt {s : Stream δ} {xs : List Int16} (ys : List Int16)
    (h : xs.length < s.room) :
    s.fill (xs ++ ys) = s.fill xs >>= fun r => r.1.fill ys >>= fun q => pure (q.1, r.2 + q.2) := by
  have hput := offset_put_lt h
  have ho : s.offset ≤ s.capacity := by
    change s.offset + _ < s.capacity at hput
    omega
  have htake : (xs ++ ys).take s.room = xs ++ ys.take (s.room - xs.length) := by
    rw [List.take_append, List.take_of_length_le (Nat.le_of_lt h)]
  rw [fill_eq, fill_eq s xs, if_pos ho, if_pos ho, htake, List.take_of_length_le (Nat.le_of_lt h)]
  by_cases hw : s.offset + s.conversion.factor * xs.length ≤ s.pool.workBuffer.sampleCount
  · rw [if_pos hw]
    simp only [bind, Except.bind]
    rw [fill_eq, if_pos (Nat.le_of_lt hput), room_put]
    have hsum : (s.put xs).offset +
          (s.put xs).conversion.factor * (ys.take (s.room - xs.length)).length =
        s.offset + s.conversion.factor * (xs ++ ys.take (s.room - xs.length)).length := by
      rw [List.length_append, Nat.mul_add, ← Nat.add_assoc]
      rfl
    have hcount : (s.put xs).pool.workBuffer.sampleCount = s.pool.workBuffer.sampleCount := by
      rw [put, StagingPool.workBuffer_put, StagingBuffer.sampleCount_put]
    rw [hsum, hcount, put_append _ _ hw, List.length_append]
    split <;> rfl
  · rw [if_neg hw, if_neg (by rw [List.length_append, Nat.mul_add]; omega)]
    rfl

@[simp] theorem consume_nil (s : Stream δ) : s.consume [] = pure (s, 0) := by
  rw [consume]

theorem consume_cons (s : Stream δ) (x : Int16) (xs : List Int16) :
    s.consume (x :: xs) = Logged.ofExcept (s.fill (x :: xs)) >>= fun r =>
      match r.2 with
      | 0 => Logged.stop .stalled
      | n + 1 => r.1.closeIfFull >>= fun q => q.1.consume (xs.drop n) >>= fun t =>
          pure (t.1, q.2 + t.2) := by
  rw [consume]
  rfl

theorem consume_of_error {s : Stream δ} {x : Int16} {xs : List Int16} {e : Fault}
    (h : s.fill (x :: xs) = .error e) : s.consume (x :: xs) = Logged.stop e := by
  rw [consume_cons, h, Logged.ofExcept_error, Logged.stop_bind]

theorem consume_of_stalled {s s' : Stream δ} {x : Int16} {xs : List Int16}
    (h : s.fill (x :: xs) = .ok (s', 0)) : s.consume (x :: xs) = Logged.stop .stalled := by
  rw [consume_cons, h, Logged.ofExcept_ok, pure_bind]

theorem consume_of_fill {s s' : Stream δ} {x : Int16} {xs : List Int16} {n : Nat}
    (h : s.fill (x :: xs) = .ok (s', n + 1)) :
    s.consume (x :: xs) = s'.closeIfFull >>= fun q => q.1.consume (xs.drop n) >>= fun t =>
      pure (t.1, q.2 + t.2) := by
  rw [consume_cons, h, Logged.ofExcept_ok, pure_bind]

/-- The count of periods of two consumptions in a row. -/
theorem consume_add (s : Stream δ) (k : Nat) (xs ys : List Int16) :
    (s.consume xs >>= fun r => r.1.consume ys >>= fun q => pure (q.1, r.2 + q.2)) >>=
        (fun t => pure (t.1, k + t.2)) =
      (s.consume xs >>= fun t => pure (t.1, k + t.2)) >>= fun r =>
        r.1.consume ys >>= fun q => pure (q.1, r.2 + q.2) := by
  simp only [bind_assoc, pure_bind, Nat.add_assoc]

theorem closeIfFull_of_lt {s : Stream δ} (h : s.offset < s.capacity) :
    s.closeIfFull = pure (s, 0) := by
  rw [closeIfFull, if_neg (Nat.ne_of_lt h)]

/-- Where the burst ends inside the room of the work buffer, no period is closed. -/
theorem consume_of_lt_room {s s' : Stream δ} {x : Int16} {xs : List Int16} {n : Nat}
    (hr : (x :: xs).length < s.room) (h : s.fill (x :: xs) = .ok (s', n)) :
    s.consume (x :: xs) = pure (s', 0) := by
  obtain ⟨hs, hn⟩ := fill_spec h
  rw [List.take_of_length_le (Nat.le_of_lt hr)] at hs
  have hn' : n = xs.length + 1 := by rw [hn, Nat.min_eq_right (Nat.le_of_lt hr)]; rfl
  have hopen : s'.offset < s'.capacity := hs ▸ offset_put_lt hr
  rw [hn'] at h
  rw [consume_of_fill h, closeIfFull_of_lt hopen, pure_bind, List.drop_length, consume_nil,
    pure_bind]
  rfl

theorem consume_append (s : Stream δ) (xs ys : List Int16) :
    s.consume (xs ++ ys) =
      s.consume xs >>= fun r => r.1.consume ys >>= fun q => pure (q.1, r.2 + q.2) := by
  cases xs with
  | nil => simp
  | cons x xs =>
    rw [List.cons_append]
    by_cases hr : s.room ≤ (x :: xs).length
    · -- both runs fill up to the end of the period
      have hfill := fill_append_of_room_le ys hr
      rw [List.cons_append] at hfill
      cases hf : s.fill (x :: xs) with
      | error e => rw [consume_of_error (hfill.trans hf), consume_of_error hf, Logged.stop_bind]
      | ok r =>
        obtain ⟨s', taken⟩ := r
        cases taken with
        | zero =>
          rw [consume_of_stalled (hfill.trans hf), consume_of_stalled hf, Logged.stop_bind]
        | succ k =>
          have hk : k ≤ xs.length := by
            have := (fill_spec hf).2
            rw [List.length_cons] at this
            omega
          rw [consume_of_fill (hfill.trans hf), consume_of_fill hf,
            List.drop_append_of_le_length hk, bind_assoc]
          congr 1
          funext q
          rw [consume_append q.1 (xs.drop k) ys, consume_add]
    · -- the shorter run stops inside the period that the longer one goes on to fill
      have hlt : (x :: xs).length < s.room := Nat.lt_of_not_le hr
      have hfill := fill_append_of_lt ys hlt
      rw [List.cons_append] at hfill
      cases hf : s.fill (x :: xs) with
      | error e =>
        rw [hf] at hfill
        rw [consume_of_error hfill, consume_of_error hf, Logged.stop_bind]
      | ok r =>
        obtain ⟨s', taken⟩ := r
        obtain ⟨hs', htaken⟩ := fill_spec hf
        rw [List.take_of_length_le (Nat.le_of_lt hlt)] at hs'
        rw [Nat.min_eq_right (Nat.le_of_lt hlt)] at htaken
        rw [hf] at hfill
        rw [consume_of_lt_room hlt hf, pure_bind]
        cases ys with
        | nil => simp [consume_of_lt_room hlt hf]
        | cons y ys =>
          cases hg : s'.fill (y :: ys) with
          | error e =>
            have herr : s.fill (x :: (xs ++ y :: ys)) = .error e := by
              rw [hfill]
              simp [bind, Except.bind, hg]
            rw [consume_of_error herr, consume_of_error hg, Logged.stop_bind]
          | ok q =>
            obtain ⟨t, more⟩ := q
            have hroom : s'.room = s.room - (x :: xs).length := hs' ▸ room_put s (x :: xs)
            obtain ⟨k, rfl⟩ : ∃ k, more = k + 1 := by
              have := (fill_spec hg).2
              rw [List.length_cons] at this
              exact ⟨more - 1, by omega⟩
            have hall : s.fill (x :: (xs ++ y :: ys)) = .ok (t, xs.length + (k + 1) + 1) := by
              rw [hfill]
              simp [bind, Except.bind, hg, htaken, pure, Except.pure]
              omega
            rw [consume_of_fill hall, consume_of_fill hg, List.drop_length_add_append,
              List.drop_succ_cons]
            simp
termination_by xs.length
decreasing_by
  simp only [List.length_drop, List.length_cons]
  omega

/-! ## What consuming neither reads nor changes -/

/-- The stream with another count of accepted samples and another mark of its end. -/
def relabel (s : Stream δ) (accepted : Nat) (stopped : Bool) : Stream δ :=
  { s with tally.samplesAccepted := accepted, stopped }

/-- The stream relabelled, and with another kind of source. -/
def recast (s : Stream δ) (source : Layout) (conversion : Conversion) (accepted : Nat)
    (stopped : Bool) : Stream δ :=
  { s with setup.source := source, conversion, tally.samplesAccepted := accepted, stopped }

section

variable (s : Stream δ) (source : Layout) (conversion : Conversion) (accepted : Nat)
  (stopped : Bool)

theorem makeRoom_recast :
    (s.recast source conversion accepted stopped).makeRoom =
      s.makeRoom >>= fun r => pure (r.1.recast source conversion accepted stopped, r.2) := by
  unfold makeRoom
  change (if s.inFlight < s.setup.queueDepth.toNat then _ else _) = _
  by_cases h : s.inFlight < s.setup.queueDepth.toNat
  · rw [if_pos h, if_pos h]
    rfl
  · rw [if_neg h, if_neg h]
    dsimp only [recast]
    obtain ⟨device, answer⟩ := Device.wait s.device s.setup.waitLimit
    rcases answer with e | ⟨id⟩ | _ | _
    · rfl
    · simp
    · rfl
    · rfl

theorem handOver_recast :
    (s.recast source conversion accepted stopped).handOver =
      s.handOver >>= fun r => pure (r.1.recast source conversion accepted stopped, r.2) := by
  have hsubmission : (s.recast source conversion accepted stopped).submission = s.submission := rfl
  unfold handOver
  rw [hsubmission]
  dsimp only [recast]
  obtain ⟨device, answer⟩ := Device.submit s.device s.submission
  rcases answer with e | ⟨⟩
  · by_cases h : e.recoverable
    · simp [h]
      rfl
    · simp [h]
      rfl
  · rfl

theorem closePeriod_recast :
    (s.recast source conversion accepted stopped).closePeriod =
      s.closePeriod >>= fun r => pure (r.1.recast source conversion accepted stopped, r.2) := by
  have hroom := makeRoom_recast { s with offset := 0 } source conversion accepted stopped
  unfold closePeriod
  change (makeRoom (recast { s with offset := 0 } source conversion accepted stopped) >>= _) = _
  rw [hroom]
  simp only [bind_assoc, pure_bind]
  congr 1
  funext r
  by_cases h : r.2
  · simp [h, handOver_recast]
  · simp [h]

theorem closeIfFull_recast :
    (s.recast source conversion accepted stopped).closeIfFull =
      s.closeIfFull >>= fun r => pure (r.1.recast source conversion accepted stopped, r.2) := by
  unfold closeIfFull
  change (if s.offset = s.capacity then _ else _) = _
  by_cases h : s.offset = s.capacity
  · rw [if_pos h, if_pos h, closePeriod_recast]
    simp
  · rw [if_neg h, if_neg h]
    rfl

end

variable (s : Stream δ) (accepted : Nat) (stopped : Bool)

omit [Device δ] in
theorem fill_relabel (xs : List Int16) :
    (s.relabel accepted stopped).fill xs =
      s.fill xs >>= fun r => pure (r.1.relabel accepted stopped, r.2) := by
  rw [fill_eq, fill_eq]
  change (if s.offset ≤ s.capacity then _ else _) = _
  by_cases ho : s.offset ≤ s.capacity
  · rw [if_pos ho, if_pos ho]
    change (if s.offset + s.conversion.factor * (xs.take s.room).length ≤
      s.pool.workBuffer.sampleCount then _ else _) = _
    by_cases hw : s.offset + s.conversion.factor * (xs.take s.room).length ≤
        s.pool.workBuffer.sampleCount
    · rw [if_pos hw, if_pos hw]
      rfl
    · rw [if_neg hw, if_neg hw]
      rfl
  · rw [if_neg ho, if_neg ho]
    rfl

/-- The end of a period leaves the kind of source as it is. -/
theorem closeIfFull_keeps {s s' : Stream δ} {n : Nat} (h : s.closeIfFull.outcome = .ok (s', n)) :
    s'.setup.source = s.setup.source ∧ s'.conversion = s.conversion := by
  have hself : s.recast s.setup.source s.conversion s.tally.samplesAccepted s.stopped = s := rfl
  have hrun := closeIfFull_recast s s.setup.source s.conversion s.tally.samplesAccepted s.stopped
  rw [hself] at hrun
  rw [hrun, Logged.bind_outcome_eq_ok_iff] at h
  obtain ⟨r, -, hr⟩ := h
  cases hr
  exact ⟨rfl, rfl⟩

theorem closeIfFull_relabel :
    (s.relabel accepted stopped).closeIfFull =
      s.closeIfFull >>= fun r => pure (r.1.relabel accepted stopped, r.2) := by
  refine (closeIfFull_recast s s.setup.source s.conversion accepted stopped).trans ?_
  apply Logged.bind_congr_ok
  intro r hr
  obtain ⟨hsource, hconversion⟩ := closeIfFull_keeps hr
  rw [← hsource, ← hconversion]
  rfl

theorem consume_relabel (s : Stream δ) (accepted : Nat) (stopped : Bool) (xs : List Int16) :
    (s.relabel accepted stopped).consume xs =
      s.consume xs >>= fun r => pure (r.1.relabel accepted stopped, r.2) := by
  cases xs with
  | nil => simp
  | cons x xs =>
    have hfill := fill_relabel s accepted stopped (x :: xs)
    cases hf : s.fill (x :: xs) with
    | error e =>
      rw [hf] at hfill
      rw [consume_of_error hfill, consume_of_error hf, Logged.stop_bind]
    | ok r =>
      obtain ⟨s', taken⟩ := r
      rw [hf] at hfill
      cases taken with
      | zero => rw [consume_of_stalled hfill, consume_of_stalled hf, Logged.stop_bind]
      | succ k =>
        rw [consume_of_fill hfill, consume_of_fill hf, closeIfFull_relabel]
        simp only [bind_assoc, pure_bind]
        congr 1
        funext q
        rw [consume_relabel q.1 accepted stopped (xs.drop k)]
        simp
termination_by xs.length
decreasing_by
  simp only [List.length_drop, List.length_cons]
  omega

/-- Consuming leaves the count of accepted samples and the mark of the end as they are. -/
theorem consume_keeps {s s' : Stream δ} {xs : List Int16} {n : Nat}
    (h : (s.consume xs).outcome = .ok (s', n)) :
    s'.tally.samplesAccepted = s.tally.samplesAccepted ∧ s'.stopped = s.stopped := by
  have hself : s.relabel s.tally.samplesAccepted s.stopped = s := rfl
  have hrun := consume_relabel s s.tally.samplesAccepted s.stopped xs
  rw [hself] at hrun
  rw [hrun, Logged.bind_outcome_eq_ok_iff] at h
  obtain ⟨r, -, hr⟩ := h
  cases hr
  exact ⟨rfl, rfl⟩

/-! ## Bursts -/

theorem push_of_stopped {s : Stream δ} (h : s.stopped = true) (xs : List Int16) :
    s.push xs = pure (s, 0) := by
  rw [push, if_pos h]

theorem push_of_running {s : Stream δ} (h : s.stopped = false) (xs : List Int16) :
    s.push xs = s.consume xs >>= fun r =>
      pure (r.1.relabel (s.tally.samplesAccepted + xs.length) false, r.2) := by
  have hif : ¬ s.stopped = true := by rw [h]; exact Bool.false_ne_true
  rw [push, if_neg hif]
  apply Logged.bind_congr_ok
  intro r hr
  obtain ⟨haccepted, hstopped⟩ := consume_keeps hr
  rw [← haccepted, ← h, ← hstopped]
  rfl

theorem push_nil (s : Stream δ) : s.push [] = pure (s, 0) := by
  cases h : s.stopped with
  | true => exact push_of_stopped h []
  | false =>
    rw [push_of_running h, consume_nil, pure_bind, ← h]
    rfl

theorem push_append (s : Stream δ) (xs ys : List Int16) :
    s.push (xs ++ ys) = s.push xs >>= fun r => r.1.push ys >>= fun q => pure (q.1, r.2 + q.2) := by
  cases h : s.stopped with
  | true => simp [push_of_stopped h]
  | false =>
    rw [push_of_running h, push_of_running h, consume_append]
    simp only [bind_assoc, pure_bind]
    congr 1
    funext r
    have hrunning : (r.1.relabel (s.tally.samplesAccepted + xs.length) false).stopped = false := rfl
    rw [push_of_running hrunning, consume_relabel]
    simp only [bind_assoc, pure_bind, List.length_append, ← Nat.add_assoc]
    rfl

/-- Takes bursts one after another, and gives the answer to each. -/
def pushAll (s : Stream δ) : List (List Int16) → Logged Fault (Stream δ × List Nat)
  | [] => pure (s, [])
  | xs :: bursts => do
    let (s, accepted) ← s.push xs
    let (s, later) ← pushAll s bursts
    return (s, accepted :: later)

/-- Bursts one after another are one long burst. -/
theorem pushAll_eq_push_flatten (s : Stream δ) (bursts : List (List Int16)) :
    s.pushAll bursts >>= (fun r => pure (r.1, r.2.sum)) = s.push bursts.flatten := by
  induction bursts generalizing s with
  | nil =>
    rw [pushAll, pure_bind, List.flatten_nil, push_nil]
    rfl
  | cons xs bursts ih =>
    rw [List.flatten_cons, push_append, pushAll]
    simp only [bind_assoc, pure_bind, List.sum_cons]
    congr 1
    funext r
    rw [← ih r.1]
    simp only [bind_assoc, pure_bind]

theorem pushAll_append (s : Stream δ) (xs ys : List (List Int16)) :
    s.pushAll (xs ++ ys) =
      s.pushAll xs >>= fun r => r.1.pushAll ys >>= fun q => pure (q.1, r.2 ++ q.2) := by
  induction xs generalizing s with
  | nil =>
    rw [List.nil_append, pushAll, pure_bind]
    exact (bind_pure _).symm
  | cons x xs ih =>
    rw [List.cons_append, pushAll, pushAll]
    simp only [ih, bind_assoc, pure_bind, List.cons_append]

theorem pushAll_trans {s t u : Stream δ} {xs ys : List (List Int16)} {first later : List Nat}
    (h : (s.pushAll xs).outcome = .ok (t, first)) (h' : (t.pushAll ys).outcome = .ok (u, later)) :
    (s.pushAll (xs ++ ys)).outcome = .ok (u, first ++ later) := by
  rw [pushAll_append]
  exact Logged.bind_ok h (Logged.bind_ok h' rfl)

/-- Bursts do not stop a session, and it counts their samples. -/
theorem pushAll_of_running {s t : Stream δ} {bursts : List (List Int16)} {answers : List Nat}
    (hs : s.stopped = false) (h : (s.pushAll bursts).outcome = .ok (t, answers)) :
    t.stopped = false ∧
      t.tally.samplesAccepted = s.tally.samplesAccepted + bursts.flatten.length := by
  have hpush : (s.push bursts.flatten).outcome = .ok (t, answers.sum) := by
    rw [← pushAll_eq_push_flatten]
    exact Logged.bind_ok h rfl
  rw [push_of_running hs, Logged.bind_outcome_eq_ok_iff] at hpush
  obtain ⟨r, -, hr⟩ := hpush
  obtain ⟨rfl, -⟩ := Prod.mk.inj (Except.ok.inj hr)
  exact ⟨rfl, rfl⟩

end EmulatorOutput.Sound.Stream
