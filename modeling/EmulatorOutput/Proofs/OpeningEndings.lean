import EmulatorOutput.Proofs.CheckedEndings
import EmulatorOutput.Proofs.Opening

/-!
# How opening a session ends

The check of a set-up never breaks off, and what it accepts has sizes that can be computed. What
it does not look at is how many buffers the pool has to list: with a queue deep enough, opening
breaks off where it counts the buffers or makes room for the list.
-/

namespace EmulatorOutput

open Checked

theorem Logged.ends_bind_ok {ε α β : Type} {x : Logged ε α} {f : α → Logged ε β} {a : α}
    {post : β → Prop} {fail : ε → Prop} (hx : x.outcome = .ok a)
    (hf : Ends (f a).outcome post fail) : Ends (x >>= f).outcome post fail := by
  rw [outcome_bind, hx]
  exact hf

namespace Sound

namespace Setup

/-- A test refuses, or goes on with what it has established. -/
theorem refuse_ends {α : Type} {c : Prop} [Decidable c] {e : Failure}
    {next : Unit → Except Stop α} {post : α → Prop}
    (h : ¬ c → Ends (next ()) post fun stop => ∃ e, stop = .failure e) :
    Ends (if c then throw (Stop.failure e) >>= next else next ()) post
      fun stop => ∃ e, stop = .failure e := by
  by_cases hc : c
  · rw [if_pos hc]
    exact ⟨e, rfl⟩
  · rw [if_neg hc]
    exact h hc

/-- The check accepts or refuses, and never breaks off. -/
theorem check_ends (s : Setup) :
    Ends s.check (fun _ => s.Accepted) fun stop => ∃ e, stop = .failure e := by
  have hends : Ends s.check (fun _ => True) fun stop => ∃ e, stop = .failure e := by
    unfold check
    extract_lets invalid f convertible deep whole sized aligned periodic sampled channelled
    have hconvertible :
        Ends (convertible ()) (fun _ => True) fun stop => ∃ e, stop = .failure e := by
      dsimp only [convertible]
      cases s.conversion with
      | ok c => trivial
      | error e => exact ⟨e, rfl⟩
    have hwhole (n : Nat) : Ends (whole n) (fun _ => True) fun stop => ∃ e, stop = .failure e :=
      refuse_ends fun _ => refuse_ends fun _ => hconvertible
    refine refuse_ends fun _ => refuse_ends fun hchannels => refuse_ends fun hsize =>
      refuse_ends fun _ => refuse_ends fun _ => ?_
    change Ends (if s.dataSize = 0 then pure 1 >>= whole
      else liftM (Word.rem s.dataSize f.frameBytes) >>= whole) _ _
    have hframe : f.frameBytes ≠ 0 := by
      rw [Format.frameBytes, Decidable.not_not.mp hsize]
      exact Nat.mul_ne_zero (fun hzero => hchannels (.inl (by omega))) (by decide)
    have hrem : Word.rem s.dataSize f.frameBytes = .ok (s.dataSize % f.frameBytes) := if_neg hframe
    split
    · exact hwhole 1
    · rw [hrem]
      exact hwhole _
  cases hcheck : s.check with
  | ok u => exact (check_eq_ok_iff s).mp hcheck
  | error stop => exact hends.fail_of_error hcheck

theorem check_refuses {s : Setup} (h : ¬ s.Accepted) : ∃ e, s.check = .error (.failure e) := by
  cases hcheck : s.check with
  | ok u => exact absurd (s.check_ends.post_of_ok hcheck) h
  | error stop =>
    obtain ⟨e, rfl⟩ := s.check_ends.fail_of_error hcheck
    exact ⟨e, rfl⟩

end Setup

namespace StagingPool

/-- The memory that a pool asks for can be had, and is granted, buffer by buffer. -/
def Granted (grants : Allocator) (count size align : Nat) : Prop :=
  StagingBuffer.Allocatable size (max align 2) ∧ ∀ i < count, grants i size align = true

/-- The buffer that a pool names when it is refused memory: the first one, if that is refused. -/
def refusedRole (grants : Allocator) (size align : Nat) : String :=
  if StagingBuffer.Allocatable size (max align 2) ∧ grants 0 size align = true then "audio io"
  else "audio work"

variable (grants : Allocator) {count size : Nat} (align : Nat)

theorem allocateAll_ends (hcount : 0 < count) (hsize : size ≠ 0) (heven : size % 2 = 0) :
    Ends (allocateAll grants size align count) (fun _ => Granted grants count size align)
      fun e => ¬ Granted grants count size align ∧
        e = .allocationFailed (refusedRole grants size align) size (max align 2) := by
  unfold allocateAll StagingBuffer.allocate
  dsimp only
  by_cases hfirst : StagingBuffer.Allocatable size (max align 2) ∧ grants 0 size align = true
  · rw [if_pos ⟨hsize, heven, hfirst⟩]
    dsimp only
    by_cases hall : ((List.range count).all fun i => grants i size align) = true
    · rw [if_pos hall]
      refine ⟨hfirst.1, fun i hi => List.all_eq_true.mp hall i (List.mem_range.mpr hi)⟩
    · rw [if_neg hall, refusedRole, if_pos hfirst]
      refine ⟨fun h => hall ?_, rfl⟩
      exact List.all_eq_true.mpr fun i hi => h.2 i (List.mem_range.mp hi)
  · rw [if_neg fun h => hfirst h.2.2, refusedRole, if_neg hfirst]
    exact ⟨fun h => hfirst ⟨h.1, h.2 0 hcount⟩, rfl⟩

/-- A pool is allocated unless its list is too long or its memory is refused. -/
theorem allocate_ends (hcount : 2 ≤ count) (hsize : size ≠ 0) (heven : size % 2 = 0) :
    Ends (allocate grants count size align).outcome
      (fun _ => slotBytes * count ≤ Word.maxBytes ∧ Granted grants count size align)
      fun
      | .fault cause => cause = .capacity ∧ Word.maxBytes < slotBytes * count
      | .failure e => slotBytes * count ≤ Word.maxBytes ∧ ¬ Granted grants count size align ∧
        e = .allocationFailed (refusedRole grants size align) size (max align 2) := by
  have hbuffers : bufferCount count = count := Nat.max_eq_left hcount
  have htable : tableBytes count = slotBytes * count := by
    rw [tableBytes, hbuffers, Nat.mul_comm]
  have hends := allocateAll_ends grants align (Nat.lt_of_lt_of_le (by decide) hcount) hsize heven
  unfold allocate
  dsimp only
  rw [htable]
  by_cases hlong : Word.maxBytes < slotBytes * count
  · rw [if_pos hlong]
    exact ⟨rfl, hlong⟩
  · rw [if_neg hlong]
    have hshort := Nat.not_lt.mp hlong
    split
    · rename_i e he
      rw [hbuffers] at he
      exact ⟨hshort, hends.fail_of_error he⟩
    · rename_i bs hbs
      rw [hbuffers] at hbs
      exact ⟨hshort, hends.post_of_ok hbs⟩

end StagingPool

namespace Stream

variable {δ : Type} {grants : Allocator} {setup : Setup} {device : δ}

theorem start_of_refused {stop : Stop} (h : setup.check = .error stop) :
    (start grants setup device).outcome = .error stop := by
  rw [start, Logged.outcome_bind, h]
  rfl

/-- Where a set-up is accepted, opening hangs on the number of buffers and on the memory. -/
theorem start_ends_of_accepted (grants : Allocator) (device : δ) (h : setup.Accepted) :
    let count := setup.queueDepth.toNat + 1
    let align := setup.alignment.toNat
    ∃ size, setup.bufferSize = .ok size ∧
      Ends (start grants setup device).outcome
        (fun _ => 24 * count ≤ Word.maxBytes ∧ StagingPool.Granted grants count size align)
        fun
        | .fault cause => cause = .addOverflow ∧ count = Word.limit ∨
          cause = .capacity ∧ count < Word.limit ∧ Word.maxBytes < 24 * count
        | .failure e => 24 * count ≤ Word.maxBytes ∧
          ¬ StagingPool.Granted grants count size align ∧
          e = .allocationFailed (StagingPool.refusedRole grants size align) size (max align 2) := by
  intro count align
  have hcheck := (Setup.check_eq_ok_iff setup).mpr h
  obtain ⟨conversion, hconversion⟩ := h.convertible
  obtain ⟨size, hsize, hle, heven⟩ := h.exists_bufferSize
  obtain ⟨text, hformat⟩ := h.exists_describe
  have hcount : 2 ≤ count := Nat.succ_le_succ h.depth_pos
  have hpos : size ≠ 0 := Nat.ne_of_gt (Nat.lt_of_lt_of_le (Nat.pos_of_ne_zero h.nonempty) hle)
  refine ⟨size, hsize, ?_⟩
  unfold start
  refine Logged.ends_bind_ok (by rw [hcheck]; rfl) ?_
  refine Logged.ends_bind_ok (a := conversion) (by rw [hconversion]; rfl) ?_
  by_cases hword : count < Word.limit
  · have hadd : Word.add setup.queueDepth.toNat 1 = .ok count := if_pos hword
    refine Logged.ends_bind_ok (by rw [hadd]; rfl) ?_
    refine Logged.ends_bind_ok (by rw [hsize]; rfl) ?_
    rw [Logged.outcome_bind]
    have hpool := StagingPool.allocate_ends grants align hcount hpos heven
    refine (hpool.mono_fail ?_).bind fun pool hgranted => ?_
    · intro stop hstop
      cases stop with
      | fault cause => exact .inr ⟨hstop.1, hword, hstop.2⟩
      | failure e => exact hstop
    · refine Logged.ends_bind_ok (by rw [h.periodSamples_eq]; rfl) ?_
      refine Logged.ends_bind_ok (by rw [hformat]; rfl) ?_
      exact Logged.ends_bind_ok rfl hgranted
  · have hlimit : count = Word.limit :=
      Nat.le_antisymm setup.queueDepth.toNat_lt (Nat.not_lt.mp hword)
    have hadd : Word.add setup.queueDepth.toNat 1 = .error .addOverflow := if_neg hword
    rw [hadd]
    exact .inl ⟨rfl, hlimit⟩

/-- How opening a session ends, for every set-up and whatever memory is granted. It breaks off
just where the set-up is accepted and the queue is too deep: one buffer more than the queue holds
is no word, or the list of so many buffers is longer than any collection may be. It refuses what
the check refuses, and an accepted set-up for want of memory; otherwise there is a session. -/
theorem start_endings (grants : Allocator) (setup : Setup) (device : δ) :
    let count := setup.queueDepth.toNat + 1
    let align := setup.alignment.toNat
    let opening := (start grants setup device).outcome
    (∀ cause, opening = .error (.fault cause) ↔ setup.Accepted ∧
      (cause = .addOverflow ∧ count = Word.limit ∨
        cause = .capacity ∧ count < Word.limit ∧ Word.maxBytes < 24 * count)) ∧
    (∀ e, opening = .error (.failure e) ↔ setup.check = .error (.failure e) ∨
      setup.Accepted ∧ 24 * count ≤ Word.maxBytes ∧ ∃ size, setup.bufferSize = .ok size ∧
        ¬ StagingPool.Granted grants count size align ∧
        e = .allocationFailed (StagingPool.refusedRole grants size align) size (max align 2)) ∧
    ((∃ s, opening = .ok s) ↔ setup.Accepted ∧ 24 * count ≤ Word.maxBytes ∧
      ∃ size, setup.bufferSize = .ok size ∧ StagingPool.Granted grants count size align) := by
  intro count align opening
  by_cases h : setup.Accepted
  · obtain ⟨size, hsize, hends⟩ := start_ends_of_accepted grants device h
    have hcheck := (Setup.check_eq_ok_iff setup).mpr h
    have hlimit : Word.maxBytes < 24 * Word.limit := by decide
    cases hopening : opening with
    | ok s =>
      obtain ⟨hlist, hgranted⟩ := hends.post_of_ok hopening
      refine ⟨fun cause => ?_, fun e => ?_, ?_⟩
      · simp [h]
        omega
      · simp [hcheck, hsize, hgranted, count, align]
      · simp [h, hsize, hlist, hgranted, count, align]
    | error stop =>
      have hstop := hends.fail_of_error hopening
      cases stop with
      | fault cause =>
        have hlong : ¬ 24 * count ≤ Word.maxBytes := by
          rcases hstop with ⟨-, hcount⟩ | ⟨-, -, hcount⟩ <;> omega
        refine ⟨fun cause' => ?_, fun e => ?_, ?_⟩
        · rcases hstop with ⟨rfl, hcount⟩ | ⟨rfl, hcount, hbytes⟩
          · simp [h, hcount, count, eq_comm]
          · have hne := Nat.ne_of_lt hcount
            simp [h, hcount, hne, hbytes, count, eq_comm]
        · simp [hcheck, hlong]
        · simp [hlong]
      | failure e =>
        obtain ⟨hlist, hrefused, he⟩ := hstop
        refine ⟨fun cause => ?_, fun e' => ?_, ?_⟩
        · simp [h]
          omega
        · simp [h, hcheck, hsize, hlist, hrefused, he, eq_comm, count, align]
        · simp [hsize, hrefused, count, align]
  · obtain ⟨e, he⟩ := Setup.check_refuses h
    have hopening : opening = .error (.failure e) := start_of_refused he
    rw [hopening, he]
    simp [h]

/-- Two queues that the check lets pass: the list of their buffers would be too long, and with
one buffer more there are as many as no word can count. -/
theorem start_breaks_off_deepQueue :
    (({ queueDepth := 9223372036854775808 } : Setup).check = .ok () ∧
      (start Allocator.standard { queueDepth := 9223372036854775808 } ()).outcome =
        .error (.fault .capacity)) ∧
    (({ queueDepth := 18446744073709551615 } : Setup).check = .ok () ∧
      (start Allocator.standard { queueDepth := 18446744073709551615 } ()).outcome =
        .error (.fault .addOverflow)) :=
  ⟨⟨rfl, rfl⟩, rfl, rfl⟩

end Stream

end Sound

end EmulatorOutput
