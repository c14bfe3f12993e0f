import EmulatorOutput.Proofs.AcceptedSetup
import EmulatorOutput.Proofs.NoticeLaws
import EmulatorOutput.Sound.Stream

/-!
# Opening a session

A session that opens has passed the check of its set-up, and starts with blank buffers, one more
than the device may hold.
-/

namespace EmulatorOutput

theorem Logged.eq_ok_of_lift {α : Type} {x : Except Fault α} {a : α}
    (h : (liftM x : Logged Stop α).outcome = .ok a) : x = .ok a := by
  cases x with
  | ok b =>
    cases h
    rfl
  | error e => cases h

namespace Sound

namespace StagingPool

theorem allocateAll_blank {grants : Allocator} {size align count : Nat} {bs : Array StagingBuffer}
    (h : allocateAll grants size align count = .ok bs) :
    ∀ b ∈ bs, b.memory = Memory.blank size := by
  unfold allocateAll at h
  split at h
  · cases h
  · rename_i blank hblank
    split at h
    · cases h
      intro b hb
      rw [Array.eq_of_mem_replicate hb]
      unfold StagingBuffer.allocate at hblank
      dsimp only at hblank
      split at hblank
      · cases hblank
        rfl
      · cases hblank
    · cases h

theorem allocate_spec {grants : Allocator} {count size align : Nat} {p : StagingPool}
    (h : (allocate grants count size align).outcome = .ok p) :
    p.buffers.size = bufferCount count ∧ p.work = 0 ∧
      ∀ b ∈ p.buffers, b.memory = Memory.blank size := by
  unfold allocate at h
  dsimp only at h
  split at h
  · cases h
  · split at h
    · cases h
    · rename_i bs hbs
      rw [Logged.bind_outcome_eq_ok_iff] at h
      obtain ⟨u, -, hp⟩ := h
      cases hp
      exact ⟨size_allocateAll hbs, rfl, allocateAll_blank hbs⟩

end StagingPool

namespace Stream

variable {δ : Type}

structure Opened (setup : Setup) (device : δ) (s : Stream δ) : Prop where
  accepted : setup.Accepted
  setup_eq : s.setup = setup
  device_eq : s.device = device
  conversion_eq : setup.conversion = .ok s.conversion
  capacity_eq : setup.periodSamples = .ok s.capacity
  offset_eq : s.offset = 0
  inFlight_eq : s.inFlight = 0
  tally_eq : s.tally = {}
  stopped_eq : s.stopped = false
  work_eq : s.pool.work = 0
  buffers_size : s.pool.buffers.size = setup.queueDepth.toNat + 1
  blank : ∃ size, setup.bufferSize = .ok size ∧
    ∀ b ∈ s.pool.buffers, b.memory = Memory.blank size

theorem start_spec [Device δ] {grants : Allocator} {setup : Setup} {device : δ} {s : Stream δ}
    (h : (start grants setup device).outcome = .ok s) : Opened setup device s := by
  simp only [start, Logged.bind_outcome_eq_ok_iff] at h
  obtain ⟨⟨⟩, hcheck, conv, hconv, count, hcount, size, hsize, pool, hpool, capacity, hcapacity,
    -, -, -, -, hs⟩ := h
  have haccepted : setup.Accepted := (Setup.check_eq_ok_iff setup).mp hcheck
  have hconversion : setup.conversion = .ok conv := by
    cases hc : setup.conversion with
    | ok c =>
      rw [hc] at hconv
      cases hconv
      rfl
    | error e =>
      rw [hc] at hconv
      cases hconv
  obtain ⟨-, rfl⟩ := Word.add_eq_ok_iff.mp (Logged.eq_ok_of_lift hcount)
  obtain ⟨hbuffers, hwork, hblank⟩ := StagingPool.allocate_spec hpool
  cases hs
  have hdepth := haccepted.depth_pos
  exact {
    accepted := haccepted
    setup_eq := rfl
    device_eq := rfl
    conversion_eq := hconversion
    capacity_eq := Logged.eq_ok_of_lift hcapacity
    offset_eq := rfl
    inFlight_eq := rfl
    tally_eq := rfl
    stopped_eq := rfl
    work_eq := hwork
    buffers_size := by
      rw [hbuffers, StagingPool.bufferCount]
      omega
    blank := ⟨size, Logged.eq_ok_of_lift hsize, hblank⟩ }

end Stream

end Sound

end EmulatorOutput
