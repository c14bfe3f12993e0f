import EmulatorOutput.Session.Pacing
import Mathlib.Data.Finset.Max
import Mathlib.Order.Interval.Finset.Nat

/-!
# Pacing of frames

Each frame that a limiter lets through is counted for a slot. Slots are at least one frame time
apart, and a frame starts in its slot or at most one frame time after it. So lateness is made up by
one frame at most, and frames that are asked for in time start in their slots, without drift.
-/

namespace EmulatorOutput.Session.FrameLimiter

/-! ## Successive frames -/

/-- The limiter after so many frames, asked for at the given times. -/
def after (l : FrameLimiter) (now : ℕ → ℕ) : ℕ → FrameLimiter
  | 0 => l
  | i + 1 => ((l.after now i).delayAt (now i)).1

/-- How long a frame is held back. -/
def delay (l : FrameLimiter) (now : ℕ → ℕ) (i : ℕ) : ℕ := ((l.after now i).delayAt (now i)).2

/-- When a frame starts that is held back no longer than it has to be. -/
def start (l : FrameLimiter) (now : ℕ → ℕ) (i : ℕ) : ℕ := now i + l.delay now i

/-- When a frame is due. The first one is due when it is asked for. -/
def target (l : FrameLimiter) (now : ℕ → ℕ) (i : ℕ) : ℕ := (l.after now i).due.getD (now i)

/-- The time that a frame is counted for, whenever it starts. -/
def slot (l : FrameLimiter) (now : ℕ → ℕ) (i : ℕ) : ℕ :=
  if l.target now i + l.frameTime < now i then now i else l.target now i

variable (l : FrameLimiter) (now : ℕ → ℕ)

/-- All three cases of a limiter at once: early, late by one frame time at most, and later. -/
theorem delayAt_eq (t : ℕ) : l.delayAt t =
    ({ l with due := some ((if l.due.getD t + l.frameTime < t then t else l.due.getD t)
        + l.frameTime) }, l.due.getD t - t) := by
  generalize htarget : l.due.getD t = target
  simp only [delayAt, htarget]
  by_cases hearly : t < target
  · rw [if_pos hearly, if_neg (by omega)]
  · have hlate : l.frameTime < t - target ↔ target + l.frameTime < t := by omega
    simp only [if_neg hearly, hlate, Nat.sub_eq_zero_of_le (Nat.le_of_not_lt hearly)]

@[simp] theorem frameTime_after (i : ℕ) : (l.after now i).frameTime = l.frameTime := by
  induction i with
  | zero => rfl
  | succ i ih => rw [after, delayAt_eq, ih]

theorem target_zero (h : l.due = none) : l.target now 0 = now 0 := by
  rw [target, after, h, Option.getD_none]

/-- The next frame is due one frame time after the slot. -/
theorem target_succ (i : ℕ) : l.target now (i + 1) = l.slot now i + l.frameTime := by
  rw [target, after, delayAt_eq, frameTime_after]
  rfl

theorem start_eq_max (i : ℕ) : l.start now i = max (now i) (l.target now i) := by
  rw [start, delay, delayAt_eq, target]
  omega

theorem slot_le_start (i : ℕ) : l.slot now i ≤ l.start now i := by
  rw [start_eq_max, slot]
  split <;> omega

theorem start_le_slot_add (i : ℕ) : l.start now i ≤ l.slot now i + l.frameTime := by
  rw [start_eq_max, slot]
  split <;> omega

theorem target_le_slot (i : ℕ) : l.target now i ≤ l.slot now i := by
  rw [slot]
  split <;> omega

/-- A frame that is asked for in time starts in its slot. -/
theorem start_eq_slot {i : ℕ} (h : now i ≤ l.target now i) :
    l.start now i = l.slot now i ∧ l.slot now i = l.target now i := by
  have hslot : l.slot now i = l.target now i := if_neg (by omega)
  rw [start_eq_max, hslot]
  exact ⟨Nat.max_eq_right h, rfl⟩

/-- Slots are at least a frame time apart. -/
theorem slot_add_le (i d : ℕ) : l.slot now i + d * l.frameTime ≤ l.slot now (i + d) := by
  induction d with
  | zero => simp
  | succ d ih =>
    have hnext := l.target_le_slot now (i + d + 1)
    rw [target_succ] at hnext
    rw [Nat.succ_mul]
    exact Nat.le_trans (by omega) hnext

/-- Only one frame time of lateness is made up, over any number of frames. -/
theorem start_add_le (i d : ℕ) :
    l.start now i + d * l.frameTime ≤ l.start now (i + d + 1) := by
  have hslots := l.slot_add_le now i (d + 1)
  have hfirst := l.start_le_slot_add now i
  have hlast := l.slot_le_start now (i + d + 1)
  rw [Nat.succ_mul, ← Nat.add_assoc i] at hslots
  omega

theorem delay_le {n : ℕ} (hdue : l.due = none)
    (hhonoured : ∀ i, i + 1 < n → l.start now i ≤ now (i + 1)) {i : ℕ} (hi : i < n) :
    l.delay now i ≤ l.frameTime := by
  have hstart := l.start_eq_max now i
  rw [start] at hstart
  cases i with
  | zero =>
    rw [l.target_zero now hdue] at hstart
    omega
  | succ i =>
    have hbefore := hhonoured i hi
    have hslot := l.slot_le_start now i
    rw [target_succ] at hstart
    omega

theorem start_succ {i : ℕ} (h : now i ≤ l.target now i)
    (hnext : now (i + 1) ≤ l.target now (i + 1)) :
    l.start now (i + 1) = l.start now i + l.frameTime := by
  rw [(l.start_eq_slot now hnext).1, (l.start_eq_slot now hnext).2, target_succ,
    (l.start_eq_slot now h).1]

/-- A set of numbers that are all close to each other is small. -/
theorem card_le_of_close {s : Finset ℕ} {m : ℕ} (h : ∀ i ∈ s, ∀ j ∈ s, j ≤ i + m) :
    s.card ≤ m + 1 := by
  rcases s.eq_empty_or_nonempty with rfl | hs
  · simp
  · have hsub : s ⊆ Finset.Icc (s.min' hs) (s.min' hs + m) := by
      intro j hj
      rw [Finset.mem_Icc]
      exact ⟨s.min'_le j hj, h _ (s.min'_mem hs) j hj⟩
    have hcard := Finset.card_le_card hsub
    rw [Nat.card_Icc] at hcard
    omega

/-- A limiter holds frames to its rate. If each frame is held back as long as the limiter says,
it is never held back by more than one frame time. Between the starts of any two frames there are at
least as many frame times as frames that start between them, whatever came late, so a span of `m`
frame times sees one frame too many at most. Frames that are asked for in time are exactly one
frame time apart. -/
theorem paces_frames {fps : ℕ} (hfps : 1 ≤ fps) :
    ∃ l, ofRate fps = some l ∧ l.frameTime = 1000000000 / fps ∧
      ∀ (now : ℕ → ℕ) (n : ℕ), (∀ i, i + 1 < n → l.start now i ≤ now (i + 1)) →
        (∀ i < n, l.delay now i ≤ l.frameTime) ∧
        (∀ i j, i < j → j < n →
          l.start now i + (j - i - 1) * l.frameTime ≤ l.start now j) ∧
        (∀ a span m, span ≤ m * l.frameTime →
          ((Finset.range n).filter fun i =>
            a ≤ l.start now i ∧ l.start now i < a + span).card ≤ m + 1) ∧
        ∀ j < n, (∀ i, 0 < i → i ≤ j → now i ≤ l.target now i) →
          ∀ i < j, l.start now (i + 1) = l.start now i + l.frameTime := by
  have hrate : fps ≠ 0 := Nat.one_le_iff_ne_zero.mp hfps
  refine ⟨{ frameTime := 1000000000 / fps }, by rw [ofRate, if_neg hrate], rfl, ?_⟩
  generalize 1000000000 / fps = frameTime
  intro now n hhonoured
  set l : FrameLimiter := { frameTime } with hl
  have hburst : ∀ i j, i < j → l.start now i + (j - i - 1) * l.frameTime ≤ l.start now j := by
    intro i j hij
    obtain ⟨d, rfl⟩ : ∃ d, j = i + d + 1 := ⟨j - i - 1, by omega⟩
    have hd : i + d + 1 - i - 1 = d := by omega
    rw [hd]
    exact l.start_add_le now i d
  refine ⟨fun i hi => l.delay_le now rfl hhonoured hi, fun i j hij _ => hburst i j hij, ?_, ?_⟩
  · intro a span m hspan
    apply card_le_of_close
    intro i hi j hj
    rw [Finset.mem_filter] at hi hj
    by_contra hfar
    have hlate := hburst i j (by omega)
    have hmany : m * l.frameTime ≤ (j - i - 1) * l.frameTime :=
      Nat.mul_le_mul_right _ (by omega)
    omega
  · intro j hj hintime i hij
    apply l.start_succ now
    · cases i with
      | zero => exact (l.target_zero now rfl).ge
      | succ i => exact hintime (i + 1) (Nat.succ_pos i) hij.le
    · exact hintime (i + 1) (Nat.succ_pos i) hij

/-- A first frame, and two that are asked for together when the second is one frame time late. -/
def belated : ℕ → ℕ
  | 0 => 0
  | _ => 40000000

/-- Both belated frames start at once, as close as the bound permits. -/
theorem paces_frames_belated : ∃ l, ofRate 50 = some l ∧
    (∀ i, i + 1 < 3 → l.start belated i ≤ belated (i + 1)) ∧ l.delay belated 2 ≤ l.frameTime ∧
    l.start belated 1 + (2 - 1 - 1) * l.frameTime ≤ l.start belated 2 ∧
    l.start belated 2 = l.start belated 1 := by
  obtain ⟨l, hl, -, hpaces⟩ := paces_frames (show 1 ≤ 50 by decide)
  obtain rfl : { frameTime := 20000000 } = l := Option.some.inj hl
  have hhonoured : ∀ i, i + 1 < 3 →
      start { frameTime := 20000000 } belated i ≤ belated (i + 1) := by
    intro i hi
    obtain rfl | rfl : i = 0 ∨ i = 1 := by omega
    · decide
    · decide
  obtain ⟨hdelay, hburst, -⟩ := hpaces belated 3 hhonoured
  exact ⟨_, hl, hhonoured, hdelay 2 (by decide), hburst 1 2 (by decide) (by decide), by decide⟩

end EmulatorOutput.Session.FrameLimiter
