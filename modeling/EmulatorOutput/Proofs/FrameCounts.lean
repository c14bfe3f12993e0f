import EmulatorOutput.Session.Pacing
import Mathlib.Algebra.Order.Ring.Nat
import Mathlib.Data.List.Induction

/-!
# Counts of frames

A frame counter against the record of the calls made on it. Each frame is in one place: it was
published with its window, it is in the open window, or a restart has discarded it.
-/

namespace EmulatorOutput.Session.FrameCounter

/-! ## Calls and their record -/

/-- A call on a counter, with the time that the clock shows. -/
inductive Call where
  | tick (now : Nat)
  | restart (now : Nat)

def Call.isTick : Call → Bool
  | .tick _ => true
  | .restart _ => false

/-- What has come of a call. -/
inductive Entry where
  /-- A frame of an open window. -/
  | counted (now : Nat)
  /-- The frame that closed a window. -/
  | published (now rate : Nat)
  | restarted (now : Nat)

/-- A call is put on record with its answer, the latest first. -/
def use (s : FrameCounter × List Entry) : Call → FrameCounter × List Entry
  | .tick now =>
    match s.1.tickAt now with
    | (c, none) => (c, .counted now :: s.2)
    | (c, some rate) => (c, .published now rate :: s.2)
  | .restart now => (s.1.restartAt now, .restarted now :: s.2)

/-- A new counter after calls, and their record. -/
def useAll (start : Nat) (calls : List Call) : FrameCounter × List Entry :=
  calls.foldl use (startingAt start, [])

theorem useAll_concat (start : Nat) (calls : List Call) (call : Call) :
    useAll start (calls ++ [call]) = use (useAll start calls) call := by
  simp [useAll]

/-! ## What a record says -/

/-- When the open window began: with the latest rate or restart, if there was one. -/
def opened (start : Nat) : List Entry → Nat
  | [] => start
  | .counted _ :: rest => opened start rest
  | .published now _ :: _ | .restarted now :: _ => now

/-- The frames since the latest rate or restart. -/
def pending : List Entry → Nat
  | .counted _ :: rest => pending rest + 1
  | _ => 0

/-- The frames that were pending when the counter was restarted. -/
def discarded : List Entry → Nat
  | [] => 0
  | .restarted _ :: rest => discarded rest + pending rest
  | _ :: rest => discarded rest

/-- The rates, the latest first. -/
def rates : List Entry → List Nat
  | [] => []
  | .published _ rate :: rest => rate :: rates rest
  | _ :: rest => rates rest

/-- The counter agrees with the record. -/
structure Accounts (start : Nat) (c : FrameCounter) (h : List Entry) : Prop where
  windowStart_eq : c.windowStart = opened start h
  frames_eq : c.frames = pending h
  lastRate_eq : c.lastRate = (rates h).head?
  total_eq : c.total = (rates h).sum + pending h + discarded h

variable {start : Nat} {c : FrameCounter} {h : List Entry} {now : Nat}

theorem tickAt_of_open (hopen : now - c.windowStart < window) :
    c.tickAt now = ({ c with frames := c.frames + 1, total := c.total + 1 }, none) :=
  if_pos hopen

theorem tickAt_of_over (hover : window ≤ now - c.windowStart) :
    c.tickAt now = (⟨now, 0, some (c.frames + 1), c.total + 1⟩, some (c.frames + 1)) :=
  if_neg (Nat.not_lt_of_le hover)

namespace Accounts

theorem starting (start : Nat) : Accounts start (startingAt start) [] := by
  constructor <;> rfl

/-- A frame closes its window a second after it began, and not before. -/
theorem tickAt_answer (ha : Accounts start c h) (now : Nat) :
    (c.tickAt now).2 =
      if 1000000000 ≤ now - opened start h then some (pending h + 1) else none := by
  rw [← ha.windowStart_eq, ← ha.frames_eq]
  change _ = if window ≤ now - c.windowStart then _ else _
  rcases Nat.lt_or_ge (now - c.windowStart) window with hopen | hover
  · rw [tickAt_of_open hopen, if_neg (Nat.not_le_of_lt hopen)]
  · rw [tickAt_of_over hover, if_pos hover]

theorem use (ha : Accounts start c h) (call : Call) :
    Accounts start (use (c, h) call).1 (use (c, h) call).2 := by
  obtain ⟨hwindow, hframes, hrate, htotal⟩ := ha
  cases call with
  | restart now =>
    constructor
    · rfl
    · rfl
    · exact hrate
    · simp only [FrameCounter.use, restartAt, rates, pending, discarded]
      omega
  | tick now =>
    rcases Nat.lt_or_ge (now - c.windowStart) window with hopen | hover
    · simp only [FrameCounter.use, tickAt_of_open hopen]
      constructor
      · exact hwindow
      · exact congrArg (· + 1) hframes
      · exact hrate
      · simp only [rates, pending, discarded]
        omega
    · simp only [FrameCounter.use, tickAt_of_over hover]
      constructor
      · rfl
      · rfl
      · rfl
      · simp only [rates, pending, discarded, List.sum_cons]
        omega

theorem useAll (start : Nat) (calls : List Call) :
    Accounts start (useAll start calls).1 (useAll start calls).2 := by
  induction calls using List.reverseRecOn with
  | nil => exact starting start
  | append_singleton calls call ih =>
    rw [useAll_concat]
    exact ih.use call

end Accounts

theorem total_use (s : FrameCounter × List Entry) (call : Call) :
    (use s call).1.total = s.1.total + [call].countP Call.isTick := by
  cases call with
  | restart now => rfl
  | tick now =>
    rcases Nat.lt_or_ge (now - s.1.windowStart) window with hopen | hover
    · simp only [use, tickAt_of_open hopen]
      rfl
    · simp only [use, tickAt_of_over hover]
      rfl

theorem total_useAll (start : Nat) (calls : List Call) :
    (useAll start calls).1.total = calls.countP Call.isTick := by
  induction calls using List.reverseRecOn with
  | nil => rfl
  | append_singleton calls call ih => rw [useAll_concat, total_use, ih, List.countP_append]

/-- No frame is lost. Whatever calls were made on a counter, at whatever times, its total is the
number of frames, which no other count exceeds, and each frame was published, is pending or was
discarded by a restart. A frame publishes exactly when a second has passed since the latest rate or
restart, and then the number of frames since, itself included. A rate stays the last one until the
next, also over a restart. -/
theorem accounts_for_frames (start : Nat) (calls : List Call) :
    let (c, h) := useAll start calls
    c.total = calls.countP Call.isTick ∧
    c.total = (rates h).sum + pending h + discarded h ∧
    c.frames = pending h ∧ c.frames ≤ calls.countP Call.isTick ∧
    c.lastRate = (rates h).head? ∧
    (∀ now, (c.tickAt now).2 =
      if 1000000000 ≤ now - opened start h then some (pending h + 1) else none) ∧
    ∀ now, (c.restartAt now).lastRate = c.lastRate := by
  have ha := Accounts.useAll start calls
  have htotal := total_useAll start calls
  have hframes : (useAll start calls).1.frames ≤ calls.countP Call.isTick := by
    rw [← htotal, ha.total_eq, ha.frames_eq]
    omega
  exact ⟨htotal, ha.total_eq, ha.frames_eq, hframes, ha.lastRate_eq, ha.tickAt_answer,
    fun _ => rfl⟩

end EmulatorOutput.Session.FrameCounter
