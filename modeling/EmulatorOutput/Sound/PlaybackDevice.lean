import EmulatorOutput.Sound.Playback

/-!
# A playback line as a device

One way for producer and voice to take turns: the voice does what it can as soon as it can, and
wakes from a sleep a moment after the play time is over. Under this schedule a line answers like
any other device.
-/

namespace EmulatorOutput.Sound.Line

/-- The nanoseconds by which a sleeper wakes late. -/
def wakeDelay : Nat := 1

/-- The voice goes on until it waits for the queue, the clock or the sink. -/
def settle (l : Line) : Line :=
  match _ : l.advance with
  | some next => settle next
  | none => l
termination_by l.work
decreasing_by exact work_advance (by assumption)

def wakeTime? (l : Line) : Option Nat :=
  match l.voice with
  | .sleeping _ wakeAt => some (max l.now wakeAt + wakeDelay)
  | _ => none

theorem work_settle_le (l : Line) : l.settle.work ≤ l.work := by
  fun_induction settle l with
  | case1 l next h ih => exact Nat.le_trans ih (Nat.le_of_lt (work_advance h))
  | case2 l h => exact Nat.le_refl _

/-- Sets the clock to the given time, wakes the voice and lets it go on. -/
def wakeAndSettle (l : Line) (time : Nat) : Line :=
  match wake { l with now := time } with
  | some next => next.settle
  | none => l

theorem work_wakeAndSettle {l : Line} {time : Nat} (h : l.wakeTime? = some time) :
    (l.wakeAndSettle time).work < l.work := by
  unfold wakeTime? at h
  split at h
  · rename_i p wakeAt hv
    cases h
    have hw : wake { l with now := max l.now wakeAt + wakeDelay } =
        some { l with now := max l.now wakeAt + wakeDelay, voice := .writing p 0 } := by
      simp [wake, hv]
      omega
    have h₁ := work_wake hw
    have h₂ := work_settle_le
      { l with now := max l.now wakeAt + wakeDelay, voice := .writing p 0 }
    have h₃ : work { l with now := max l.now wakeAt + wakeDelay } = l.work := rfl
    simp only [wakeAndSettle, hw]
    omega
  · cases h

/-- Lets time pass until the given moment. -/
def sleepUntil (l : Line) (time : Nat) : Line :=
  match _ : l.wakeTime? with
  | some next =>
    if next ≤ time then sleepUntil (l.wakeAndSettle next) time
    else { l with now := max l.now time }
  | none => { l with now := max l.now time }
termination_by l.work
decreasing_by exact work_wakeAndSettle (by assumption)

/-- Lets time pass until the voice has ended or is held up by its sink. -/
def runOut (l : Line) : Line :=
  match _ : l.wakeTime? with
  | some next => runOut (l.wakeAndSettle next)
  | none => l
termination_by l.work
decreasing_by exact work_wakeAndSettle (by assumption)

/-- Waits until a buffer is free, but not past the given moment. A wait without an end that
nothing will end is given up as well. -/
def waitUntil (l : Line) (deadline : Option Nat) : Line × Except Failure WaitOutcome :=
  match l.receive with
  | some answer => answer
  | none =>
    match _ : l.wakeTime? with
    | some next =>
      if deadline.all (next ≤ ·) then waitUntil (l.wakeAndSettle next) deadline
      else ({ l with now := max l.now (deadline.getD 0) }, .ok .timedOut)
    | none => ({ l with now := max l.now (deadline.getD 0) }, .ok .timedOut)
termination_by l.work
decreasing_by exact work_wakeAndSettle (by assumption)

/-- Puts a period on the queue and lets the voice go on. -/
def offer (l : Line) (p : Period) : Line × Except Failure Unit :=
  let (l, answer) := l.accept p
  (l.settle, answer)

/-- Hands a buffer over. Its bytes are read only if the line is not stopped, and have to be
there. -/
def submit (l : Line) (s : Submission) : Except Fault (Line × Except Failure Unit) := do
  if l.connected then
    let data ← s.data
    return l.offer { id := s.id, data }
  else return l.offer { id := s.id, data := #[] }

def wait (l : Line) (limit : Option Nat) : Line × Except Failure WaitOutcome :=
  l.waitUntil (limit.map (l.now + ·))

def elapse (l : Line) (nanos : Nat) : Line := l.sleepUntil (l.now + nanos)

/-- Stops the line, once: raises the flag, closes the queue and waits for the voice to end. -/
def stop (l : Line) : Line × List Notice :=
  if l.joined then (l, [])
  else l.raiseStop.hangUp.settle.runOut.join

/-- Lets the sink's writes return and the voice go on. -/
def openSink (l : Line) : Line := l.unblock.settle

instance : Device Line where
  submit l s := l.offer { id := s.id, data := s.dataWithin }
  wait := wait
  stop := stop

end EmulatorOutput.Sound.Line
