import EmulatorOutput.Session.Command

/-!
# The mailbox

Commands wait in a queue until the session looks for them. What other parties send while the
session runs is an arrival: each look takes in at most one, and so does each command that the
core sends. A list of arrivals thus stands for one way in which their sending, the core's sending
and the session's looking can be interleaved.
-/

namespace EmulatorOutput.Session

/-- Commands that reach the mailbox together, and whether the last sender leaves after
them. -/
structure Batch where
  commands : List Command := []
  hangUp : Bool := false
  deriving DecidableEq, Repr

/-- What reaches the mailbox while the session runs. -/
inductive Arrival where
  /-- There when the session next looks or waits. -/
  | atLook (batch : Batch)
  /-- There only once the session waits with nothing left to read. -/
  | whileWaiting (batch : Batch)
  /-- There just before the core sends its next command. -/
  | beforeSend (batch : Batch)
  deriving DecidableEq, Repr

namespace Arrival

def batch : Arrival → Batch
  | .atLook b | .whileWaiting b | .beforeSend b => b

end Arrival

/-- The commands sent and not yet read, whether anybody can still send, and what is to
arrive. -/
structure Mailbox where
  queue : List Command := []
  connected : Bool := true
  arrivals : List Arrival := []
  deriving DecidableEq, Repr

/-- What a look into the mailbox finds. -/
inductive Look where
  | command (c : Command)
  | empty
  /-- Nothing is left and nobody can send. -/
  | closed
  deriving DecidableEq, Repr

namespace Mailbox

/-- The commands that are there or still to arrive. -/
def pending (m : Mailbox) : Nat :=
  m.queue.length + m.arrivals.foldr (fun a n => a.batch.commands.length + n) 0

/-- Sends commands in their order. Once the last sender has left nothing is sent. -/
def post (m : Mailbox) (cs : List Command) : Mailbox :=
  if m.connected then { m with queue := m.queue ++ cs } else m

theorem post_append (m : Mailbox) (cs ds : List Command) :
    m.post (cs ++ ds) = (m.post cs).post ds := by
  cases h : m.connected <;> simp [post, h]

/-- The last sender leaves. -/
def hangUp (m : Mailbox) : Mailbox := { m with connected := false }

/-- Takes in a batch. -/
def deliver (m : Mailbox) (b : Batch) : Mailbox :=
  if m.connected then
    { m with queue := m.queue ++ b.commands, connected := !b.hangUp }
  else m

/-- The core sends commands in their order. Before each of them others may have arrived. -/
def sendAll (m : Mailbox) : List Command → Mailbox
  | [] => m
  | c :: cs =>
    match m.arrivals with
    | .beforeSend b :: arrivals => sendAll ((deliver { m with arrivals } b).post [c]) cs
    | _ => m.post (c :: cs)

def take (m : Mailbox) : Mailbox × Look :=
  match m.queue with
  | c :: queue => ({ m with queue }, .command c)
  | [] => (m, if m.connected then .empty else .closed)

def look (m : Mailbox) : Mailbox × Look :=
  match m.arrivals with
  | .atLook b :: arrivals => (deliver { m with arrivals } b).take
  | _ => m.take

/-- Waits a while for a command. An unread command ends the wait at once. -/
def wait (m : Mailbox) : Mailbox × Look :=
  match m.queue, m.arrivals with
  | [], a :: arrivals => (deliver { m with arrivals } a.batch).take
  | _, _ => m.take

theorem pending_deliver_le (m : Mailbox) (b : Batch) :
    (m.deliver b).pending ≤ m.pending + b.commands.length := by
  unfold deliver
  split
  · simp only [pending, List.length_append]
    omega
  · exact Nat.le_add_right _ _

theorem pending_take (m : Mailbox) {m' : Mailbox} {c : Command}
    (h : m.take = (m', .command c)) : m'.pending + 1 = m.pending := by
  unfold take at h
  split at h
  · rename_i d queue hq
    cases h
    simp [pending, hq]
    omega
  · split at h <;> cases h

theorem pending_look {m m' : Mailbox} {c : Command}
    (h : m.look = (m', .command c)) : m'.pending < m.pending := by
  unfold look at h
  split at h
  · rename_i b arrivals ha
    have h₁ := pending_take _ h
    have h₂ := pending_deliver_le { m with arrivals } b
    simp [pending, ha, Arrival.batch] at h₁ h₂ ⊢
    omega
  · have := pending_take _ h
    omega

end Mailbox

end EmulatorOutput.Session
