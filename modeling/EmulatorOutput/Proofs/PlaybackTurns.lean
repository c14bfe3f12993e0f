import EmulatorOutput.Proofs.NoticeLaws
import EmulatorOutput.Sound.PlaybackDevice
import Mathlib.Data.List.Induction

/-!
# Turns on a playback line

Producer and voice act in any order. A `Turn` is one step of the voice or of the world around it,
an `Act` is a turn or one step of the producer, and a run is any list of acts: an act that cannot
take place changes nothing. `Move` lists all that a turn can do to a line and `Step` all that an
act can do, so that what every step keeps holds of every run.
-/

namespace EmulatorOutput.Sound

/-- The bytes of periods one after another. -/
def bytesOf (ps : List Period) : List UInt8 := ps.flatMap fun p => p.data.toList

@[simp] theorem bytesOf_nil : bytesOf [] = [] := rfl

@[simp] theorem bytesOf_cons (p : Period) (ps : List Period) :
    bytesOf (p :: ps) = p.data.toList ++ bytesOf ps := rfl

@[simp] theorem bytesOf_append (ps qs : List Period) :
    bytesOf (ps ++ qs) = bytesOf ps ++ bytesOf qs := List.flatMap_append

/-- A sink to which nothing has been written. -/
def Sink.fresh (answers : Nat → WriteAnswer) : Sink := { answers }

/-- A write that fails, or that takes nothing, which counts as a failure. -/
def WriteAnswer.isFailure : WriteAnswer → Bool
  | .fails => true
  | .takes most => most = 0
  | .takesAll | .crashes => false

theorem Voice.ne_crashed_of_ended {v : Voice} (h : v.ended = false) : v ≠ .crashed := by
  rintro rfl
  cases h

namespace Line

/-- A step of the voice, of the clock or of the sink's writer. -/
inductive Turn where
  | advance
  | lapse
  | wake
  | elapse (nanos : Nat)
  | gate (blocked : Bool)
  deriving DecidableEq, Repr

def turn (l : Line) : Turn → Line
  | .advance => l.advance.getD l
  | .lapse => l.lapse.getD l
  | .wake => l.wake.getD l
  | .elapse nanos => { l with now := l.now + nanos }
  | .gate blocked => { l with sink := l.sink.map fun s => { s with blocked } }

def turns (l : Line) (ts : List Turn) : Line := ts.foldl turn l

/-- All that a turn can do. -/
inductive Move (l : Line) : Line → Prop where
  | rest : Move l l
  | tick (nanos : Nat) : Move l { l with now := l.now + nanos }
  | gate (blocked : Bool) : Move l { l with sink := l.sink.map fun s => { s with blocked } }
  | begin (p : Period) (queue : List Period) (hv : l.voice = .idle) (hq : l.queue = p :: queue) :
      Move l { l with queue, voice := .received p }
  | leave (hv : l.voice = .idle) (hq : l.queue = []) (hc : l.connected = false) :
      Move l { l with voice := .draining }
  | lapse (hv : l.voice = .idle) (hq : l.queue = []) : Move l { l with voice := .lapsed }
  | heed (hv : l.voice = .lapsed) (hs : l.stopping = true) : Move l { l with voice := .draining }
  | resume (hv : l.voice = .lapsed) (hs : l.stopping = false) : Move l { l with voice := .idle }
  | hold (p : Period) (underruns until_ : Nat) (hv : l.voice = .received p) :
      Move l { l with
        counts.underruns := underruns
        playedUntil := some until_
        voice := .sleeping p until_ }
  /-- A period whose play time cannot be told loses the voice. -/
  | derail (p : Period) (underruns : Nat) (e : Fault) (hv : l.voice = .received p)
      (hr : l.realtime = true) (he : l.format.nanosOf p.data.size = .error e) :
      Move l (loseVoice { l with counts.underruns := underruns })
  | hurry (p : Period) (hv : l.voice = .received p) : Move l { l with voice := .writing p 0 }
  | wake (p : Period) (time : Nat) (hv : l.voice = .sleeping p time) :
      Move l { l with voice := .writing p 0 }
  | skip (p : Period) (done : Nat) (hv : l.voice = .writing p done)
      (hs : l.sink = none ∨ l.sinkInUse = false ∨ p.data.size ≤ done) :
      Move l { l with voice := .played p }
  | put (p : Period) (done n : Nat) (s : Sink) (hv : l.voice = .writing p done)
      (hs : l.sink = some s) (hu : l.sinkInUse = true)
      (ha : (s.answers s.writes).isFailure = false) :
      Move l { l with
        sink := some (Sink.take { s with writes := s.writes + 1 }
          (p.data.extract done (done + n)))
        voice := .writing p (done + n) }
  | lose (p : Period) (done : Nat) (s : Sink) (hv : l.voice = .writing p done)
      (hs : l.sink = some s) (hu : l.sinkInUse = true)
      (ha : (s.answers s.writes).isFailure = true) :
      Move l (l.loseSink { s with writes := s.writes + 1 } p)
  | burst (p : Period) (done : Nat) (s : Sink) (hv : l.voice = .writing p done)
      (hs : l.sink = some s) (hu : l.sinkInUse = true) (ha : s.answers s.writes = .crashes) :
      Move l (loseVoice { l with sink := some { s with writes := s.writes + 1 } })
  | count (p : Period) (hv : l.voice = .played p) :
      Move l { l with
        counts.periodsPlayed := l.counts.periodsPlayed + 1
        counts.bytesPlayed := l.counts.bytesPlayed + p.data.size
        voice := .counted p }
  | send (p : Period) (hv : l.voice = .counted p) :
      Move l { l with released := l.released ++ [p.id], voice := .idle }
  | flush (hv : l.voice = .draining) :
      Move l { l with
        sink := l.sink.map fun s => if l.sinkInUse then { s with flushes := s.flushes + 1 } else s
        voice := .exited }

variable {l l' : Line}

theorem pace_move {p : Period} (hv : l.voice = .received p) (hr : l.realtime = true) :
    l.Move (l.pace p) := by
  unfold pace
  dsimp only
  cases he : l.format.nanosOf p.data.size with
  | error e => exact .derail p _ e hv hr he
  | ok nanos => exact .hold p _ _ hv

theorem write_move {p : Period} {done : Nat} (hv : l.voice = .writing p done)
    (h : l.write p done = some l') : l.Move l' := by
  unfold write at h
  split at h
  · rename_i hs
    cases h
    exact .skip p done hv (.inl hs)
  · rename_i s hs
    split at h
    · rename_i hidle
      cases h
      exact .skip p done hv (.inr (by simpa using hidle))
    · rename_i hbusy
      obtain ⟨hu, -⟩ := not_or.mp hbusy
      have hu : l.sinkInUse = true := Decidable.not_not.mp hu
      split at h
      · cases h
      · dsimp only at h
        split at h
        · rename_i ha
          cases h
          exact .put p done _ s hv hs hu (by rw [ha]; rfl)
        · rename_i most ha
          split at h
          · rename_i hzero
            cases h
            exact .lose p done s hv hs hu (by rw [ha]; exact decide_eq_true hzero)
          · rename_i hsome
            cases h
            exact .put p done _ s hv hs hu (by rw [ha]; exact decide_eq_false hsome)
        · rename_i ha
          cases h
          exact .lose p done s hv hs hu (by rw [ha]; rfl)
        · rename_i ha
          cases h
          exact .burst p done s hv hs hu ha

theorem advance_move (h : l.advance = some l') : l.Move l' := by
  unfold advance at h
  split at h
  · rename_i hv
    split at h
    · rename_i p queue hq
      cases h
      exact .begin p queue hv hq
    · rename_i hq
      split at h
      · cases h
      · rename_i hc
        cases h
        exact .leave hv hq (Bool.eq_false_iff.mpr hc)
  · rename_i hv
    by_cases hs : l.stopping = true
    · rw [if_pos hs] at h
      cases h
      exact .heed hv hs
    · rw [if_neg hs] at h
      cases h
      exact .resume hv (Bool.eq_false_iff.mpr hs)
  · rename_i p hv
    split at h
    · rename_i hpaced
      cases h
      exact pace_move hv hpaced.1
    · cases h
      exact .hurry p hv
  · cases h
  · rename_i p done hv
    exact write_move hv h
  · rename_i p hv
    cases h
    exact .count p hv
  · rename_i p hv
    cases h
    exact .send p hv
  · rename_i hv
    cases h
    exact .flush hv
  · cases h
  · cases h

theorem turn_move (l : Line) (t : Turn) : l.Move (l.turn t) := by
  cases t with
  | advance =>
    change l.Move (l.advance.getD l)
    cases h : l.advance with
    | none => exact .rest
    | some l' => exact advance_move h
  | lapse =>
    change l.Move (l.lapse.getD l)
    unfold lapse
    split
    · rename_i h
      exact .lapse h.1 h.2.1
    · exact .rest
  | wake =>
    change l.Move (l.wake.getD l)
    unfold wake
    split
    · rename_i p time hv
      split
      · exact .wake p time hv
      · exact .rest
    · exact .rest
  | elapse nanos => exact .tick nanos
  | gate blocked => exact .gate blocked

/-- A turn leaves alone what the line was opened with. -/
theorem Move.made (m : l.Move l') : l'.format = l.format ∧ l'.realtime = l.realtime ∧
    l'.sink.map Sink.answers = l.sink.map Sink.answers := by
  cases m with
  | gate blocked =>
    refine ⟨rfl, rfl, ?_⟩
    rw [Option.map_map]
    rfl
  | put p done n s hv hs hu ha => exact ⟨rfl, rfl, by rw [hs]; rfl⟩
  | lose p done s hv hs hu ha => exact ⟨rfl, rfl, by rw [hs]; rfl⟩
  | burst p done s hv hs hu ha => exact ⟨rfl, rfl, by rw [hs]; rfl⟩
  | flush hv =>
    refine ⟨rfl, rfl, ?_⟩
    rw [Option.map_map]
    congr 1
    funext s
    dsimp only [Function.comp_apply]
    split <;> rfl
  | _ => exact ⟨rfl, rfl, rfl⟩

/-- A turn leaves the producer's flag and its end of the queue alone, and the voice of a running
line leaves its loop only by being lost. -/
theorem Move.steady (m : l.Move l') : l'.stopping = l.stopping ∧ l'.connected = l.connected ∧
    l'.joined = l.joined ∧
    (l.stopping = false → l.connected = true → l.voice ≠ .draining → l.voice ≠ .exited →
      l'.voice ≠ .draining ∧ l'.voice ≠ .exited) := by
  cases m with
  | rest => exact ⟨rfl, rfl, rfl, fun _ _ hd he => ⟨hd, he⟩⟩
  | tick nanos => exact ⟨rfl, rfl, rfl, fun _ _ hd he => ⟨hd, he⟩⟩
  | gate blocked => exact ⟨rfl, rfl, rfl, fun _ _ hd he => ⟨hd, he⟩⟩
  | leave hv hq hc =>
    exact ⟨rfl, rfl, rfl, fun _ h => absurd (hc.symm.trans h) Bool.false_ne_true⟩
  | heed hv hs =>
    exact ⟨rfl, rfl, rfl, fun h => absurd (h.symm.trans hs) Bool.false_ne_true⟩
  | flush hv => exact ⟨rfl, rfl, rfl, fun _ _ hd => absurd hv hd⟩
  | _ => exact ⟨rfl, rfl, rfl, fun _ _ _ _ => ⟨Voice.noConfusion, Voice.noConfusion⟩⟩

/-- A voice that has ended does not come back. -/
theorem Move.ended (m : l.Move l') (h : l.voice.ended = true) : l'.voice.ended = true := by
  cases m with
  | rest => exact h
  | tick nanos => exact h
  | gate blocked => exact h
  | _ => simp_all [Voice.ended]

theorem Move.inFlight_eq (m : l.Move l') : l'.inFlight = l.inFlight := by
  cases m <;> rfl

theorem turns_append (l : Line) (ts us : List Turn) :
    l.turns (ts ++ us) = (l.turns ts).turns us := List.foldl_append

/-- What every turn keeps holds after all of them. -/
theorem turns_induction {P : Line → Prop} (hmove : ∀ l l', P l → l.Move l' → P l') (h : P l)
    (ts : List Turn) : P (l.turns ts) := by
  induction ts generalizing l with
  | nil => exact h
  | cons t ts ih => exact ih (hmove _ _ h (l.turn_move t))

theorem turns_steady (l : Line) (ts : List Turn) :
    (l.turns ts).stopping = l.stopping ∧ (l.turns ts).connected = l.connected ∧
      (l.turns ts).inFlight = l.inFlight :=
  turns_induction
    (P := fun l' => l'.stopping = l.stopping ∧ l'.connected = l.connected ∧
      l'.inFlight = l.inFlight)
    (fun _ _ h m => ⟨m.steady.1.trans h.1, m.steady.2.1.trans h.2.1, m.inFlight_eq.trans h.2.2⟩)
    ⟨rfl, rfl, rfl⟩ ts

theorem turns_ended (h : l.voice.ended = true) (ts : List Turn) :
    (l.turns ts).voice.ended = true :=
  turns_induction (P := fun l => l.voice.ended = true) (fun _ _ h m => m.ended h) h ts

/-! ## Coming to rest -/

/-- The voice has ended, or has nothing to do. -/
def Resting (l : Line) : Prop :=
  l.voice.ended = true ∨ (l.voice = .idle ∧ l.queue = [] ∧ l.connected = true)

theorem write_ne_none {p : Period} {done : Nat}
    (hopen : ∀ s, l.sink = some s → s.blocked = false) : l.write p done ≠ none := by
  unfold write
  split
  · exact Option.some_ne_none _
  · rename_i s hs
    rw [hopen s hs, if_neg Bool.false_ne_true]
    split
    · exact Option.some_ne_none _
    · dsimp only
      split
      · exact Option.some_ne_none _
      · split <;> exact Option.some_ne_none _
      · exact Option.some_ne_none _
      · exact Option.some_ne_none _

/-- A voice that does not rest, sleep or wait for its sink can go on. -/
theorem advance_ne_none (hrest : ¬ l.Resting) (hsleep : ∀ p time, l.voice ≠ .sleeping p time)
    (hopen : ∀ s, l.sink = some s → s.blocked = false) : l.advance ≠ none := by
  unfold advance
  split
  · rename_i hv
    split
    · exact Option.some_ne_none _
    · rename_i hq
      split
      · rename_i hc
        exact absurd (.inr ⟨hv, hq, hc⟩) hrest
      · exact Option.some_ne_none _
  · exact Option.some_ne_none _
  · split <;> exact Option.some_ne_none _
  · rename_i p time hv
    exact absurd hv (hsleep p time)
  · exact write_ne_none hopen
  · exact Option.some_ne_none _
  · exact Option.some_ne_none _
  · exact Option.some_ne_none _
  · rename_i hv
    exact absurd (.inl (by rw [hv]; rfl)) hrest
  · rename_i hv
    exact absurd (.inl (by rw [hv]; rfl)) hrest

instance (l : Line) : Decidable l.Resting := inferInstanceAs (Decidable (_ ∨ _))

/-- The turns that get the voice on: its play time passes, or its sink returns and it goes on. -/
def nextTurns (l : Line) : List Turn :=
  match l.voice with
  | .sleeping _ time => [.elapse (time - l.now), .wake]
  | _ => [.gate false, .advance]

theorem work_nextTurns_lt (hrest : ¬ l.Resting) : (l.turns l.nextTurns).work < l.work := by
  unfold nextTurns
  split
  · rename_i p time hv
    have hwake : wake { l with now := l.now + (time - l.now) } =
        some { l with now := l.now + (time - l.now), voice := .writing p 0 } := by
      simp [wake, hv]
      omega
    change ((wake { l with now := l.now + (time - l.now) }).getD _).work < l.work
    rw [hwake]
    exact Nat.lt_of_lt_of_eq (work_wake hwake) rfl
  · rename_i hsleep
    have hopen : ∀ s, (l.turn (.gate false)).sink = some s → s.blocked = false := by
      intro s hs
      obtain ⟨s₀, -, rfl⟩ := Option.map_eq_some_iff.mp hs
      rfl
    have hadvance : (l.turn (.gate false)).advance ≠ none :=
      advance_ne_none hrest (fun p time hv => hsleep p time hv) hopen
    obtain ⟨next, hnext⟩ := Option.ne_none_iff_exists'.mp hadvance
    change ((l.turn (.gate false)).advance.getD _).work < l.work
    rw [hnext]
    exact Nat.lt_of_lt_of_eq (work_advance hnext) rfl

/-- The turns that bring the line to rest. -/
def restTurns (l : Line) : List Turn :=
  if _ : l.Resting then [] else l.nextTurns ++ restTurns (l.turns l.nextTurns)
termination_by l.work
decreasing_by exact work_nextTurns_lt (by assumption)

/-- From everywhere the line can come to rest by turns alone. -/
theorem resting_turns_restTurns (l : Line) : (l.turns l.restTurns).Resting := by
  fun_induction restTurns l with
  | case1 l hrest => exact hrest
  | case2 l hrest ih => rwa [turns_append]

/-- What an offer can come to. -/
theorem accept_cases (l : Line) (p : Period) :
    (l.voice.ended = false ∧ l.queue.length < queueCapacity ∧
      l.accept p = ({ l with queue := l.queue ++ [p], inFlight := l.inFlight + 1 }, .ok ())) ∨
    ∃ e, l.accept p = (l, .error e) ∧
      (l.connected = true → l.voice.ended = false →
        e = .deviceError "playback queue full" ∧ queueCapacity ≤ l.queue.length) := by
  unfold accept
  by_cases hc : l.connected = true
  · rw [if_neg (not_not.mpr hc)]
    cases he : l.voice.ended with
    | true => exact .inr ⟨_, rfl, fun _ h => absurd h.symm Bool.false_ne_true⟩
    | false =>
      rw [if_neg Bool.false_ne_true]
      by_cases hq : queueCapacity ≤ l.queue.length
      · rw [if_pos hq]
        exact .inr ⟨_, rfl, fun _ _ => ⟨rfl, hq⟩⟩
      · rw [if_neg hq]
        exact .inl ⟨rfl, Nat.not_le.mp hq, rfl⟩
  · rw [if_pos hc]
    exact .inr ⟨_, rfl, fun h => absurd h hc⟩

theorem accept_voice (l : Line) (p : Period) : (l.accept p).1.voice = l.voice := by
  obtain ⟨-, -, ha⟩ | ⟨e, ha, -⟩ := l.accept_cases p <;> rw [ha]

/-- What a wait can come to at once. -/
theorem receive_cases (l : Line) :
    (∃ id released, l.inFlight ≠ 0 ∧ l.released = id :: released ∧ l.receive =
      some ({ l with released, inFlight := l.inFlight - 1 }, .ok (.released id))) ∨
    (l.inFlight = 0 ∧ l.receive = some (l, .ok .idle)) ∨
    (∃ e, l.voice.ended = true ∧ l.receive = some (l, .error e)) ∨
    (l.inFlight ≠ 0 ∧ l.released = [] ∧ l.voice.ended = false ∧ l.receive = none) := by
  unfold receive
  by_cases hpos : l.inFlight = 0
  · exact .inr (.inl ⟨hpos, if_pos hpos⟩)
  · rw [if_neg hpos]
    cases hr : l.released with
    | cons id released => exact .inl ⟨id, released, hpos, rfl, rfl⟩
    | nil =>
      cases he : l.voice.ended with
      | true => exact .inr (.inr (.inl ⟨_, rfl, rfl⟩))
      | false => exact .inr (.inr (.inr ⟨hpos, rfl, rfl, rfl⟩))

theorem start_eq {format : Format} {realtime : Bool} {sink : Option Sink}
    (h : (start format realtime sink).outcome = .ok l) : l = { format, realtime, sink } := by
  unfold start at h
  rw [Logged.bind_outcome_eq_ok_iff] at h
  obtain ⟨text, -, h⟩ := h
  cases h
  rfl

end Line

/-- A line with what its producer knows of it. -/
structure Playing where
  line : Line
  /-- The periods the line has accepted, oldest first. -/
  accepted : List Period := []
  /-- The buffers the producer has been told are free, oldest first. -/
  heard : List Nat := []

/-- A turn on the line, or a step of the producer: it hands a period over, looks whether a wait
can end, or stops the line in three steps. -/
inductive Act where
  | turn (t : Line.Turn)
  | offer (p : Period)
  | wait
  | raiseStop
  | hangUp
  | join
  deriving DecidableEq, Repr

namespace Playing

/-- A producer that stops the line hands over nothing more, closes the queue after it has raised
the flag, and returns only when the voice has ended. -/
def act (g : Playing) : Act → Playing
  | .turn t => { g with line := g.line.turn t }
  | .offer p =>
    if g.line.stopping then g
    else
      match g.line.accept p with
      | (line, .ok ()) => { g with line, accepted := g.accepted ++ [p] }
      | (line, .error _) => { g with line }
  | .wait =>
    if g.line.stopping then g
    else
      match g.line.receive with
      | some (line, .ok (.released id)) => { g with line, heard := g.heard ++ [id] }
      | some (line, _) => { g with line }
      | none => g
  | .raiseStop => { g with line := g.line.raiseStop }
  | .hangUp => if g.line.stopping then { g with line := g.line.hangUp } else g
  | .join =>
    if ¬ g.line.connected ∧ g.line.voice.ended then { g with line := g.line.join.1 } else g

def run (g : Playing) (acts : List Act) : Playing := acts.foldl act g

/-- All that an act can do. -/
inductive Step (g : Playing) : Playing → Prop where
  | move {l : Line} (m : g.line.Move l) : Step g { g with line := l }
  | accept (p : Period) (hs : g.line.stopping = false) (he : g.line.voice.ended = false)
      (hlt : g.line.queue.length < Line.queueCapacity) :
      Step g { g with
        line := { g.line with queue := g.line.queue ++ [p], inFlight := g.line.inFlight + 1 }
        accepted := g.accepted ++ [p] }
  | hear (id : Nat) (released : List Nat) (hs : g.line.stopping = false)
      (hpos : g.line.inFlight ≠ 0) (hr : g.line.released = id :: released) :
      Step g { g with
        line := { g.line with released, inFlight := g.line.inFlight - 1 }
        heard := g.heard ++ [id] }
  | raiseStop : Step g { g with line := g.line.raiseStop }
  | hangUp (hs : g.line.stopping = true) : Step g { g with line := g.line.hangUp }
  | join (hc : g.line.connected = false) (he : g.line.voice.ended = true) :
      Step g { g with line := g.line.join.1 }

theorem offer_step (g : Playing) (p : Period) : g.Step (g.act (.offer p)) := by
  unfold act
  dsimp only
  by_cases hs : g.line.stopping = true
  · rw [if_pos hs]
    exact .move .rest
  · rw [if_neg hs]
    obtain ⟨he, hlt, ha⟩ | ⟨e, ha, -⟩ := g.line.accept_cases p
    · rw [ha]
      exact .accept p (Bool.eq_false_iff.mpr hs) he hlt
    · rw [ha]
      exact .move .rest

theorem wait_step (g : Playing) : g.Step (g.act .wait) := by
  unfold act
  dsimp only
  by_cases hs : g.line.stopping = true
  · rw [if_pos hs]
    exact .move .rest
  · rw [if_neg hs]
    obtain ⟨id, released, hpos, hr, ha⟩ | ⟨-, ha⟩ | ⟨e, -, ha⟩ | ⟨-, -, -, ha⟩ :=
      g.line.receive_cases
    · rw [ha]
      exact .hear id released (Bool.eq_false_iff.mpr hs) hpos hr
    · rw [ha]
      exact .move .rest
    · rw [ha]
      exact .move .rest
    · rw [ha]
      exact .move .rest

theorem act_step (g : Playing) (a : Act) : g.Step (g.act a) := by
  cases a with
  | turn t => exact .move (g.line.turn_move t)
  | offer p => exact g.offer_step p
  | wait => exact g.wait_step
  | raiseStop => exact .raiseStop
  | hangUp =>
    unfold act
    dsimp only
    split_ifs with hs
    · exact .hangUp hs
    · exact .move .rest
  | join =>
    unfold act
    dsimp only
    split_ifs with h
    · exact .join (Bool.eq_false_iff.mpr h.1) h.2
    · exact .move .rest

theorem run_append (g : Playing) (acts more : List Act) :
    g.run (acts ++ more) = (g.run acts).run more := List.foldl_append

theorem run_concat (g : Playing) (acts : List Act) (a : Act) :
    g.run (acts ++ [a]) = (g.run acts).act a := g.run_append acts [a]

/-- What every step keeps holds of every run. -/
theorem run_induction {P : Playing → Prop} (hstep : ∀ g g', P g → g.Step g' → P g') {g : Playing}
    (h : P g) (acts : List Act) : P (g.run acts) := by
  induction acts using List.reverseRecOn with
  | nil => exact h
  | append_singleton acts a ih =>
    rw [run_concat]
    exact hstep _ _ ih (act_step _ a)

theorem run_turns (g : Playing) (ts : List Line.Turn) :
    g.run (ts.map .turn) = { g with line := g.line.turns ts } := by
  induction ts generalizing g with
  | nil => rfl
  | cons t ts ih => exact ih { g with line := g.line.turn t }

end Playing

end EmulatorOutput.Sound
