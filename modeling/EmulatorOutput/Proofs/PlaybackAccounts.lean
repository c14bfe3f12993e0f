import EmulatorOutput.Proofs.PlaybackTurns

/-!
# The accounts of a playback line

Whatever order producer and voice act in, every period accepted is in one place: the producer has
heard of its release, or word of it is on the way, or the voice holds it, or it is queued, and in
this order. Once the voice is lost, what it held and what was queued is nowhere, and yet counts as
in flight. What the sink has taken, what the voice has still to write and what is queued are the
bytes accepted, until the sink is given up.
-/

namespace EmulatorOutput.Sound

/-- What a sink has been through. -/
def Sink.record (s : Sink) : (Nat → WriteAnswer) × List (Array UInt8) × Nat :=
  (s.answers, s.chunks, s.writes)

theorem Sink.eq_of_record {s t : Sink} (h : s.record = t.record) :
    s.answers = t.answers ∧ s.written = t.written ∧ s.writes = t.writes := by
  simp only [record, Prod.mk.injEq] at h
  obtain ⟨hanswers, hchunks, hwrites⟩ := h
  exact ⟨hanswers, by rw [written, hchunks, written], hwrites⟩

namespace Voice

/-- The periods the voice has taken and not yet sent word of. -/
def held : Voice → List Period
  | .received p | .sleeping p _ | .writing p _ | .played p | .counted p => [p]
  | .idle | .lapsed | .draining | .exited | .crashed => []

/-- What the voice has counted and not yet sent word of. -/
def tallied : Voice → List Period
  | .counted p => [p]
  | _ => []

/-- The bytes of its period that the voice has still to write. -/
def unwritten : Voice → List UInt8
  | .received p | .sleeping p _ => p.data.toList
  | .writing p done => p.data.toList.drop done
  | _ => []

theorem tallied_prefix_held (v : Voice) : v.tallied <+: v.held := by
  cases v with
  | counted p => exact List.prefix_rfl
  | _ => exact List.nil_prefix

end Voice

namespace Playing

/-- Where the accepted periods are: passed on to the producer, held by the voice, queued, or lost
with the voice. -/
structure Custody (g : Playing) (passed lost : List Period) : Prop where
  accepted_eq : g.accepted = passed ++ g.line.voice.held ++ g.line.queue ++ lost
  lost_eq_nil_iff : lost = [] ↔ g.line.voice ≠ .crashed
  told_eq : passed.map Period.id = g.heard ++ g.line.released
  periods_eq : g.line.counts.periodsPlayed = (passed ++ g.line.voice.tallied).length
  bytes_eq : g.line.counts.bytesPlayed = (bytesOf (passed ++ g.line.voice.tallied)).length
  /-- What is lost still counts as in flight. -/
  inFlight_eq : g.line.joined = false → g.line.inFlight =
    g.line.queue.length + g.line.voice.held.length + g.line.released.length + lost.length
  queue_le : g.line.queue.length ≤ Line.queueCapacity

/-- What a line has in store, and what it has counted. -/
def stock (l : Line) : List Period × List Nat × Nat × Bool × Nat × Nat :=
  (l.queue, l.released, l.inFlight, l.joined, l.counts.periodsPlayed, l.counts.bytesPlayed)

namespace Custody

variable {g : Playing} {passed lost : List Period} {l : Line}

theorem lost_eq_nil (h : Custody g passed lost) (hv : g.line.voice ≠ .crashed) : lost = [] :=
  h.lost_eq_nil_iff.mpr hv

/-- The voice goes on with what it holds. -/
theorem keep (h : Custody g passed lost) {v : Voice} (hv : g.line.voice = v)
    (hl : stock l = stock g.line) (hheld : l.voice.held = v.held)
    (htallied : l.voice.tallied = v.tallied) (hcrashed : l.voice = .crashed ↔ v = .crashed) :
    Custody { g with line := l } passed lost := by
  simp only [stock, Prod.mk.injEq] at hl
  obtain ⟨hqueue, hreleased, hinFlight, hjoined, hperiods, hbytes⟩ := hl
  subst hv
  exact {
    accepted_eq := by rw [hqueue, hheld, h.accepted_eq]
    lost_eq_nil_iff := h.lost_eq_nil_iff.trans (not_congr hcrashed.symm)
    told_eq := hreleased ▸ h.told_eq
    periods_eq := by rw [hperiods, htallied, h.periods_eq]
    bytes_eq := by rw [hbytes, htallied, h.bytes_eq]
    inFlight_eq := by
      rw [hqueue, hheld, hreleased, hinFlight, hjoined]
      exact h.inFlight_eq
    queue_le := hqueue ▸ h.queue_le }

theorem begin {p : Period} {queue : List Period} (h : Custody g passed lost)
    (hv : g.line.voice = .idle) (hq : g.line.queue = p :: queue) :
    Custody { g with line := { g.line with queue, voice := .received p } } passed lost where
  accepted_eq := by simp [h.accepted_eq, hv, hq, Voice.held]
  lost_eq_nil_iff := by simp [h.lost_eq_nil_iff, hv]
  told_eq := h.told_eq
  periods_eq := by rw [h.periods_eq, hv]; rfl
  bytes_eq := by rw [h.bytes_eq, hv]; rfl
  inFlight_eq hj := by
    rw [h.inFlight_eq hj, hv, hq]
    rfl
  queue_le := Nat.le_of_succ_le (by simpa [hq] using h.queue_le)

theorem count {p : Period} (h : Custody g passed lost) (hv : g.line.voice = .played p) :
    Custody
      { g with
        line := { g.line with
          counts.periodsPlayed := g.line.counts.periodsPlayed + 1
          counts.bytesPlayed := g.line.counts.bytesPlayed + p.data.size
          voice := .counted p } }
      passed lost where
  accepted_eq := by rw [h.accepted_eq, hv]; rfl
  lost_eq_nil_iff := by simp [h.lost_eq_nil_iff, hv]
  told_eq := h.told_eq
  periods_eq := by simp [h.periods_eq, hv, Voice.tallied]
  bytes_eq := by simp [h.bytes_eq, hv, Voice.tallied]
  inFlight_eq hj := by
    rw [h.inFlight_eq hj, hv]
    rfl
  queue_le := h.queue_le

theorem send {p : Period} (h : Custody g passed lost) (hv : g.line.voice = .counted p) :
    Custody
      { g with line := { g.line with released := g.line.released ++ [p.id], voice := .idle } }
      (passed ++ [p]) lost where
  accepted_eq := by simp [h.accepted_eq, hv, Voice.held]
  lost_eq_nil_iff := by simp [h.lost_eq_nil_iff, hv]
  told_eq := by simp [h.told_eq]
  periods_eq := by simp [h.periods_eq, hv, Voice.tallied]
  bytes_eq := by simp [h.bytes_eq, hv, Voice.tallied]
  inFlight_eq hj := by
    rw [h.inFlight_eq hj, hv]
    simp [Voice.held]
    omega
  queue_le := h.queue_le

/-- The voice is lost, with the period it held and all that was queued. -/
theorem lose {p : Period} (h : Custody g passed lost) (hheld : g.line.voice.held = [p])
    (htallied : g.line.voice.tallied = []) (hl : stock l = stock g.line) :
    Custody { g with line := l.loseVoice } passed (p :: g.line.queue) := by
  have hnone : lost = [] := h.lost_eq_nil fun hv => by
    rw [hv] at hheld
    cases hheld
  simp only [stock, Prod.mk.injEq] at hl
  obtain ⟨-, hreleased, hinFlight, hjoined, hperiods, hbytes⟩ := hl
  exact {
    accepted_eq := by
      rw [h.accepted_eq, hheld, hnone]
      simp [Line.loseVoice, Voice.held]
    lost_eq_nil_iff := by simp [Line.loseVoice]
    told_eq := hreleased ▸ h.told_eq
    periods_eq := hperiods.trans (by rw [h.periods_eq, htallied]; rfl)
    bytes_eq := hbytes.trans (by rw [h.bytes_eq, htallied]; rfl)
    inFlight_eq := fun hj => by
      have hcount := h.inFlight_eq (hjoined.symm.trans hj)
      rw [hheld, hnone, ← hinFlight, ← hreleased] at hcount
      change l.inFlight = 0 + 0 + l.released.length + (g.line.queue.length + 1)
      rw [hcount, List.length_singleton, List.length_nil]
      omega
    queue_le := Nat.zero_le _ }

theorem accept (h : Custody g passed lost) (p : Period) (hv : g.line.voice ≠ .crashed)
    (hlt : g.line.queue.length < Line.queueCapacity) :
    Custody
      { g with
        line := { g.line with queue := g.line.queue ++ [p], inFlight := g.line.inFlight + 1 }
        accepted := g.accepted ++ [p] }
      passed lost where
  accepted_eq := by simp [h.accepted_eq, h.lost_eq_nil hv]
  lost_eq_nil_iff := h.lost_eq_nil_iff
  told_eq := h.told_eq
  periods_eq := h.periods_eq
  bytes_eq := h.bytes_eq
  inFlight_eq hj := by
    rw [h.inFlight_eq hj]
    simp
    omega
  queue_le := by
    rw [List.length_append]
    exact hlt

theorem hear {id : Nat} {released : List Nat} (h : Custody g passed lost)
    (hr : g.line.released = id :: released) :
    Custody
      { g with
        line := { g.line with released, inFlight := g.line.inFlight - 1 }
        heard := g.heard ++ [id] }
      passed lost where
  accepted_eq := h.accepted_eq
  lost_eq_nil_iff := h.lost_eq_nil_iff
  told_eq := by simp [h.told_eq, hr]
  periods_eq := h.periods_eq
  bytes_eq := h.bytes_eq
  inFlight_eq hj := by
    have hcount := h.inFlight_eq hj
    rw [hr, List.length_cons] at hcount
    change g.line.inFlight - 1 =
      g.line.queue.length + g.line.voice.held.length + released.length + lost.length
    omega
  queue_le := h.queue_le

/-- A turn leaves every accepted period in one place. -/
theorem move (h : Custody g passed lost) (m : g.line.Move l) :
    ∃ passed' lost', Custody { g with line := l } passed' lost' := by
  cases m with
  | rest => exact ⟨passed, lost, h⟩
  | tick nanos => exact ⟨passed, lost, h.keep rfl rfl rfl rfl .rfl⟩
  | gate blocked => exact ⟨passed, lost, h.keep rfl rfl rfl rfl .rfl⟩
  | begin p queue hv hq => exact ⟨passed, lost, h.begin hv hq⟩
  | leave hv hq hc => exact ⟨passed, lost, h.keep hv rfl rfl rfl ⟨nofun, nofun⟩⟩
  | lapse hv hq => exact ⟨passed, lost, h.keep hv rfl rfl rfl ⟨nofun, nofun⟩⟩
  | heed hv hs => exact ⟨passed, lost, h.keep hv rfl rfl rfl ⟨nofun, nofun⟩⟩
  | resume hv hs => exact ⟨passed, lost, h.keep hv rfl rfl rfl ⟨nofun, nofun⟩⟩
  | hold p underruns until_ hv => exact ⟨passed, lost, h.keep hv rfl rfl rfl ⟨nofun, nofun⟩⟩
  | derail p underruns e hv hr he =>
    exact ⟨passed, p :: g.line.queue, h.lose (by rw [hv]; rfl) (by rw [hv]; rfl) rfl⟩
  | hurry p hv => exact ⟨passed, lost, h.keep hv rfl rfl rfl ⟨nofun, nofun⟩⟩
  | wake p time hv => exact ⟨passed, lost, h.keep hv rfl rfl rfl ⟨nofun, nofun⟩⟩
  | skip p done hv hs => exact ⟨passed, lost, h.keep hv rfl rfl rfl ⟨nofun, nofun⟩⟩
  | put p done n s hv hs hu ha =>
    exact ⟨passed, lost, h.keep hv rfl rfl rfl ⟨nofun, nofun⟩⟩
  | lose p done s hv hs hu ha =>
    exact ⟨passed, lost, h.keep hv rfl rfl rfl ⟨nofun, nofun⟩⟩
  | burst p done s hv hs hu ha =>
    exact ⟨passed, p :: g.line.queue, h.lose (by rw [hv]; rfl) (by rw [hv]; rfl) rfl⟩
  | count p hv => exact ⟨passed, lost, h.count hv⟩
  | send p hv => exact ⟨passed ++ [p], lost, h.send hv⟩
  | flush hv => exact ⟨passed, lost, h.keep hv rfl rfl rfl ⟨nofun, nofun⟩⟩

end Custody

/-! ## The sink -/

/-- What the sink has taken, and whether it has failed. -/
structure Sounding (g : Playing) : Prop where
  silent : g.line.sink = none → g.line.counts.sinkErrors = 0
  written_le : ∀ s, g.line.sink = some s → s.written.toList <+: bytesOf g.accepted
  rest_eq : g.line.sinkInUse = true → g.line.voice ≠ .crashed → ∀ s, g.line.sink = some s →
    s.written.toList ++ (g.line.voice.unwritten ++ bytesOf g.line.queue) = bytesOf g.accepted
  errors_eq : g.line.counts.sinkErrors = if g.line.sinkInUse then 0 else 1
  failures_eq : ∀ s, g.line.sink = some s → g.line.counts.sinkErrors =
    (List.range s.writes).countP fun i => (s.answers i).isFailure
  last_failure : ∀ s, g.line.sink = some s → ∀ i < s.writes, (s.answers i).isFailure = true →
    i + 1 = s.writes

namespace Sounding

variable {g : Playing} {l : Line}

theorem keep (h : Sounding g) {v : Voice} (hv : g.line.voice = v)
    (hsink : l.sink.map Sink.record = g.line.sink.map Sink.record)
    (huse : l.sinkInUse = g.line.sinkInUse)
    (herrors : l.counts.sinkErrors = g.line.counts.sinkErrors)
    (hrest : l.sink ≠ none → l.sinkInUse = true → l.voice ≠ .crashed → v ≠ .crashed ∧
      l.voice.unwritten ++ bytesOf l.queue = v.unwritten ++ bytesOf g.line.queue) :
    Sounding { g with line := l } := by
  have hold : ∀ s, l.sink = some s → ∃ s₀, g.line.sink = some s₀ ∧ s₀.answers = s.answers ∧
      s₀.written = s.written ∧ s₀.writes = s.writes := by
    intro s hs
    rw [hs, Option.map_some, eq_comm, Option.map_eq_some_iff] at hsink
    obtain ⟨s₀, hs₀, hrecord⟩ := hsink
    exact ⟨s₀, hs₀, Sink.eq_of_record hrecord⟩
  subst hv
  exact {
    silent := fun hs => by
      rw [hs, Option.map_none, eq_comm, Option.map_eq_none_iff] at hsink
      exact herrors.trans (h.silent hsink)
    written_le := fun s hs => by
      obtain ⟨s₀, hs₀, -, hwritten, -⟩ := hold s hs
      exact hwritten ▸ h.written_le s₀ hs₀
    rest_eq := fun hu hc s hs => by
      obtain ⟨s₀, hs₀, -, hwritten, -⟩ := hold s hs
      obtain ⟨hc₀, heq⟩ := hrest (by rw [hs]; exact Option.some_ne_none s) hu hc
      change s.written.toList ++ (l.voice.unwritten ++ bytesOf l.queue) = _
      rw [heq, ← hwritten]
      exact h.rest_eq (huse ▸ hu) hc₀ s₀ hs₀
    errors_eq := by rw [herrors, huse, h.errors_eq]
    failures_eq := fun s hs => by
      obtain ⟨s₀, hs₀, hanswers, -, hwrites⟩ := hold s hs
      rw [herrors, ← hanswers, ← hwrites]
      exact h.failures_eq s₀ hs₀
    last_failure := fun s hs => by
      obtain ⟨s₀, hs₀, hanswers, -, hwrites⟩ := hold s hs
      rw [← hanswers, ← hwrites]
      exact h.last_failure s₀ hs₀ }

/-- A sink in use has not failed yet. -/
theorem no_failure (h : Sounding g) {s : Sink} (hs : g.line.sink = some s)
    (hu : g.line.sinkInUse = true) : ∀ i < s.writes, (s.answers i).isFailure = false := by
  have hzero : (List.range s.writes).countP (fun i => (s.answers i).isFailure) = 0 := by
    rw [← h.failures_eq s hs, h.errors_eq, hu]
    rfl
  intro i hi
  exact Bool.eq_false_iff.mpr (List.countP_eq_zero.mp hzero i (List.mem_range.mpr hi))

theorem failures_succ (s : Sink) :
    (List.range (s.writes + 1)).countP (fun i => (s.answers i).isFailure) =
      (List.range s.writes).countP (fun i => (s.answers i).isFailure) +
        if (s.answers s.writes).isFailure then 1 else 0 := by
  rw [List.range_succ, List.countP_append, List.countP_singleton]

/-- A write that does not fail, whatever it takes. -/
theorem failures_of_write (h : Sounding g) {s : Sink} (hs : g.line.sink = some s)
    (hu : g.line.sinkInUse = true) (ha : (s.answers s.writes).isFailure = false) :
    g.line.counts.sinkErrors =
        (List.range (s.writes + 1)).countP (fun i => (s.answers i).isFailure) ∧
      ∀ i < s.writes + 1, (s.answers i).isFailure = true → i + 1 = s.writes + 1 := by
  constructor
  · rw [failures_succ, ha, h.failures_eq s hs]
    rfl
  · intro i hi hfails
    obtain hlt | rfl := Nat.lt_succ_iff_lt_or_eq.mp hi
    · exact absurd ((h.no_failure hs hu i hlt).symm.trans hfails) Bool.false_ne_true
    · exact absurd (ha.symm.trans hfails) Bool.false_ne_true

theorem put {p : Period} {done n : Nat} {s : Sink} (h : Sounding g)
    (hv : g.line.voice = .writing p done) (hs : g.line.sink = some s)
    (hu : g.line.sinkInUse = true) (ha : (s.answers s.writes).isFailure = false) :
    Sounding
      { g with
        line := { g.line with
          sink := some (Sink.take { s with writes := s.writes + 1 }
            (p.data.extract done (done + n)))
          voice := .writing p (done + n) } } := by
  obtain ⟨hcount, hlast⟩ := h.failures_of_write hs hu ha
  have hcut : (p.data.extract done (done + n)).toList ++ p.data.toList.drop (done + n) =
      p.data.toList.drop done := by
    rw [Array.toList_extract, List.extract_eq_take_drop, Nat.add_sub_cancel_left,
      ← List.drop_drop, List.take_append_drop]
  have hrest : (Sink.take { s with writes := s.writes + 1 }
        (p.data.extract done (done + n))).written.toList ++
      (p.data.toList.drop (done + n) ++ bytesOf g.line.queue) = bytesOf g.accepted := by
    rw [← h.rest_eq hu (by rw [hv]; exact Voice.noConfusion) s hs, hv, Sink.written_take,
      Array.toList_append, List.append_assoc, ← List.append_assoc _ _ (bytesOf g.line.queue),
      hcut]
    rfl
  exact {
    silent := fun hnone => by cases hnone
    written_le := fun s' hs' => by
      cases hs'
      exact ⟨_, hrest⟩
    rest_eq := fun _ _ s' hs' => by
      cases hs'
      exact hrest
    errors_eq := h.errors_eq
    failures_eq := fun s' hs' => by
      cases hs'
      exact hcount
    last_failure := fun s' hs' => by
      cases hs'
      exact hlast }

theorem lose {p : Period} {s : Sink} (h : Sounding g) (hs : g.line.sink = some s)
    (hu : g.line.sinkInUse = true) (ha : (s.answers s.writes).isFailure = true) :
    Sounding { g with line := g.line.loseSink { s with writes := s.writes + 1 } p } where
  silent hnone := by cases hnone
  written_le s' hs' := by
    cases hs'
    exact h.written_le s hs
  rest_eq hu' := by cases hu'
  errors_eq := by
    change g.line.counts.sinkErrors + 1 = 1
    rw [h.errors_eq, hu]
    rfl
  failures_eq s' hs' := by
    cases hs'
    change g.line.counts.sinkErrors + 1 = (List.range (s.writes + 1)).countP
      (fun i => (s.answers i).isFailure)
    rw [failures_succ, ha, h.failures_eq s hs]
    rfl
  last_failure s' hs' i hi hfails := by
    cases hs'
    obtain hlt | rfl := Nat.lt_succ_iff_lt_or_eq.mp hi
    · exact absurd ((h.no_failure hs hu i hlt).symm.trans hfails) Bool.false_ne_true
    · rfl

theorem burst {s : Sink} (h : Sounding g) (hs : g.line.sink = some s)
    (hu : g.line.sinkInUse = true) (ha : s.answers s.writes = .crashes) :
    Sounding
      { g with
        line := Line.loseVoice
          { g.line with sink := some { s with writes := s.writes + 1 } } } := by
  obtain ⟨hcount, hlast⟩ := h.failures_of_write hs hu (by rw [ha]; rfl)
  exact {
    silent := fun hnone => by cases hnone
    written_le := fun s' hs' => by
      cases hs'
      exact h.written_le s hs
    rest_eq := fun _ hc => absurd rfl hc
    errors_eq := h.errors_eq
    failures_eq := fun s' hs' => by
      cases hs'
      exact hcount
    last_failure := fun s' hs' => by
      cases hs'
      exact hlast }

theorem accept (h : Sounding g) (p : Period) :
    Sounding
      { g with
        line := { g.line with queue := g.line.queue ++ [p], inFlight := g.line.inFlight + 1 }
        accepted := g.accepted ++ [p] } where
  silent := h.silent
  written_le s hs := by
    rw [bytesOf_append]
    exact (h.written_le s hs).trans (List.prefix_append _ _)
  rest_eq hu hc s hs := by
    rw [bytesOf_append, bytesOf_append, ← h.rest_eq hu hc s hs]
    simp
  errors_eq := h.errors_eq
  failures_eq := h.failures_eq
  last_failure := h.last_failure

/-- A turn leaves the accounts of the sink true. -/
theorem move (h : Sounding g) (m : g.line.Move l) : Sounding { g with line := l } := by
  cases m with
  | rest => exact h
  | tick nanos => exact h.keep rfl rfl rfl rfl fun _ _ hc => ⟨hc, rfl⟩
  | gate blocked =>
    refine h.keep rfl ?_ rfl rfl fun _ _ hc => ⟨hc, rfl⟩
    rw [Option.map_map]
    rfl
  | begin p queue hv hq =>
    refine h.keep hv rfl rfl rfl fun _ _ _ => ⟨Voice.noConfusion, ?_⟩
    rw [hq]
    rfl
  | leave hv hq hc => exact h.keep hv rfl rfl rfl fun _ _ _ => ⟨Voice.noConfusion, rfl⟩
  | lapse hv hq => exact h.keep hv rfl rfl rfl fun _ _ _ => ⟨Voice.noConfusion, rfl⟩
  | heed hv hs => exact h.keep hv rfl rfl rfl fun _ _ _ => ⟨Voice.noConfusion, rfl⟩
  | resume hv hs => exact h.keep hv rfl rfl rfl fun _ _ _ => ⟨Voice.noConfusion, rfl⟩
  | hold p underruns until_ hv =>
    exact h.keep hv rfl rfl rfl fun _ _ _ => ⟨Voice.noConfusion, rfl⟩
  | derail p underruns e hv hr he => exact h.keep hv rfl rfl rfl fun _ _ hc => absurd rfl hc
  | hurry p hv => exact h.keep hv rfl rfl rfl fun _ _ _ => ⟨Voice.noConfusion, rfl⟩
  | wake p time hv => exact h.keep hv rfl rfl rfl fun _ _ _ => ⟨Voice.noConfusion, rfl⟩
  | skip p done hv hs =>
    refine h.keep hv rfl rfl rfl fun hsome hu _ => ⟨Voice.noConfusion, ?_⟩
    obtain hnone | hlost | hle := hs
    · exact absurd hnone hsome
    · exact absurd (hlost.symm.trans hu) Bool.false_ne_true
    · change [] ++ bytesOf g.line.queue = p.data.toList.drop done ++ bytesOf g.line.queue
      rw [List.drop_eq_nil_of_le hle]
  | put p done n s hv hs hu ha => exact h.put hv hs hu ha
  | lose p done s hv hs hu ha => exact h.lose hs hu ha
  | burst p done s hv hs hu ha => exact h.burst hs hu ha
  | count p hv => exact h.keep hv rfl rfl rfl fun _ _ _ => ⟨Voice.noConfusion, rfl⟩
  | send p hv => exact h.keep hv rfl rfl rfl fun _ _ _ => ⟨Voice.noConfusion, rfl⟩
  | flush hv =>
    refine h.keep hv ?_ rfl rfl fun _ _ _ => ⟨Voice.noConfusion, rfl⟩
    rw [Option.map_map]
    congr 1
    funext s
    by_cases hu : g.line.sinkInUse = true
    · simp [hu, Sink.record]
    · simp [hu]

end Sounding

/-! ## The accounts of a run -/

/-- What holds of a line that was opened as `l₀` in every order of acts. -/
structure Accounts (l₀ : Line) (g : Playing) : Prop where
  format_eq : g.line.format = l₀.format
  realtime_eq : g.line.realtime = l₀.realtime
  answers_eq : g.line.sink.map Sink.answers = l₀.sink.map Sink.answers
  custody : ∃ passed lost, Custody g passed lost
  sounding : Sounding g
  running : g.line.stopping = false →
    g.line.connected = true ∧ g.line.joined = false ∧ g.line.voice ≠ .draining ∧
      g.line.voice ≠ .exited
  /-- The voice is lost to its sink or to a period whose play time cannot be told. -/
  crash_cause : g.line.voice = .crashed →
    (∃ s i, g.line.sink = some s ∧ s.answers i = .crashes) ∨
    (l₀.realtime = true ∧ ∃ p ∈ g.accepted, ∃ e, l₀.format.nanosOf p.data.size = .error e)

namespace Accounts

variable {l₀ : Line} {g : Playing} {l : Line}

theorem crash_of_move (h : Accounts l₀ g) (m : g.line.Move l) (hl : l.voice = .crashed) :
    (∃ s i, l.sink = some s ∧ s.answers i = .crashes) ∨
      (l₀.realtime = true ∧ ∃ p ∈ g.accepted, ∃ e, l₀.format.nanosOf p.data.size = .error e) := by
  cases m with
  | rest => exact h.crash_cause hl
  | tick nanos => exact h.crash_cause hl
  | gate blocked =>
    obtain ⟨s, i, hs, hi⟩ | hcause := h.crash_cause hl
    · exact .inl ⟨{ s with blocked }, i, by simp [hs], hi⟩
    · exact .inr hcause
  | derail p underruns e hv hr he =>
    obtain ⟨passed, lost, hcustody⟩ := h.custody
    have hmem : p ∈ g.accepted := by
      rw [hcustody.accepted_eq, hv]
      simp [Voice.held]
    exact .inr ⟨h.realtime_eq ▸ hr, p, hmem, e, h.format_eq ▸ he⟩
  | burst p done s hv hs hu ha => exact .inl ⟨_, s.writes, rfl, ha⟩
  | _ => cases hl

theorem move (h : Accounts l₀ g) (m : g.line.Move l) : Accounts l₀ { g with line := l } := by
  obtain ⟨hformat, hrealtime, hanswers⟩ := m.made
  obtain ⟨hstopping, hconnected, hjoined, hvoice⟩ := m.steady
  obtain ⟨passed, lost, hcustody⟩ := h.custody
  exact {
    format_eq := hformat.trans h.format_eq
    realtime_eq := hrealtime.trans h.realtime_eq
    answers_eq := hanswers.trans h.answers_eq
    custody := hcustody.move m
    sounding := h.sounding.move m
    running := fun hs => by
      rw [hstopping] at hs
      obtain ⟨hc, hj, hd, he⟩ := h.running hs
      exact ⟨hconnected.trans hc, hjoined.trans hj, hvoice hs hc hd he⟩
    crash_cause := h.crash_of_move m }

theorem accept (h : Accounts l₀ g) (p : Period) (hv : g.line.voice ≠ .crashed)
    (hlt : g.line.queue.length < Line.queueCapacity) :
    Accounts l₀
      { g with
        line := { g.line with queue := g.line.queue ++ [p], inFlight := g.line.inFlight + 1 }
        accepted := g.accepted ++ [p] } := by
  obtain ⟨passed, lost, hcustody⟩ := h.custody
  exact {
    format_eq := h.format_eq
    realtime_eq := h.realtime_eq
    answers_eq := h.answers_eq
    custody := ⟨passed, lost, hcustody.accept p hv hlt⟩
    sounding := h.sounding.accept p
    running := h.running
    crash_cause := fun hc => by
      obtain hsink | ⟨hr, q, hq, e, he⟩ := h.crash_cause hc
      · exact .inl hsink
      · exact .inr ⟨hr, q, List.mem_append_left _ hq, e, he⟩ }

theorem hear {id : Nat} {released : List Nat} (h : Accounts l₀ g)
    (hr : g.line.released = id :: released) :
    Accounts l₀
      { g with
        line := { g.line with released, inFlight := g.line.inFlight - 1 }
        heard := g.heard ++ [id] } := by
  obtain ⟨passed, lost, hcustody⟩ := h.custody
  exact {
    format_eq := h.format_eq
    realtime_eq := h.realtime_eq
    answers_eq := h.answers_eq
    custody := ⟨passed, lost, hcustody.hear hr⟩
    sounding := { h.sounding with }
    running := h.running
    crash_cause := h.crash_cause }

theorem step {g' : Playing} (h : Accounts l₀ g) (hstep : g.Step g') : Accounts l₀ g' := by
  obtain ⟨passed, lost, hcustody⟩ := h.custody
  cases hstep with
  | move m => exact h.move m
  | accept p hs he hlt => exact h.accept p (Voice.ne_crashed_of_ended he) hlt
  | hear id released hs hpos hr => exact h.hear hr
  | raiseStop =>
    exact { h with
      custody := ⟨passed, lost, { hcustody with }⟩
      sounding := { h.sounding with }
      running := fun hs => by cases hs }
  | hangUp hs =>
    exact { h with
      custody := ⟨passed, lost, { hcustody with }⟩
      sounding := { h.sounding with }
      running := fun hs' => absurd (hs'.symm.trans hs) Bool.false_ne_true }
  | join hc he =>
    exact { h with
      custody := ⟨passed, lost, { hcustody with inFlight_eq := fun hj => by cases hj }⟩
      sounding := { h.sounding with }
      running := fun hs =>
        absurd (hc.symm.trans (h.running hs).1) Bool.false_ne_true }

theorem opened {format : Format} {realtime : Bool} {answers : Option (Nat → WriteAnswer)}
    (h₀ : (Line.start format realtime (answers.map Sink.fresh)).outcome = .ok l₀) :
    Accounts l₀ { line := l₀ } := by
  have hl₀ := Line.start_eq h₀
  subst hl₀
  exact {
    format_eq := rfl
    realtime_eq := rfl
    answers_eq := rfl
    custody := ⟨[], [], ⟨rfl, by simp, rfl, rfl, rfl, fun _ => rfl, Nat.zero_le _⟩⟩
    sounding := {
      silent := fun _ => rfl
      written_le := fun s hs => by
        obtain ⟨answers, -, rfl⟩ := Option.map_eq_some_iff.mp hs
        exact List.prefix_rfl
      rest_eq := fun _ _ s hs => by
        obtain ⟨answers, -, rfl⟩ := Option.map_eq_some_iff.mp hs
        rfl
      errors_eq := rfl
      failures_eq := fun s hs => by
        obtain ⟨answers, -, rfl⟩ := Option.map_eq_some_iff.mp hs
        rfl
      last_failure := fun s hs i hi => by
        obtain ⟨answers, -, rfl⟩ := Option.map_eq_some_iff.mp hs
        exact absurd hi (Nat.not_lt_zero i) }
    running := fun _ => ⟨rfl, rfl, Voice.noConfusion, Voice.noConfusion⟩
    crash_cause := fun hc => by cases hc }

theorem run {format : Format} {realtime : Bool} {answers : Option (Nat → WriteAnswer)}
    (h₀ : (Line.start format realtime (answers.map Sink.fresh)).outcome = .ok l₀)
    (acts : List Act) : Accounts l₀ (Playing.run { line := l₀ } acts) :=
  run_induction (fun _ _ => step) (opened h₀) acts

theorem heard_le (h : Accounts l₀ g) : g.heard <+: g.accepted.map Period.id := by
  obtain ⟨passed, lost, hcustody⟩ := h.custody
  simp only [hcustody.accepted_eq, List.map_append, hcustody.told_eq, List.append_assoc]
  exact List.prefix_append _ _

/-- The periods lost with the voice are the last ones accepted, and are all that is in flight
without being queued, with the voice, or on the way back. -/
theorem inFlight_eq (h : Accounts l₀ g) (hj : g.line.joined = false) :
    ∃ lost, lost <:+ g.accepted ∧ (lost = [] ↔ g.line.voice ≠ .crashed) ∧ g.line.inFlight =
      g.line.queue.length + g.line.voice.held.length + g.line.released.length + lost.length := by
  obtain ⟨passed, lost, hcustody⟩ := h.custody
  refine ⟨lost, ?_, hcustody.lost_eq_nil_iff, hcustody.inFlight_eq hj⟩
  rw [hcustody.accepted_eq]
  exact List.suffix_append _ _

/-- What the voice has counted are the first periods accepted, and word was sent of none else. -/
theorem played_eq (h : Accounts l₀ g) : ∃ played, played <+: g.accepted ∧
    g.line.counts.periodsPlayed = played.length ∧
    g.line.counts.bytesPlayed = (bytesOf played).length ∧
    g.heard ++ g.line.released <+: played.map Period.id := by
  obtain ⟨passed, lost, hcustody⟩ := h.custody
  refine ⟨passed ++ g.line.voice.tallied, ?_, hcustody.periods_eq, hcustody.bytes_eq, ?_⟩
  · rw [hcustody.accepted_eq, List.append_assoc, List.append_assoc]
    exact (List.prefix_append_right_inj passed).mpr
      (g.line.voice.tallied_prefix_held.trans (List.prefix_append _ _))
  · rw [List.map_append, hcustody.told_eq]
    exact List.prefix_append _ _

theorem sinkErrors_le (h : Accounts l₀ g) : g.line.counts.sinkErrors ≤ 1 := by
  rw [h.sounding.errors_eq]
  split <;> decide

/-- A sink that was given up is left as it is. -/
theorem silenced {r : Option ((Nat → WriteAnswer) × List (Array UInt8) × Nat)}
    (hg : g.line.sinkInUse = false ∧ g.line.sink.map Sink.record = r) (acts : List Act) :
    (g.run acts).line.sinkInUse = false ∧ (g.run acts).line.sink.map Sink.record = r := by
  refine run_induction (P := fun g => g.line.sinkInUse = false ∧
    g.line.sink.map Sink.record = r) ?_ hg acts
  rintro g g' ⟨hu, hr⟩ hstep
  cases hstep with
  | move m =>
    cases m with
    | gate blocked =>
      refine ⟨hu, ?_⟩
      rw [← hr, Option.map_map]
      rfl
    | put p done n s hv hs hu' ha => exact absurd (hu.symm.trans hu') Bool.false_ne_true
    | lose p done s hv hs hu' ha => exact absurd (hu.symm.trans hu') Bool.false_ne_true
    | burst p done s hv hs hu' ha => exact absurd (hu.symm.trans hu') Bool.false_ne_true
    | flush hv =>
      refine ⟨hu, ?_⟩
      rw [← hr, hu]
      change (g.line.sink.map id).map Sink.record = _
      rw [Option.map_id]
      rfl
    | _ => exact ⟨hu, hr⟩
  | _ => exact ⟨hu, hr⟩

theorem turns (h : Accounts l₀ g) (ts : List Line.Turn) :
    Accounts l₀ { g with line := g.line.turns ts } := by
  rw [← run_turns]
  exact run_induction (fun _ _ => step) h _

/-- A running line comes to rest only with an empty queue, or by losing its voice. -/
theorem idle_of_resting (h : Accounts l₀ g) (hs : g.line.stopping = false)
    (hrest : g.line.Resting) (hv : g.line.voice ≠ .crashed) :
    g.line.voice = .idle ∧ g.line.queue = [] := by
  obtain hended | ⟨hidle, hq, -⟩ := hrest
  · exfalso
    cases hv' : g.line.voice with
    | exited => exact (h.running hs).2.2.2 hv'
    | crashed => exact hv hv'
    | _ =>
      rw [hv'] at hended
      cases hended
  · exact ⟨hidle, hq⟩

/-- On a sink whose writes all return, the voice is lost only to a play time. -/
theorem untimed_of_crashed (h : Accounts l₀ g)
    (hcrash : ∀ s, l₀.sink = some s → ∀ i, s.answers i ≠ .crashes)
    (hv : g.line.voice = .crashed) :
    l₀.realtime = true ∧ ∃ p ∈ g.accepted, ∃ e, l₀.format.nanosOf p.data.size = .error e := by
  obtain ⟨s, i, hsink, hi⟩ | huntimed := h.crash_cause hv
  · exfalso
    have hsame := h.answers_eq
    rw [hsink, Option.map_some, eq_comm, Option.map_eq_some_iff] at hsame
    obtain ⟨s₀, hs₀, hanswers⟩ := hsame
    exact hcrash s₀ hs₀ i (hanswers ▸ hi)
  · exact huntimed

/-- By turns alone a running line plays all it has accepted, and sends word of it. -/
theorem exists_turns_played (h : Accounts l₀ g) (hs : g.line.stopping = false)
    (hcrash : ∀ s, l₀.sink = some s → ∀ i, s.answers i ≠ .crashes)
    (htimed : l₀.realtime = true → ∀ p ∈ g.accepted, ∃ nanos,
      l₀.format.nanosOf p.data.size = .ok nanos) :
    ∃ ts, (g.line.turns ts).counts.periodsPlayed = g.accepted.length ∧
      (g.line.turns ts).counts.bytesPlayed = (bytesOf g.accepted).length ∧
      g.heard ++ (g.line.turns ts).released = g.accepted.map Period.id := by
  refine ⟨g.line.restTurns, ?_⟩
  have hts := h.turns g.line.restTurns
  have hrest := g.line.resting_turns_restTurns
  have hs' := (g.line.turns_steady g.line.restTurns).1.trans hs
  generalize g.line.turns g.line.restTurns = l at hts hrest hs'
  have hv : l.voice ≠ .crashed := by
    intro hv
    obtain ⟨hr, p, hp, e, he⟩ := hts.untimed_of_crashed hcrash hv
    obtain ⟨nanos, hnanos⟩ := htimed hr p hp
    rw [he] at hnanos
    cases hnanos
  -- at rest voice and queue hold nothing, so all that was accepted has been passed on
  obtain ⟨hidle, hq⟩ := hts.idle_of_resting hs' hrest hv
  obtain ⟨passed, lost, hcustody⟩ := hts.custody
  have haccepted : g.accepted = passed := by
    rw [hcustody.accepted_eq, hcustody.lost_eq_nil hv, hidle, hq]
    simp [Voice.held]
  have htallied : l.voice.tallied = [] := by
    rw [hidle]
    rfl
  have hperiods := hcustody.periods_eq
  have hbytes := hcustody.bytes_eq
  rw [htallied, List.append_nil] at hperiods hbytes
  rw [haccepted]
  exact ⟨hperiods, hbytes, hcustody.told_eq.symm⟩

end Accounts

/-- Whatever order the producer, the voice and its sink act in: the buffers the producer hears of
are the first it handed over, in their order; until the line is stopped the buffers in flight are
those queued, with the voice, on their way back, and those lost with the voice; the voice is lost
only to a play time that cannot be told; the queue stays within its bound; the sink holds the first
bytes handed over; it fails at most once and is not written to again; and what was counted are the
first periods handed over. A running line whose play times can be told can always go on to count
every period and to send word of it, also after its sink has failed. -/
theorem playback_accounts {format : Format} {realtime : Bool}
    {answers : Option (Nat → WriteAnswer)} {l₀ : Line} {g : Playing}
    (h₀ : (Line.start format realtime (answers.map Sink.fresh)).outcome = .ok l₀)
    (hcrash : ∀ a ∈ answers, ∀ i, a i ≠ .crashes) (acts : List Act)
    (hg : Playing.run { line := l₀ } acts = g) :
    g.heard <+: g.accepted.map Period.id ∧
    (g.line.joined = false → ∃ lost, lost <:+ g.accepted ∧
      (lost = [] ↔ g.line.voice ≠ .crashed) ∧ g.line.inFlight =
        g.line.queue.length + g.line.voice.held.length + g.line.released.length + lost.length) ∧
    (g.line.voice = .crashed → realtime = true ∧
      ∃ p ∈ g.accepted, ∃ e, format.nanosOf p.data.size = .error e) ∧
    (∀ l id, g.line.receive = some (l, .ok (.released id)) → l.inFlight + 1 = g.line.inFlight) ∧
    g.line.queue.length ≤ 8 ∧
    (∀ s ∈ g.line.sink, s.written.toList <+: bytesOf g.accepted) ∧
    g.line.counts.sinkErrors ≤ 1 ∧
    (∀ s ∈ g.line.sink, g.line.counts.sinkErrors =
      (List.range s.writes).countP fun i => (s.answers i).isFailure) ∧
    (g.line.counts.sinkErrors = 1 → ∀ s ∈ g.line.sink, ∀ later, ∃ s' ∈ (g.run later).line.sink,
      s'.writes = s.writes ∧ s'.written = s.written) ∧
    (∃ played, played <+: g.accepted ∧ g.line.counts.periodsPlayed = played.length ∧
      g.line.counts.bytesPlayed = (bytesOf played).length ∧
      g.heard ++ g.line.released <+: played.map Period.id) ∧
    (g.line.stopping = false →
      (realtime = true → ∀ p ∈ g.accepted, ∃ nanos, format.nanosOf p.data.size = .ok nanos) →
      ∃ ts, (g.line.turns ts).counts.periodsPlayed = g.accepted.length ∧
        (g.line.turns ts).counts.bytesPlayed = (bytesOf g.accepted).length ∧
        g.heard ++ (g.line.turns ts).released = g.accepted.map Period.id) := by
  have h : Accounts l₀ g := hg ▸ Accounts.run h₀ acts
  have hl₀ := Line.start_eq h₀
  subst hl₀
  obtain ⟨passed, lost, hcustody⟩ := h.custody
  have hsink : ∀ s, answers.map Sink.fresh = some s → ∀ i, s.answers i ≠ .crashes := by
    intro s hs
    obtain ⟨a, ha, rfl⟩ := Option.map_eq_some_iff.mp hs
    exact hcrash a ha
  refine ⟨h.heard_le, h.inFlight_eq, h.untimed_of_crashed hsink, fun l id hreceive => ?_,
    hcustody.queue_le, h.sounding.written_le, h.sinkErrors_le, h.sounding.failures_eq,
    fun hone s hs later => ?_, h.played_eq, fun hs htimed => h.exists_turns_played hs hsink htimed⟩
  · obtain ⟨id', released, hpos, -, ha⟩ | ⟨-, ha⟩ | ⟨e, -, ha⟩ | ⟨-, -, -, ha⟩ :=
      g.line.receive_cases
    · rw [ha] at hreceive
      cases hreceive
      exact Nat.sub_one_add_one hpos
    all_goals
      rw [ha] at hreceive
      cases hreceive
  · have hlost : g.line.sinkInUse = false := by
      have herrors := h.sounding.errors_eq
      rw [hone] at herrors
      cases hu : g.line.sinkInUse with
      | true =>
        rw [hu] at herrors
        cases herrors
      | false => rfl
    obtain ⟨-, hsame⟩ := Accounts.silenced ⟨hlost, rfl⟩ later
    rw [Option.mem_def.mp hs, Option.map_some, Option.map_eq_some_iff] at hsame
    obtain ⟨s', hs', hrecord⟩ := hsame
    obtain ⟨-, hwritten, hwrites⟩ := Sink.eq_of_record hrecord
    exact ⟨s', hs', hwrites, hwritten⟩

/-- A sink that takes three bytes and then fails. -/
def leaky : Nat → WriteAnswer
  | 0 => .takes 3
  | _ => .fails

/-- Two periods, the first played on the leaky sink and released. -/
def leakyActs : List Act :=
  [.offer ⟨0, #[1, 2, 3, 4]⟩, .turn .advance, .offer ⟨1, #[5, 6]⟩, .turn .advance, .turn .advance,
    .turn .advance, .turn .advance, .turn .advance, .wait, .turn .advance]

theorem playback_accounts_leaky :
    ∃ (l₀ : Line) (g : Playing), (Line.start {} false (some (Sink.fresh leaky))).outcome = .ok l₀ ∧
      Playing.run { line := l₀ } leakyActs = g ∧ g.heard = [0] ∧
      g.line.counts.sinkErrors = 1 ∧ g.line.inFlight = 1 ∧
      ∃ ts, (g.line.turns ts).counts.periodsPlayed = 2 ∧
        g.heard ++ (g.line.turns ts).released = [0, 1] := by
  obtain ⟨l₀, h₀⟩ : ∃ l₀, (Line.start {} false (some (Sink.fresh leaky))).outcome = .ok l₀ :=
    ⟨_, rfl⟩
  have hcrash : ∀ a ∈ some leaky, ∀ i, a i ≠ .crashes := by
    rintro a ⟨⟩ i
    cases i <;> exact WriteAnswer.noConfusion
  obtain ⟨-, -, -, -, -, -, -, -, -, -, hturns⟩ := playback_accounts h₀ hcrash leakyActs rfl
  obtain rfl := Line.start_eq h₀
  obtain ⟨ts, hplayed, -, htold⟩ := hturns rfl fun hr => absurd hr Bool.false_ne_true
  exact ⟨_, _, h₀, rfl, rfl, rfl, rfl, ts, hplayed, htold⟩

/-- A line in real time whose frames are empty has accepted three periods and is not stopped. The
voice is lost to the first; none is queued, with the voice or on its way back, and all three count
as in flight. -/
theorem lost_periods_stay_in_flight :
    ∃ (l₀ : Line) (g : Playing), (Line.start { channels := 0 } true none).outcome = .ok l₀ ∧
      Playing.run { line := l₀ } [.offer ⟨0, #[1, 2, 3, 4]⟩, .offer ⟨1, #[]⟩, .offer ⟨2, #[]⟩,
        .turn .advance, .turn .advance] = g ∧
      g.line.stopping = false ∧ g.line.joined = false ∧ g.heard = [] ∧ g.line.inFlight = 3 ∧
      g.line.queue.length + g.line.voice.held.length + g.line.released.length = 0 :=
  ⟨_, _, rfl, rfl, rfl, rfl, rfl, rfl, rfl⟩

end Playing

end EmulatorOutput.Sound
