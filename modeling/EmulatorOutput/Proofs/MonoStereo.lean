import EmulatorOutput.Proofs.Sessions

/-!
# Mono and stereo sources

On a device of two channels a mono source is played as the stereo source that has each of its
samples twice. A stream of the one and a stream of the other are in the same state but for what
tells the sources apart, and stay so: capacity and offset are even, so where there is room for
one of the two samples there is room for both, and no period ends between them.
-/

namespace EmulatorOutput.Sound.Stream

variable {δ : Type}

/-- The samples, each repeated once. -/
def twice (xs : List Int16) : List Int16 := xs.flatMap fun x => [x, x]

@[simp] theorem twice_nil : twice [] = [] := rfl

@[simp] theorem twice_cons (x : Int16) (xs : List Int16) :
    twice (x :: xs) = [x, x] ++ twice xs := rfl

theorem length_twice (xs : List Int16) : (twice xs).length = 2 * xs.length :=
  Conversion.length_apply .duplicateMono xs

/-- The stream of a mono source as that of the stereo source with each sample twice. -/
def asStereo (s : Stream δ) : Stream δ :=
  s.recast .stereo .direct (2 * s.tally.samplesAccepted) s.stopped

/-- Two streams that only their sources tell apart: the second has accepted twice the samples. -/
structure Mirrors (mono stereo : Stream δ) : Prop where
  device_eq : stereo.device = mono.device
  pool_eq : stereo.pool = mono.pool
  capacity_eq : stereo.capacity = mono.capacity
  offset_eq : stereo.offset = mono.offset
  inFlight_eq : stereo.inFlight = mono.inFlight
  tally_eq : stereo.tally =
    { mono.tally with samplesAccepted := 2 * mono.tally.samplesAccepted }

theorem mirrors_asStereo (s : Stream δ) : Mirrors s s.asStereo :=
  ⟨rfl, rfl, rfl, rfl, rfl, rfl⟩

/-- One mono sample fills the work buffer as two stereo samples do. -/
theorem put_pair {s : Stream δ} (hs : s.conversion = .duplicateMono) (x : Int16)
    (accepted : Nat) (stopped : Bool) :
    (s.recast .stereo .direct accepted stopped).put [x, x] =
      (s.put [x]).recast .stereo .direct accepted stopped := by
  cases s
  cases hs
  rfl

/-- Where there is room for a mono sample, both its copies are taken at once. -/
theorem Ready.fill_pair {s : Stream δ} (h : s.Ready) (hs : s.conversion = .duplicateMono)
    (x : Int16) (accepted : Nat) (stopped : Bool) :
    (s.recast .stereo .direct accepted stopped).fill [x, x] =
      .ok ((s.put [x]).recast .stereo .direct accepted stopped, 2) := by
  have hle : s.offset + 2 ≤ s.capacity := by
    have hfactor := h.offset_add_factor_le
    rwa [hs] at hfactor
  have hcount := h.capacity_le _ s.workBuffer_mem
  have hroom : 2 ≤ (s.recast .stereo .direct accepted stopped).room := by
    change 2 ≤ (s.capacity - s.offset) / 1
    omega
  have hwithin : s.offset + 1 * 2 ≤ s.pool.workBuffer.sampleCount := by omega
  rw [fill_eq, List.take_of_length_le (l := [x, x]) hroom, put_pair hs]
  refine (if_pos (Nat.le_of_lt h.offset_lt)).trans ?_
  exact if_pos hwithin

variable [Device δ]

theorem Ready.consume_pair {s : Stream δ} (h : s.Ready) (hs : s.conversion = .duplicateMono)
    (x : Int16) (accepted : Nat) (stopped : Bool) :
    (s.recast .stereo .direct accepted stopped).consume [x, x] =
      s.consume [x] >>= fun r => pure (r.1.recast .stereo .direct accepted stopped, r.2) := by
  rw [consume_of_fill (h.fill_pair hs x accepted stopped), h.consume_singleton,
    closeIfFull_recast]
  simp

theorem Ready.of_consume {s s' : Stream (Recorder δ)} {xs : List Int16} {n : Nat} (h : s.Ready)
    (hs' : (s.consume xs).outcome = .ok (s', n)) : s'.Ready ∧ s'.conversion = s.conversion := by
  obtain ⟨cs, t, run⟩ := h.exists_run xs
  obtain ⟨rfl, -⟩ := Prod.mk.inj (Except.ok.inj (hs'.symm.trans (run.consume_eq h)))
  exact ⟨run.ready h, run.fixed.2.1⟩

theorem Ready.consume_twice {s : Stream (Recorder δ)} (h : s.Ready)
    (hs : s.conversion = .duplicateMono) (xs : List Int16) (accepted : Nat) (stopped : Bool) :
    (s.recast .stereo .direct accepted stopped).consume (twice xs) =
      s.consume xs >>= fun r => pure (r.1.recast .stereo .direct accepted stopped, r.2) := by
  -- one mono sample at a time: after each the stream is ready again, its capacity and offset even
  induction xs generalizing s with
  | nil => simp
  | cons x xs ih =>
    have hcons : x :: xs = [x] ++ xs := rfl
    rw [twice_cons, consume_append, h.consume_pair hs, hcons, consume_append s]
    simp only [bind_assoc, pure_bind]
    apply Logged.bind_congr_ok
    intro r hr
    obtain ⟨hready, hconversion⟩ := h.of_consume hr
    rw [ih hready (hconversion.trans hs)]
    simp only [bind_assoc, pure_bind]

theorem Ready.push_twice {s : Stream (Recorder δ)} (h : s.Ready)
    (hs : s.conversion = .duplicateMono) (xs : List Int16) :
    s.asStereo.push (twice xs) = s.push xs >>= fun r => pure (r.1.asStereo, r.2) := by
  cases hstopped : s.stopped with
  | true =>
    have hstereo : s.asStereo.stopped = true := hstopped
    rw [push_of_stopped hstopped, push_of_stopped hstereo, pure_bind]
  | false =>
    have hstereo : s.asStereo.stopped = false := hstopped
    have haccepted : s.asStereo.tally.samplesAccepted + (twice xs).length =
        2 * (s.tally.samplesAccepted + xs.length) := by
      rw [length_twice, Nat.mul_add]
      rfl
    rw [push_of_running hstopped, push_of_running hstereo, haccepted, asStereo,
      h.consume_twice hs]
    simp only [bind_assoc, pure_bind]
    rfl

theorem Ready.of_push {s s' : Stream (Recorder δ)} {xs : List Int16} {n : Nat} (h : s.Ready)
    (hs' : (s.push xs).outcome = .ok (s', n)) : s'.Ready ∧ s'.conversion = s.conversion := by
  cases hstopped : s.stopped with
  | true =>
    rw [push_of_stopped hstopped] at hs'
    cases hs'
    exact ⟨h, rfl⟩
  | false =>
    rw [push_of_running hstopped, Logged.bind_outcome_eq_ok_iff] at hs'
    obtain ⟨r, hr, hpure⟩ := hs'
    cases hpure
    obtain ⟨hready, hconversion⟩ := h.of_consume hr
    exact ⟨hready.relabel _ _, hconversion⟩

theorem Ready.pushAll_twice {s : Stream (Recorder δ)} (h : s.Ready)
    (hs : s.conversion = .duplicateMono) (bursts : List (List Int16)) :
    s.asStereo.pushAll (bursts.map twice) =
      s.pushAll bursts >>= fun r => pure (r.1.asStereo, r.2) := by
  induction bursts generalizing s with
  | nil => rw [List.map_nil, pushAll, pushAll, pure_bind]
  | cons xs bursts ih =>
    rw [List.map_cons, pushAll, pushAll, h.push_twice hs]
    simp only [bind_assoc, pure_bind]
    apply Logged.bind_congr_ok
    intro r hr
    obtain ⟨hready, hconversion⟩ := h.of_push hr
    rw [ih hready (hconversion.trans hs)]
    simp only [bind_assoc, pure_bind]

/-! ## Opening the two sessions -/

/-- If both sources are accepted, the device has two channels. -/
theorem conversion_of_accepted {setup : Setup}
    (hstereo : ({ setup with source := .stereo } : Setup).Accepted) :
    ({ setup with source := .mono } : Setup).conversion = .ok .duplicateMono ∧
      ({ setup with source := .stereo } : Setup).conversion = .ok .direct := by
  obtain ⟨c, hc⟩ := hstereo.convertible
  have htwo : setup.format.channels.toNat = 2 := by
    by_contra hother
    simp [Setup.conversion, Layout.channels, Ne.symm hother] at hc
  simp [Setup.conversion, Layout.channels, htwo]

theorem bind_eq_map_bind {ε α β γ : Type} {x : Except ε α} {f : α → Except ε β}
    {g : α → Except ε γ} {m : γ → β} (h : ∀ a, f a = (g a).map m) :
    x.bind f = (x.bind g).map m := by
  cases x with
  | error e => rfl
  | ok a => exact h a

omit [Device δ] in
theorem start_stereo {setup : Setup}
    (hmono : ({ setup with source := .mono } : Setup).check = .ok ())
    (hstereo : ({ setup with source := .stereo } : Setup).check = .ok ())
    (grants : Allocator) (device : δ) :
    (start grants { setup with source := .stereo } device).outcome =
      (start grants { setup with source := .mono } device).outcome.map asStereo := by
  obtain ⟨hduplicate, hdirect⟩ :=
    conversion_of_accepted ((Setup.check_eq_ok_iff _).mp hstereo)
  unfold start
  rw [hmono, hstereo, hduplicate, hdirect]
  have hsize : ({ setup with source := .stereo } : Setup).bufferSize =
      ({ setup with source := .mono } : Setup).bufferSize := rfl
  have hsamples : ({ setup with source := .stereo } : Setup).periodSamples =
      ({ setup with source := .mono } : Setup).periodSamples := rfl
  have hchecked : (liftM (Except.ok () : Except Stop Unit) : Logged Stop Unit) = pure () := rfl
  rw [hsize, hsamples, hchecked]
  simp only [pure_bind, Logged.ofExcept_ok, Logged.outcome_bind]
  -- the same steps from here on, up to the notice
  exact bind_eq_map_bind fun count => bind_eq_map_bind fun size => bind_eq_map_bind
    fun pool => bind_eq_map_bind fun capacity => bind_eq_map_bind fun text => rfl

/-- Mono and stereo sessions agree. Two set-ups that only their sources tell apart open alike,
and where they open, the chunks of the mono session and the same chunks with every sample twice
are answered alike: the devices see the same exchanges, and the sessions stay in states that
only the count of samples accepted tells apart. -/
theorem session_mono_stereo (setup : Setup)
    (hmono : ({ setup with source := .mono } : Setup).check = .ok ())
    (hstereo : ({ setup with source := .stereo } : Setup).check = .ok ())
    (grants : Allocator) (device : δ) :
    (∀ e, (start grants { setup with source := .mono } ({ device } : Recorder δ)).outcome =
        .error e ↔
      (start grants { setup with source := .stereo } ({ device } : Recorder δ)).outcome =
        .error e) ∧
    ∀ m₀, (start grants { setup with source := .mono } ({ device } : Recorder δ)).outcome =
        .ok m₀ →
      ∃ t₀, (start grants { setup with source := .stereo } ({ device } : Recorder δ)).outcome =
          .ok t₀ ∧
        m₀.conversion = .duplicateMono ∧ t₀.conversion = .direct ∧ Mirrors m₀ t₀ ∧
        ∀ bursts : List (List Int16), ∃ m t answers,
          (m₀.pushAll bursts).outcome = .ok (m, answers) ∧
          (t₀.pushAll (bursts.map twice)).outcome = .ok (t, answers) ∧ Mirrors m t := by
  have hstart := start_stereo hmono hstereo grants ({ device } : Recorder δ)
  rw [hstart]
  refine ⟨fun e => ?_, fun m₀ hm₀ => ?_⟩
  · cases (start grants { setup with source := .mono } ({ device } : Recorder δ)).outcome with
    | ok m₀ => simp [Except.map]
    | error e' => simp [Except.map]
  · have hopened := start_spec hm₀
    have hconversion : m₀.conversion = .duplicateMono :=
      Except.ok.inj (hopened.conversion_eq.symm.trans
        (conversion_of_accepted ((Setup.check_eq_ok_iff _).mp hstereo)).1)
    refine ⟨m₀.asStereo, by rw [hm₀]; rfl, hconversion, rfl, mirrors_asStereo m₀,
      fun bursts => ?_⟩
    obtain ⟨cs, s, answers, hpush, -, -⟩ := pushAll_run hm₀ bursts
    refine ⟨_, _, answers, hpush, ?_, mirrors_asStereo _⟩
    rw [hopened.ready.pushAll_twice hconversion]
    exact Logged.bind_ok hpush rfl

theorem session_mono_stereo_balky :
    ∃ (m₀ m t₀ t : Stream (Recorder ScriptedDevice)) (answers : List Nat),
      (start Allocator.standard shortPeriods { device := balky }).outcome = .ok m₀ ∧
      (start Allocator.standard { shortPeriods with source := .stereo }
        { device := balky }).outcome = .ok t₀ ∧
      (m₀.pushAll [[1, 2, 3], [], [4, 5, 6, 7]]).outcome = .ok (m, answers) ∧
      (t₀.pushAll [[1, 1, 2, 2, 3, 3], [], [4, 4, 5, 5, 6, 6, 7, 7]]).outcome =
        .ok (t, answers) ∧ Mirrors m t := by
  obtain ⟨m₀, hm₀, -⟩ := start_balky
  have hagree := session_mono_stereo shortPeriods rfl rfl Allocator.standard balky
  obtain ⟨t₀, ht₀, -, -, -, hpush⟩ := hagree.2 m₀ hm₀
  obtain ⟨m, t, answers, hm, ht, hmirrors⟩ := hpush [[1, 2, 3], [], [4, 5, 6, 7]]
  exact ⟨m₀, m, t₀, t, answers, hm₀, ht₀, hm, ht, hmirrors⟩

end EmulatorOutput.Sound.Stream
