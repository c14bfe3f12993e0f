import EmulatorOutput.Proofs.CarriedSound
import EmulatorOutput.Proofs.CoreCycles
import EmulatorOutput.Proofs.PatternCycles

/-!
# The sound of the test pattern

The remainder that the pattern carries from frame to frame keeps its sound exact: after so many
cycles since the start or a reset it has delivered that many sixtieths of a second, rounded down, of
one square wave. No cut between two bursts can be heard.
-/

namespace EmulatorOutput.Session.TestPattern

open Picture (Image sourceHeight sourceWidth)
open Sound (Layout)

theorem toNat_max_one (t : UInt32) : (max t 1).toNat = max t.toNat 1 := by
  change (if t ≤ 1 then (1 : UInt32) else t).toNat = _
  split
  · have hle := UInt32.le_iff_toNat_le.mp ‹t ≤ 1›
    exact (Nat.max_eq_right hle).symm
  · have hlt := mt UInt32.le_iff_toNat_le.mpr ‹¬ t ≤ 1›
    exact (Nat.max_eq_left (Nat.le_of_not_le hlt)).symm

/-- The audio frames that are delivered in so many cycles. -/
def delivered (rate : UInt32) (n : Nat) : Nat := n * rate.toNat / framesPerSecond

theorem delivered_succ (rate : UInt32) (n : Nat) :
    delivered rate (n + 1) = delivered rate n +
        (rate.toNat + n * rate.toNat % framesPerSecond) / framesPerSecond ∧
      (n + 1) * rate.toNat % framesPerSecond =
        (rate.toNat + n * rate.toNat % framesPerSecond) % framesPerSecond := by
  simp only [delivered, framesPerSecond, Nat.succ_mul]
  omega

theorem delivered_le (rate : UInt32) (n k : Nat) :
    delivered rate n ≤ delivered rate (n + k) :=
  Nat.div_le_div_right (Nat.mul_le_mul_right _ (Nat.le_add_right n k))

/-- The pattern after so many cycles since its start or the last reset. -/
structure Played (rate : UInt32) (layout : Layout) (tone : UInt32) (n : Nat) (p : TestPattern) :
    Prop where
  sampleRate_eq : p.sampleRate = rate
  layout_eq : p.layout = layout
  tone_eq : p.tone = max tone 1
  frame_eq : p.frame = n
  position_eq : p.position = delivered rate n
  carry_eq : p.carry = n * rate.toNat % framesPerSecond
  size_eq : p.pixels.size = sourceWidth * sourceHeight

theorem played_create (rate : UInt32) (layout : Layout) (tone : UInt32) :
    Played rate layout tone 0 (create rate layout tone) where
  sampleRate_eq := rfl
  layout_eq := rfl
  tone_eq := rfl
  frame_eq := rfl
  position_eq := by simp [create, delivered]
  carry_eq := by simp [create]
  size_eq := Array.size_replicate

namespace Played

variable {rate : UInt32} {layout : Layout} {tone : UInt32} {n : Nat} {p q : TestPattern}

theorem reset (h : Played rate layout tone n p) : Played rate layout tone 0 (Core.reset p) where
  sampleRate_eq := h.sampleRate_eq
  layout_eq := h.layout_eq
  tone_eq := h.tone_eq
  frame_eq := rfl
  position_eq := (played_create rate layout tone).position_eq
  carry_eq := (played_create rate layout tone).carry_eq
  size_eq := h.size_eq

theorem tone_pos (h : Played rate layout tone n p) : 0 < p.tone.toNat := by
  rw [h.tone_eq, toNat_max_one]
  omega

theorem due_eq (h : Played rate layout tone n p) :
    p.due = delivered rate (n + 1) - delivered rate n := by
  rw [(delivered_succ rate n).1, due, h.sampleRate_eq, h.carry_eq, Nat.add_sub_cancel_left]

theorem wave_eq (h : Played rate layout tone n p) :
    wave p.layout p.sampleRate.toNat p.tone.toNat p.position p.due =
      wave layout rate.toNat tone.toNat (delivered rate n)
        (delivered rate (n + 1) - delivered rate n) := by
  rw [h.due_eq, h.layout_eq, h.sampleRate_eq, h.tone_eq, h.position_eq, toNat_max_one]
  simp [wave]

/-- A cycle continues the wave where the one before it left off. -/
theorem cycle (h : Played rate layout tone n p) {wanted : Bool} {actions : List Action}
    (hc : Core.cycle p wanted = .ok (q, actions)) :
    Played rate layout tone (n + 1) q ∧
      Delivers layout (wave layout rate.toNat tone.toNat (delivered rate n)
        (delivered rate (n + 1) - delivered rate n)) actions := by
  have hq : Cycled p q actions := (cycle_ends h.tone_pos).post_of_ok hc
  obtain ⟨hposition, hcarry⟩ := delivered_succ rate n
  constructor
  · constructor
    · rw [hq.sampleRate_eq, h.sampleRate_eq]
    · rw [hq.layout_eq, h.layout_eq]
    · rw [hq.tone_eq, h.tone_eq]
    · rw [hq.frame_eq, h.frame_eq]
    · rw [hq.position_eq, h.position_eq, due, h.sampleRate_eq, h.carry_eq, hposition]
    · rw [hq.carry_eq, h.sampleRate_eq, h.carry_eq, hcarry]
    · rw [hq.size_eq, h.size_eq]
  · have hdelivers := hq.delivers
    rwa [h.wave_eq, h.layout_eq] at hdelivers

/-- A cycle comes to its end where neither the rate with its remainder, nor the tone of a cycle that
is to be heard, nor the counts are too large. -/
theorem exists_cycle (h : Played rate layout tone n p)
    (hrate : rate.toNat + n * rate.toNat % 60 < UInt32.size)
    (htone : delivered rate n < delivered rate (n + 1) → 2 * p.tone.toNat < UInt32.size)
    (hdelivered : delivered rate (n + 1) < Word.limit)
    (hframe : sourceWidth - 1 + n < Word.limit) (wanted : Bool) :
    ∃ q actions, Core.cycle p wanted = .ok (q, actions) := by
  have hnone : ∀ f, ¬ CycleFault p f := by
    have hcarry : p.carry = n * rate.toNat % 60 := h.carry_eq
    have hdue := h.due_eq
    have hgrows := delivered_le rate n 1
    rintro f (hover | hover | hover)
    · rw [h.sampleRate_eq] at hover
      omega
    · obtain ⟨hcount, hover⟩ | hover := hover
      · omega
      · rw [h.position_eq] at hover
        omega
    · rw [h.frame_eq] at hover
      omega
  obtain ⟨⟨q, actions⟩, hq, -⟩ := (cycle_ends h.tone_pos).exists_ok hnone
  exact ⟨q, actions, hq⟩

end Played

/-- The states that the pattern comes to by cycles and resets. -/
theorem exists_played {rate : UInt32} {layout : Layout} {tone : UInt32} {p : TestPattern}
    (h : Core.Reached (create rate layout tone) p) : ∃ n, Played rate layout tone n p := by
  induction h with
  | start => exact ⟨0, played_create rate layout tone⟩
  | cycled _ hc ih =>
    obtain ⟨n, hn⟩ := ih
    exact ⟨n + 1, (hn.cycle hc).1⟩
  | reset _ ih =>
    obtain ⟨n, hn⟩ := ih
    exact ⟨0, hn.reset⟩

theorem played_of_start {rate : UInt32} {layout : Layout} {tone : UInt32} {p : TestPattern}
    (h : p = create rate layout tone ∨
      ∃ q, Core.Reached (create rate layout tone) q ∧ p = Core.reset q) :
    Played rate layout tone 0 p := by
  obtain rfl | ⟨q, hq, rfl⟩ := h
  · exact played_create rate layout tone
  · obtain ⟨m, hm⟩ := exists_played hq
    exact hm.reset

/-- Successive cycles come to their end where neither the rate nor the tone nor the counts after
them are too large. -/
theorem Played.exists_deliveries {rate : UInt32} {layout : Layout} {tone : UInt32} {n : Nat}
    {p : TestPattern} (h : Played rate layout tone n p) (hrate : rate.toNat + 60 ≤ UInt32.size)
    (htone : 2 * p.tone.toNat < UInt32.size) (wants : List Bool)
    (hdelivered : delivered rate (n + wants.length) < Word.limit)
    (hframe : sourceWidth - 1 + (n + wants.length) ≤ Word.limit) :
    ∃ cycles, Session.deliveries wants p = .ok cycles := by
  induction wants generalizing n p with
  | nil => exact ⟨[], rfl⟩
  | cons wanted later ih =>
    rw [List.length_cons] at hdelivered hframe
    have hgrows := delivered_le rate (n + 1) later.length
    rw [Nat.add_right_comm, Nat.add_assoc] at hgrows
    have hcarry := Nat.mod_lt (n * rate.toNat) (show 0 < 60 by decide)
    obtain ⟨q, actions, hq⟩ :=
      h.exists_cycle (by omega) (fun _ => htone) (by omega) (by omega) wanted
    have hplayed := (h.cycle hq).1
    have hsame : q.tone = p.tone := by rw [hplayed.tone_eq, h.tone_eq]
    obtain ⟨rest, hrest⟩ := ih hplayed (hsame ▸ htone) (by rwa [Nat.add_right_comm, Nat.add_assoc])
      (by omega)
    refine ⟨actions :: rest, ?_⟩
    exact Checked.bind_eq_ok_iff.mpr ⟨_, hq, Checked.bind_eq_ok_iff.mpr ⟨rest, hrest, rfl⟩⟩

theorem Delivers.flatten_eq {layout : Layout} {stretch : List Int16} {actions : List Action}
    (h : Delivers layout stretch actions) : (burstsOf actions).flatten = stretch := by
  obtain ⟨bursts, image, rfl, hflat, -⟩ := h
  have hbursts : (bursts.map Action.audio).filterMap Action.burst? = bursts := by
    rw [List.filterMap_map]
    exact List.filterMap_some
  rw [burstsOf, List.filterMap_append, hbursts, ← hflat]
  exact congrArg List.flatten (List.append_nil bursts)

/-- What successive cycles deliver is one stretch of the wave. -/
theorem Played.of_deliveries {rate : UInt32} {layout : Layout} {tone : UInt32} {n : Nat}
    {p : TestPattern} (h : Played rate layout tone n p) {wants : List Bool}
    {cycles : List (List Action)} (hc : deliveries wants p = .ok cycles) :
    cycles.length = wants.length ∧
      (cycles.flatMap burstsOf).flatten = wave layout rate.toNat tone.toNat (delivered rate n)
        (delivered rate (n + wants.length) - delivered rate n) ∧
      ∀ actions ∈ cycles, ∃ stretch, Delivers layout stretch actions := by
  induction wants generalizing n p cycles with
  | nil =>
    cases hc
    simp
  | cons wanted later ih =>
    obtain ⟨⟨q, actions⟩, hq, hc⟩ := Checked.bind_eq_ok_iff.mp hc
    obtain ⟨rest, hrest, hc⟩ := Checked.bind_eq_ok_iff.mp hc
    cases hc
    obtain ⟨hplayed, hfirst⟩ := h.cycle hq
    obtain ⟨hlength, hflat, hall⟩ := ih hplayed hrest
    refine ⟨congrArg (· + 1) hlength, ?_, ?_⟩
    · have hcount : n + (wanted :: later).length = n + 1 + later.length := by
        rw [List.length_cons]
        omega
      rw [List.flatMap_cons, List.flatten_append, hfirst.flatten_eq, hflat, hcount]
      exact wave_join (delivered_le rate n 1) (delivered_le rate (n + 1) later.length)
    · intro a ha
      rcases List.mem_cons.mp ha with rfl | ha
      · exact ⟨_, hfirst⟩
      · exact hall a ha

/-- The sound of the pattern is exact. After the start or a reset its cycles deliver the square wave
of its tone from the beginning, each sample once for every channel, and after `n` cycles they have
come to `n` sixtieths of a second. It comes in bursts of whole audio frames, none of them empty or
longer than 1024, and one picture follows the bursts of each cycle. -/
theorem sound_exact (rate : UInt32) (layout : Layout) (tone : UInt32) {p : TestPattern}
    (hp : p = create rate layout tone ∨
      ∃ q, Core.Reached (create rate layout tone) q ∧ p = Core.reset q)
    {n : Nat} {wants : List Bool} (hn : wants.length = n) {cycles : List (List Action)}
    (h : deliveries wants p = .ok cycles) :
    cycles.length = n ∧
      (cycles.flatMap burstsOf).flatten =
        (List.range (n * rate.toNat / 60)).flatMap (fun position =>
          List.replicate layout.channels (squareWave rate.toNat tone.toNat position)) ∧
      ∀ actions ∈ cycles, ∃ (bursts : List (List Int16)) (image : Image),
        actions = bursts.map .audio ++ [.video image] ∧
          ∀ b ∈ bursts, b ≠ [] ∧ ∃ m ≤ 1024, b.length = m * layout.channels := by
  obtain ⟨hlength, hflat, hall⟩ := (played_of_start hp).of_deliveries h
  refine ⟨hlength.trans hn, ?_, ?_⟩
  · rw [hflat, hn, Nat.zero_add]
    simp [wave, delivered, framesPerSecond, List.range_eq_range']
  · intro actions hactions
    obtain ⟨stretch, bursts, image, heq, -, hbursts⟩ := hall actions hactions
    exact ⟨bursts, image, heq, hbursts⟩

/-- At 90 audio frames in a second every second cycle delivers two of them. -/
theorem sound_exact_slow :
    ∃ q cycles, Core.Reached (create 90 .stereo 30) q ∧ q.frame = 1 ∧
      [true, false].length = 2 ∧
      Session.deliveries [true, false] (Core.reset q) = .ok cycles ∧ cycles.length = 2 ∧
      (cycles.flatMap burstsOf).flatten = [4000, 4000, -4000, -4000, 4000, 4000] := by
  have hstart := played_create 90 .stereo 30
  obtain ⟨q, actions, hq⟩ :=
    hstart.exists_cycle (by decide) (by decide) (by decide) (by decide) true
  have hreached : Core.Reached (create 90 .stereo 30) q := .cycled .start hq
  have hplayed := (hstart.cycle hq).1
  have htone : 2 * (Core.reset q).tone.toNat < UInt32.size := by
    rw [hplayed.reset.tone_eq]
    decide
  obtain ⟨cycles, hcycles⟩ := hplayed.reset.exists_deliveries (by decide) htone [true, false]
    (by decide) (by decide)
  obtain ⟨hlength, hflat, -⟩ :=
    sound_exact 90 .stereo 30 (.inr ⟨q, hreached, rfl⟩) (n := 2) rfl hcycles
  refine ⟨q, cycles, hreached, hplayed.frame_eq, rfl, hcycles, hlength, hflat.trans ?_⟩
  decide

end EmulatorOutput.Session.TestPattern
