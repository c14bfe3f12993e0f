import EmulatorOutput.Proofs.CheckedEndings
import EmulatorOutput.Session.TestPattern
import Mathlib.Algebra.Order.Ring.Nat

/-!
# Cycles of the test pattern

What a cycle of the pattern comes to, and the overflows for which it may break off. Its bursts are
one stretch of a square wave, wherever it is cut, and one picture comes after them.
-/

namespace EmulatorOutput

open Checked (Ends)

theorem Sound.Layout.channels_pos (l : Sound.Layout) : 0 < l.channels := by
  cases l <;> decide

namespace Session.TestPattern

open Picture (Image sourceWidth)
open Sound (Layout)

/-! ## The wave -/

/-- The square wave of a tone at a rate. A tone of no frequency counts as one of 1 Hz. -/
def squareWave (rate tone position : Nat) : Int16 :=
  if position / max 1 (rate / (2 * max 1 tone)) % 2 = 0 then 4000 else -4000

/-- A stretch of the wave from a position on, each sample repeated for every channel. -/
def wave (layout : Layout) (rate tone start count : Nat) : List Int16 :=
  (List.range' start count).flatMap fun k =>
    List.replicate layout.channels (squareWave rate tone k)

section Wave

variable {layout : Layout} {rate tone start m n : Nat}

@[simp] theorem squareWave_max (position : Nat) :
    squareWave rate (max tone 1) position = squareWave rate tone position := by
  simp [squareWave, Nat.max_comm 1]

@[simp] theorem wave_zero : wave layout rate tone start 0 = [] := by simp [wave]

theorem wave_append :
    wave layout rate tone start m ++ wave layout rate tone (start + m) n =
      wave layout rate tone start (m + n) := by
  simp only [wave, ← List.flatMap_append, List.range'_append_1]

theorem wave_join {a b c : Nat} (hab : a ≤ b) (hbc : b ≤ c) :
    wave layout rate tone a (b - a) ++ wave layout rate tone b (c - b) =
      wave layout rate tone a (c - a) := by
  have happend := @wave_append layout rate tone a (b - a) (c - b)
  rwa [Nat.add_sub_cancel' hab, Nat.add_comm (b - a), Nat.sub_add_sub_cancel hbc hab] at happend

@[simp] theorem length_wave :
    (wave layout rate tone start n).length = n * layout.channels := by
  simp [wave, List.length_flatMap, List.map_const']

end Wave

variable {p : TestPattern}

theorem halfPeriod_ends (htone : 0 < p.tone.toNat) :
    Ends p.halfPeriod (· = max (p.sampleRate.toNat / (2 * p.tone.toNat)) 1)
      fun f => f = .mulOverflow ∧ UInt32.size ≤ 2 * p.tone.toNat := by
  refine (Word.mulBelow_ends _ _ _).bind ?_
  rintro _ ⟨rfl, -⟩
  have hdiv : Word.div p.sampleRate.toNat (2 * p.tone.toNat) =
      .ok (p.sampleRate.toNat / (2 * p.tone.toNat)) :=
    Word.div_eq_ok_iff.mpr ⟨by omega, rfl⟩
  exact Ends.bind_ok hdiv rfl

theorem toneAt_ends (htone : 0 < p.tone.toNat) (position : Nat) :
    Ends (p.toneAt position) (· = squareWave p.sampleRate.toNat p.tone.toNat position)
      fun f => f = .mulOverflow ∧ UInt32.size ≤ 2 * p.tone.toNat := by
  refine (halfPeriod_ends htone).bind ?_
  rintro _ rfl
  change waveAt _ position = squareWave _ _ position
  rw [squareWave, Nat.max_eq_right (Nat.one_le_of_lt htone), Nat.max_comm 1]
  rfl

/-! ## Bursts -/

/-- The pattern so many audio frames later, with the samples of its last burst. -/
def moved (p : TestPattern) (count : Nat) (samples : List Int16) : TestPattern :=
  { p with position := p.position + count, samples }

theorem moved_moved (p : TestPattern) (m n : Nat) (xs ys : List Int16) :
    (p.moved m xs).moved n ys = p.moved (m + n) ys := by
  simp [moved, Nat.add_assoc]

/-- Why bursts of so many audio frames may break off. -/
inductive Overruns (p : TestPattern) (count : Nat) : Fault → Prop where
  | period (hcount : 0 < count) (h : UInt32.size ≤ 2 * p.tone.toNat) :
    Overruns p count .mulOverflow
  | position (h : Word.limit ≤ p.position + count) : Overruns p count .addOverflow

namespace Overruns

variable {m n : Nat} {f : Fault}

theorem mono (h : Overruns p m f) (hmn : m ≤ n) : Overruns p n f := by
  cases h with
  | period hcount h => exact .period (Nat.lt_of_lt_of_le hcount hmn) h
  | position h => exact .position (Nat.le_trans h (Nat.add_le_add_left hmn _))

theorem of_moved {xs : List Int16} (h : Overruns (p.moved m xs) n f) : Overruns p (m + n) f := by
  cases h with
  | period hcount h => exact .period (Nat.add_pos_right m hcount) h
  | position h => exact .position (Nat.add_assoc p.position m n ▸ h)

end Overruns

theorem sample_ends (htone : 0 < p.tone.toNat) {i n : Nat} (hin : i < n) :
    Ends (Word.add p.position i >>= p.toneAt)
      (· = squareWave p.sampleRate.toNat p.tone.toNat (p.position + i)) (Overruns p n) := by
  refine Ends.bind ((Word.addBelow_ends Word.limit p.position i).mono_fail ?_) ?_
  · rintro _ ⟨rfl, hover⟩
    exact .position (by omega)
  · rintro _ ⟨rfl, -⟩
    refine (toneAt_ends htone _).mono_fail ?_
    rintro _ ⟨rfl, hover⟩
    exact .period (Nat.zero_lt_of_lt hin) hover

theorem burst_ends (htone : 0 < p.tone.toNat) (n : Nat) :
    Ends (p.burst n)
      (· = p.moved n (wave p.layout p.sampleRate.toNat p.tone.toNat p.position n))
      (Overruns p n) := by
  have hvalues : ∀ i ∈ List.range n, Ends (Word.add p.position i >>= p.toneAt)
      (fun v => v = squareWave p.sampleRate.toNat p.tone.toNat (p.position + i) ∧ True)
      (Overruns p n) :=
    fun i hi => (sample_ends htone (List.mem_range.mp hi)).mono_post fun _ hv => ⟨hv, trivial⟩
  refine (Ends.mapM hvalues).bind ?_
  rintro _ ⟨rfl, -⟩
  refine Ends.bind ((Word.addBelow_ends Word.limit p.position n).mono_fail ?_) ?_
  · rintro _ ⟨rfl, hover⟩
    exact .position hover
  · rintro _ ⟨rfl, -⟩
    simp [wave, moved, List.range'_eq_map_range, List.flatMap_map, Ends, pure, Except.pure]

theorem bursts_ends (htone : 0 < p.tone.toNat) (lengths : List Nat) :
    Ends (p.bursts lengths)
      (fun r => ∃ samples bursts, r = (p.moved lengths.sum samples, bursts) ∧
        bursts.flatten = wave p.layout p.sampleRate.toNat p.tone.toNat p.position lengths.sum ∧
        ∀ b ∈ bursts, ∃ n ∈ lengths, b.length = n * p.layout.channels)
      (Overruns p lengths.sum) := by
  induction lengths generalizing p with
  | nil => exact ⟨p.samples, [], rfl, rfl, nofun⟩
  | cons n rest ih =>
    rw [List.sum_cons]
    refine Ends.bind ((burst_ends htone n).mono_fail fun f h => h.mono (Nat.le_add_right _ _)) ?_
    rintro _ rfl
    refine Ends.bind (Ends.mono_fail (ih (p := p.moved n _) htone) fun f h => h.of_moved) ?_
    rintro _ ⟨samples, later, rfl, hflat, hlengths⟩
    refine ⟨samples, _, congrArg (·, _) (moved_moved _ _ _ _ _), ?_, ?_⟩
    · rw [List.flatten_cons, hflat]
      exact wave_append
    · intro b hb
      rcases List.mem_cons.mp hb with rfl | hb
      · exact ⟨n, List.mem_cons_self, length_wave⟩
      · obtain ⟨m, hm, hlength⟩ := hlengths b hb
        exact ⟨m, List.mem_cons_of_mem n hm, hlength⟩

/-- The lengths that audio frames are cut into. -/
theorem burstLengths_spec (random : UInt32) (left : Nat) :
    (burstLengths random left).2.sum = left ∧
      ∀ n ∈ (burstLengths random left).2, 0 < n ∧ n ≤ longestBurst := by
  induction random, left using burstLengths.induct with
  | case1 random =>
    rw [burstLengths]
    simp
  | case2 random left hleft next length last lengths hcut ih =>
    obtain ⟨hsum, hrest⟩ := ih
    have hlength : 0 < length ∧ length ≤ longestBurst ∧ length ≤ left := by
      have hmod := Nat.mod_lt (next >>> 16).toNat (show 0 < longestBurst by decide)
      simp only [length, burstLength]
      omega
    rw [burstLengths, dif_neg hleft]
    refine ⟨?_, ?_⟩
    · change length + (burstLengths next (left - length)).2.sum = left
      omega
    · intro n hn
      rcases List.mem_cons.mp hn with rfl | hn
      · exact ⟨hlength.1, hlength.2.1⟩
      · exact hrest n hn

/-! ## Cycles -/

theorem render_ends (p : TestPattern) :
    Ends p.render
      (fun q => ∃ pixels, q = { p with pixels } ∧ pixels.size = p.pixels.size)
      fun f => f = .addOverflow ∧ Word.limit ≤ sourceWidth - 1 + p.frame := by
  refine (Word.addBelow_ends Word.limit _ _).bind ?_
  rintro _ ⟨rfl, -⟩
  exact ⟨_, rfl, Array.size_mapIdx⟩

/-- The audio frames that the next cycle delivers. -/
def due (p : TestPattern) : Nat := (p.sampleRate.toNat + p.carry) / framesPerSecond

theorem framesDue_ends (p : TestPattern) :
    Ends p.framesDue (· = (p.due, (p.sampleRate.toNat + p.carry) % framesPerSecond))
      fun f => f = .addOverflow ∧ UInt32.size ≤ p.sampleRate.toNat + p.carry := by
  refine (Word.addBelow_ends _ _ _).bind ?_
  rintro _ ⟨rfl, -⟩
  exact rfl

/-- The actions are bursts of whole audio frames that make up a stretch of the wave, and then one
picture. -/
def Delivers (layout : Layout) (stretch : List Int16) (actions : List Action) : Prop :=
  ∃ (bursts : List (List Int16)) (image : Image),
    actions = bursts.map .audio ++ [.video image] ∧ bursts.flatten = stretch ∧
      ∀ b ∈ bursts, b ≠ [] ∧ ∃ n ≤ longestBurst, b.length = n * layout.channels

/-- What a cycle leaves behind. -/
structure Cycled (p : TestPattern) (q : TestPattern) (actions : List Action) : Prop where
  sampleRate_eq : q.sampleRate = p.sampleRate
  layout_eq : q.layout = p.layout
  tone_eq : q.tone = p.tone
  frame_eq : q.frame = p.frame + 1
  position_eq : q.position = p.position + p.due
  carry_eq : q.carry = (p.sampleRate.toNat + p.carry) % framesPerSecond
  size_eq : q.pixels.size = p.pixels.size
  delivers : Delivers p.layout
    (wave p.layout p.sampleRate.toNat p.tone.toNat p.position p.due) actions

/-- Why a cycle may break off. -/
inductive CycleFault (p : TestPattern) : Fault → Prop where
  | rate (h : UInt32.size ≤ p.sampleRate.toNat + p.carry) : CycleFault p .addOverflow
  | bursts {f : Fault} (h : Overruns p p.due f) : CycleFault p f
  | frame (h : Word.limit ≤ sourceWidth - 1 + p.frame) : CycleFault p .addOverflow

/-- What comes after the bursts of a cycle. -/
theorem picture_ends (p : TestPattern) (bursts : List (List Int16)) :
    Ends (do
        let p ← p.render
        let frame ← Word.add p.frame 1
        return ({ p with frame }, bursts.map Action.audio ++ [.video p.image]))
      (fun r => ∃ pixels image, pixels.size = p.pixels.size ∧
        r = ({ p with pixels, frame := p.frame + 1 }, bursts.map .audio ++ [.video image]))
      fun f => f = .addOverflow ∧ Word.limit ≤ sourceWidth - 1 + p.frame := by
  refine (render_ends p).bind ?_
  rintro _ ⟨pixels, rfl, hsize⟩
  refine Ends.bind ((Word.addBelow_ends Word.limit p.frame 1).mono_fail ?_) ?_
  · rintro _ ⟨rfl, hover⟩
    have hwide : 1 ≤ sourceWidth - 1 := by decide
    exact ⟨rfl, by omega⟩
  · rintro _ ⟨rfl, -⟩
    exact ⟨pixels, _, hsize, rfl⟩

theorem cycle_ends (htone : 0 < p.tone.toNat) :
    Ends p.cycle (fun r => Cycled p r.1 r.2) (CycleFault p) := by
  refine Ends.bind ((framesDue_ends p).mono_fail ?_) ?_
  · rintro _ ⟨rfl, hover⟩
    exact .rate hover
  rintro _ rfl
  obtain ⟨hsum, hlengths⟩ := burstLengths_spec p.random p.due
  dsimp only
  generalize burstLengths p.random p.due = cut at hsum hlengths
  obtain ⟨random, lengths⟩ := cut
  dsimp only at hsum hlengths ⊢
  generalize hq : ({ p with carry := _, random } : TestPattern) = q
  have hdelivered := bursts_ends (p := q) (hq ▸ htone) lengths
  rw [hsum] at hdelivered
  subst hq
  refine Ends.bind (hdelivered.mono_fail ?_) ?_
  · rintro _ (⟨hcount, hover⟩ | hover)
    · exact .bursts (.period hcount hover)
    · exact .bursts (.position hover)
  rintro _ ⟨samples, bursts, rfl, hflat, hcut⟩
  refine Ends.mono_post (Ends.mono_fail (picture_ends _ bursts) ?_) ?_
  · rintro _ ⟨rfl, hover⟩
    exact .frame hover
  rintro _ ⟨pixels, image, hsize, rfl⟩
  refine ⟨rfl, rfl, rfl, rfl, rfl, rfl, hsize, bursts, image, rfl, hflat, ?_⟩
  intro b hb
  obtain ⟨n, hn, hlength⟩ := hcut b hb
  obtain ⟨hpos, hmost⟩ := hlengths n hn
  have hlong : 0 < b.length := hlength ▸ Nat.mul_pos hpos p.layout.channels_pos
  exact ⟨List.ne_nil_of_length_pos hlong, n, hmost, hlength⟩

end Session.TestPattern

end EmulatorOutput
