import EmulatorOutput.Proofs.IndistinctCores
import EmulatorOutput.Proofs.PatternSound
import EmulatorOutput.Session.Recording

/-!
# Resets of the test pattern

A reset leaves the last picture and the last burst where they are. Both are overwritten before they
are shown again, so a pattern that was reset cannot be told from a new one: not by what it delivers,
not by the sinks that receive it, and not by a session in which it is restarted.
-/

namespace EmulatorOutput.Session

open Checked (Alike)
open Picture (sourceHeight sourceWidth)
open Sound (Layout)

namespace TestPattern

/-- The patterns are at one place of their course, and the pictures of both are whole. Their last
pictures and bursts may differ. -/
inductive SameCourse (p : TestPattern) : TestPattern → Prop where
  | intro {pixels : Array UInt16} {samples : List Int16}
      (hp : p.pixels.size = sourceWidth * sourceHeight)
      (hpixels : pixels.size = sourceWidth * sourceHeight) :
    SameCourse p { p with pixels, samples }

variable {p q : TestPattern}

theorem burst_alike (h : SameCourse p q) (n : Nat) :
    Alike (fun p' q' => SameCourse p' q' ∧ q'.samples = p'.samples) (p.burst n) (q.burst n) := by
  cases h with
  | intro hp hpixels =>
    refine .bind_same _ fun values => .bind_same _ fun position => ?_
    exact .ok ⟨.intro hp hpixels, rfl⟩

theorem bursts_alike (h : SameCourse p q) (lengths : List Nat) :
    Alike (fun r r' => SameCourse r.1 r'.1 ∧ r'.2 = r.2) (p.bursts lengths) (q.bursts lengths) := by
  induction lengths generalizing p q with
  | nil => exact .ok ⟨h, rfl⟩
  | cons n rest ih =>
    refine (burst_alike h n).bind ?_
    rintro p' q' ⟨h', hsamples⟩
    refine (ih h').bind ?_
    rintro ⟨last, later⟩ ⟨last', _⟩ ⟨hlast, rfl⟩
    exact .ok ⟨hlast, congrArg (· :: _) hsamples⟩

/-- The picture of a frame. -/
def board (frame : Nat) : Array UInt16 :=
  (Array.range (sourceWidth * sourceHeight)).map fun i =>
    pixelAt frame (i % sourceWidth) (i / sourceWidth)

/-- A whole picture is drawn over to the last pixel. -/
theorem mapIdx_eq_board {pixels : Array UInt16} (h : pixels.size = sourceWidth * sourceHeight)
    (frame : Nat) :
    (pixels.mapIdx fun i q =>
      if i < pixels.size / sourceWidth * sourceWidth then
        pixelAt frame (i % sourceWidth) (i / sourceWidth)
      else q) = board frame := by
  have hwhole : pixels.size / sourceWidth * sourceWidth = pixels.size := by
    rw [h]
    decide
  apply Array.ext
  · simp [board, h]
  · intro i hi hi'
    have hin : i < pixels.size / sourceWidth * sourceWidth := by
      rw [hwhole]
      simpa using hi
    simp [board, hin]

theorem render_alike (h : SameCourse p q) :
    Alike (fun p' q' => SameCourse p' q' ∧ q'.image = p'.image) p.render q.render := by
  cases h with
  | @intro pixels samples hp hpixels =>
    refine .bind_same _ fun _ => .ok ?_
    dsimp only
    rw [mapIdx_eq_board hp, mapIdx_eq_board hpixels]
    have hboard : (board p.frame).size = sourceWidth * sourceHeight := by simp [board]
    exact ⟨.intro hboard hboard, rfl⟩

theorem cycle_alike (h : SameCourse p q) :
    Alike (fun r r' => SameCourse r.1 r'.1 ∧ r'.2 = r.2) p.cycle q.cycle := by
  cases h with
  | @intro pixels samples hp hpixels =>
    refine .bind_same p.framesDue fun ⟨due, carry⟩ => ?_
    dsimp only
    generalize burstLengths p.random due = cut
    obtain ⟨random, lengths⟩ := cut
    have hseeded : SameCourse { p with carry, random } { p with carry, random, pixels, samples } :=
      .intro hp hpixels
    refine (bursts_alike hseeded lengths).bind ?_
    rintro ⟨m, bursts⟩ ⟨m', _⟩ ⟨hm, rfl⟩
    refine (render_alike hm).bind ?_
    rintro r r' ⟨hr, himage⟩
    dsimp only
    rw [himage]
    cases hr with
    | intro hr hpixels' =>
      exact .bind_same _ fun frame => .ok ⟨.intro hr hpixels', rfl⟩

theorem indistinct_sameCourse : Indistinct SameCourse where
  cycle h _ := cycle_alike h
  reset h := by
    cases h with
    | intro hp hpixels => exact .intro hp hpixels
  name_eq _ := rfl

/-- The same is delivered from one place of the course, whether it is wanted or not. -/
theorem SameCourse.deliveries_eq (h : SameCourse p q) {wants wants' : List Bool}
    (hlength : wants'.length = wants.length) :
    Session.deliveries wants' q = Session.deliveries wants p := by
  rw [indistinct_sameCourse.deliveries_eq h]
  exact deliveries_congr (fun _ => rfl) p hlength

/-- A reset takes the pattern back to the beginning of its course. -/
theorem Played.sameCourse_reset {rate : UInt32} {layout : Layout} {tone : UInt32} {n : Nat}
    (h : Played rate layout tone n p) : SameCourse (create rate layout tone) (Core.reset p) := by
  obtain ⟨rfl, rfl, htone, -, -, -, hsize⟩ := h
  have hreset : Core.reset p =
      { create p.sampleRate p.layout tone with pixels := p.pixels, samples := p.samples } := by
    rw [create, ← htone]
    rfl
  rw [hreset]
  exact .intro Array.size_replicate hsize

theorem sameCourse_reset {rate : UInt32} {layout : Layout} {tone : UInt32}
    (h : Core.Reached (create rate layout tone) p) :
    SameCourse (create rate layout tone) (Core.reset p) := by
  obtain ⟨n, hn⟩ := exists_played h
  exact hn.sameCourse_reset

end TestPattern

namespace Loop

variable {κ α ν : Type} [Core κ]

/-- The session after it was told to restart its core, where the restart can be counted. -/
def restarted (l : Loop κ α ν) : Loop κ α ν := (l.handle (.choose .restart)).1

theorem restarted_of_shuttingDown {l : Loop κ α ν} (h : l.phase = .shuttingDown) :
    l.restarted = l := by
  obtain ⟨core, sound, picture, mailbox, frameLimit, phase, reported, totals⟩ := l
  cases h
  rfl

theorem core_restarted {l : Loop κ α ν} (h : l.phase ≠ .shuttingDown) :
    l.restarted.core = Core.reset l.core := by
  have hrestarts : l.phase.restarts (.choose .restart) = true := by simp [Phase.restarts, h]
  exact if_pos hrestarts

theorem serve_restart [SoundSink α] [PictureSink ν] {l : Loop κ α ν}
    (h : l.phase = .shuttingDown ∨ l.totals.restarts + 1 < UInt32.size) :
    (l.serve (.command (.choose .restart))).outcome = .ok l.restarted := by
  refine heed_eq_ok_iff.mpr ⟨?_, rfl⟩
  rintro ⟨hrestarts, hover⟩
  obtain hphase | hfits := h
  · simp [Phase.restarts, hphase] at hrestarts
  · omega

end Loop

/-- Without sinks a turn comes to its end. -/
theorem Turn.exists_performAll {α ν : Type} [SoundSink α] [PictureSink ν] {t : Turn α ν}
    (hsound : t.sound = none) (hpicture : t.picture = none) (actions : List Action) :
    ∃ t', (t.performAll actions).outcome = .ok t' := by
  induction actions generalizing t with
  | nil => exact ⟨t, rfl⟩
  | cons a actions ih =>
    obtain ⟨u, hu, hsound', hpicture'⟩ : ∃ u, (t.perform a).outcome = .ok u ∧
        u.sound = none ∧ u.picture = none := by
      cases a with
      | audio samples =>
        refine ⟨t, ?_, hsound, hpicture⟩
        rw [perform, pushAudio, hsound]
        rfl
      | video image =>
        refine ⟨t, ?_, hsound, hpicture⟩
        rw [perform, presentVideo, hpicture]
        rfl
      | send c => exact ⟨{ t with sent := c :: t.sent }, rfl, hsound, hpicture⟩
    obtain ⟨t', ht'⟩ := ih hsound' hpicture'
    exact ⟨t', Logged.bind_ok hu ht'⟩

namespace TestPattern

/-- A reset replays the pattern. Whatever cycles and resets came before, and whichever sinks were
there, the cycles after it deliver the same bursts and pictures as those of a new pattern with the
same parameters, and sinks that receive them end and report alike. A session that restarts the
pattern, as it does on command if it can count the restart, answers all later requests as if its
core were new; one that is shutting down does not restart. -/
theorem reset_replays {α ν : Type} [SoundSink α] [PictureSink ν] (rate : UInt32) (layout : Layout)
    (tone : UInt32) {p : TestPattern} (hp : Core.Reached (create rate layout tone) p) :
    (∀ wants wants', wants'.length = wants.length →
      deliveries wants' (Core.reset p) = deliveries wants (create rate layout tone)) ∧
    (∀ (m : Nat) (t t' : Turn α ν) (q : TestPattern), (Turn.cycles m p t).outcome = .ok (q, t') →
      ∀ (n : Nat) (u : Turn α ν), (Turn.cycles n (create rate layout tone) u).Alike
        (fun r r' => r'.2 = r.2) (Turn.cycles n (Core.reset q) u)) ∧
    ∀ (l m : Loop TestPattern α ν) (rs : List Request), l.core = p →
      (l.serveAll rs).outcome = .ok m →
      (m.phase = .shuttingDown ∨ m.totals.restarts + 1 < UInt32.size →
        (m.serve (.command (.choose .restart))).outcome = .ok m.restarted) ∧
      (m.phase = .shuttingDown → m.restarted = m) ∧
      (m.phase ≠ .shuttingDown →
        (∀ wants wants', wants'.length = wants.length →
          deliveries wants' m.restarted.core = deliveries wants (create rate layout tone)) ∧
        ∀ later, (Loop.serveAll later { m.restarted with core := create rate layout tone }).Alike
          (Loop.SameButCore SameCourse) (m.restarted.serveAll later)) := by
  have hsame := sameCourse_reset hp
  refine ⟨fun wants wants' hlength => hsame.deliveries_eq hlength, ?_, ?_⟩
  · intro m t t' q ht n u
    have hlater := sameCourse_reset (hp.of_cycles ht)
    exact (indistinct_sameCourse.cycles_alike hlater n u).mono fun _ _ h => h.2
  · rintro l m rs rfl hm
    refine ⟨Loop.serve_restart, Loop.restarted_of_shuttingDown, fun hphase => ?_⟩
    have hreached : Core.Reached (create rate layout tone) m.core :=
      (Core.Reached.kept _).serveAll hp hm
    have hrestarted : SameCourse (create rate layout tone) m.restarted.core :=
      Loop.core_restarted hphase ▸ sameCourse_reset hreached
    exact ⟨fun wants wants' hlength => hrestarted.deliveries_eq hlength,
      indistinct_sameCourse.serveAll_alike (.intro hrestarted)⟩

/-- The pattern is cycled once in silence, and then heard and seen for two cycles. -/
theorem reset_replays_slow :
    ∃ q cycles, Core.Reached (create 90 .stereo 30) q ∧ q.frame = 1 ∧
      Session.deliveries [true, true] (create 90 .stereo 30) = .ok cycles ∧
      Session.deliveries [true, true] (Core.reset q) = .ok cycles ∧
      (∀ u : Turn SoundRecording PictureRecording,
        (Turn.cycles 2 (create 90 .stereo 30) u).Alike (fun r r' => r'.2 = r.2)
          (Turn.cycles 2 (Core.reset q) u)) ∧
      ∀ l : Loop TestPattern SoundRecording PictureRecording, l.core = q →
        l.phase = .running → (Loop.serveAll [.step, .step]
          { l.restarted with core := create 90 .stereo 30 }).Alike
            (Loop.SameButCore SameCourse) (l.restarted.serveAll [.step, .step]) := by
  have hstart := played_create 90 .stereo 30
  obtain ⟨q, actions, hq⟩ :=
    hstart.exists_cycle (by decide) (by decide) (by decide) (by decide) false
  obtain ⟨cycles, hcycles⟩ := hstart.exists_deliveries (by decide) (by decide) [true, true]
    (by decide) (by decide)
  have hreached : Core.Reached (create 90 .stereo 30) q := .cycled .start hq
  obtain ⟨t', ht'⟩ := Turn.exists_performAll (α := SoundRecording) (ν := PictureRecording)
    (t := { sound := none, picture := none, reported := [] }) rfl rfl actions
  have hturn : (Turn.cycles 1 (create 90 .stereo 30)
      ({ sound := none, picture := none, reported := [] } :
        Turn SoundRecording PictureRecording)).outcome = .ok (q, t') :=
    Logged.bind_ok hq (Logged.bind_ok ht' rfl)
  obtain ⟨-, hsinks, -⟩ := @reset_replays SoundRecording PictureRecording _ _ 90 .stereo 30 _ .start
  obtain ⟨hdeliver, -, hsession⟩ :=
    @reset_replays SoundRecording PictureRecording _ _ 90 .stereo 30 q hreached
  refine ⟨q, cycles, hreached, (hstart.cycle hq).1.frame_eq, hcycles,
    (hdeliver _ _ rfl).trans hcycles, hsinks 1 _ t' q hturn 2, ?_⟩
  intro l hl hphase
  have hrunning : l.phase ≠ .shuttingDown := hphase ▸ by decide
  exact ((hsession l l [] hl rfl).2.2 hrunning).2 [.step, .step]

end TestPattern

end EmulatorOutput.Session
