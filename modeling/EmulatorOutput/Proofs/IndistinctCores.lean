import EmulatorOutput.Proofs.AlikeEndings
import EmulatorOutput.Proofs.CoreCycles

/-!
# Cores that cannot be told apart

Two cores cannot be told apart if they do the same in every cycle, also after resets. Then what they
deliver is the same, what sinks receive from them is the same, and so is a session of either, but
for the core in it: whatever is asked of the session, it reports the same and comes to the same
state, or breaks off for the same cause.
-/

namespace EmulatorOutput.Session

variable {κ α ν : Type} [Core κ]

/-- Related cores do the same in a cycle and stay related, and they have one name. -/
structure Indistinct (E : κ → κ → Prop) : Prop where
  cycle {k k'} (h : E k k') (wanted : Bool) :
    Checked.Alike (fun r r' => E r.1 r'.1 ∧ r'.2 = r.2) (Core.cycle k wanted)
      (Core.cycle k' wanted)
  reset {k k'} : E k k' → E (Core.reset k) (Core.reset k')
  name_eq {k k'} : E k k' → Core.name k' = Core.name k

/-- The sessions differ at most in their cores, and these are related. -/
inductive Loop.SameButCore (E : κ → κ → Prop) (l : Loop κ α ν) : Loop κ α ν → Prop where
  | intro {k' : κ} (h : E l.core k') : SameButCore E l { l with core := k' }

namespace Loop

theorem pass_eq [SoundSink α] [PictureSink ν] (l : Loop κ α ν) :
    l.pass = l.poll >>= fun l => l.act >>= fun l => Logged.tell l.checkLimit := rfl

namespace SameButCore

omit [Core κ]

variable {E : κ → κ → Prop} {l l' : Loop κ α ν} (h : SameButCore E l l')

include h

theorem mailbox_eq : l'.mailbox = l.mailbox := by
  cases h
  rfl

theorem phase_eq : l'.phase = l.phase := by
  cases h
  rfl

theorem receiving (mailbox : Mailbox) :
    SameButCore E (l.receiving mailbox) (l'.receiving mailbox) := by
  cases h with
  | intro h => exact .intro (l := l.receiving mailbox) h

theorem ended : SameButCore E l.ended l'.ended := by
  cases h with
  | intro h => exact .intro (l := l.ended) h

theorem checkLimit :
    (Logged.tell l.checkLimit : Logged Fault (Loop κ α ν)).Alike (SameButCore E)
      (Logged.tell l'.checkLimit) := by
  cases h with
  | intro h =>
    unfold Loop.checkLimit
    dsimp only
    split
    · split
      · exact .of_tell (.intro (l := l.ended) h) rfl
      · exact .of_tell (.intro h) rfl
    · exact .of_tell (.intro h) rfl

theorem teardown [SoundSink α] :
    (Logged.tell l.teardown : Logged Fault (Loop κ α ν)).Alike (SameButCore E)
      (Logged.tell l'.teardown) := by
  cases h with
  | intro h =>
    obtain ⟨core, sound, picture, mailbox, frameLimit, phase, reported, totals⟩ := l
    cases sound with
    | absent => exact .of_tell (.intro h) rfl
    | attached sink => exact .of_tell (.intro h) rfl
    | closed sink => exact .of_tell (.intro h) rfl

end SameButCore

end Loop

namespace Indistinct

variable {E : κ → κ → Prop} (hE : Indistinct E) {k k' : κ}

include hE

theorem deliveries_eq (h : E k k') (wants : List Bool) :
    deliveries wants k' = deliveries wants k := by
  suffices halike : Checked.Alike Eq (deliveries wants k) (deliveries wants k') from halike.eq.symm
  induction wants generalizing k k' with
  | nil => exact .ok rfl
  | cons wanted later ih =>
    refine (hE.cycle h wanted).bind ?_
    rintro ⟨m, actions⟩ ⟨m', _⟩ ⟨hm, rfl⟩
    refine (ih hm).bind ?_
    rintro rest _ rfl
    exact .ok rfl

variable [SoundSink α] [PictureSink ν]

/-- Sinks receive the same from both. -/
theorem cycles_alike (h : E k k') (n : Nat) (t : Turn α ν) :
    (Turn.cycles n k t).Alike (fun r r' => E r.1 r'.1 ∧ r'.2 = r.2) (Turn.cycles n k' t) := by
  induction n generalizing k k' t with
  | zero => exact .of_pure ⟨h, rfl⟩
  | succ n ih =>
    refine (Logged.Alike.of_except (hE.cycle h t.soundWanted)).bind ?_
    rintro ⟨m, actions⟩ ⟨m', _⟩ ⟨hm, rfl⟩
    exact .bind_same _ fun t => ih hm t

/-! ## Sessions -/

open Loop (SameButCore)

variable {l l' : Loop κ α ν}

theorem step_alike (h : SameButCore E l l') : l.step.Alike (SameButCore E) l'.step := by
  cases h with
  | intro h =>
    refine (Logged.Alike.of_except (hE.cycle h l.soundWanted)).bind ?_
    rintro ⟨m, actions⟩ ⟨m', _⟩ ⟨hm, rfl⟩
    exact .bind_same _ fun t => .of_pure (.intro (l := l.afterTurn m t) hm)

section Control

omit [SoundSink α] [PictureSink ν]

theorem heed_alike (h : SameButCore E l l') (c : Command) :
    (l.heed c).Alike (SameButCore E) (l'.heed c) := by
  cases h with
  | @intro k' h =>
    have hnotice : Loop.restartNotice { l with core := k' } c = l.restartNotice c := by
      simp only [Loop.restartNotice, hE.name_eq h]
    by_cases hc : l.Overcounts c
    · have hc' : Loop.Overcounts { l with core := k' } c := hc
      rw [Loop.heed, Loop.heed, if_pos hc, if_pos hc', hnotice]
      exact ⟨.error _, rfl⟩
    · have hc' : ¬ Loop.Overcounts { l with core := k' } c := hc
      have hcore : E (if l.phase.restarts c then Core.reset l.core else l.core)
          (if l.phase.restarts c then Core.reset k' else k') := by
        split
        · exact hE.reset h
        · exact h
      rw [Loop.heed_of_not_overcounts hc, Loop.heed_of_not_overcounts hc']
      exact .of_tell (.intro (l := (l.handle c).1) hcore) (congrArg (· ++ _) hnotice)

theorem poll_alike (h : SameButCore E l l') : l.poll.Alike (SameButCore E) l'.poll := by
  induction l using Loop.poll_induction generalizing l' with
  | command l c queue hq ih =>
    rw [l.poll_eq, l'.poll_eq, h.mailbox_eq, Mailbox.look_eq, Mailbox.take, hq]
    refine (hE.heed_alike (h.receiving _) c).bind_ok fun m m' hm hm' hsame => ?_
    obtain ⟨-, rfl⟩ := Loop.heed_eq_ok_iff.mp hm
    exact ih hsame
  | other l hq =>
    rw [l.poll_eq, l'.poll_eq, h.mailbox_eq, h.phase_eq, Mailbox.look_eq, Mailbox.take, hq]
    dsimp only
    cases l.mailbox.atLook.connected with
    | true => exact .of_pure (h.receiving _)
    | false =>
      refine .of_pure ?_
      split
      · exact h.receiving _
      · exact (h.receiving _).ended

theorem await_alike (h : SameButCore E l l') : l.await.Alike (SameButCore E) l'.await := by
  have hphase := h.phase_eq
  unfold Loop.await
  rw [h.mailbox_eq]
  obtain ⟨mailbox, c | _ | _⟩ := l.mailbox.wait
  · exact hE.heed_alike (h.receiving mailbox) c
  · exact .of_pure (h.receiving mailbox)
  · dsimp only
    rw [hphase]
    exact .bind_same _ fun _ => .of_pure (h.receiving mailbox).ended

end Control

theorem act_alike (h : SameButCore E l l') : l.act.Alike (SameButCore E) l'.act := by
  unfold Loop.act
  rw [h.phase_eq]
  split
  · exact hE.step_alike h
  · exact hE.await_alike h
  · exact hE.await_alike h
  · exact .of_pure h

theorem pass_alike (h : SameButCore E l l') : l.pass.Alike (SameButCore E) l'.pass := by
  rw [l.pass_eq, l'.pass_eq]
  refine (hE.poll_alike h).bind fun m m' hm => ?_
  refine (hE.act_alike hm).bind fun m m' hm => ?_
  exact hm.checkLimit

theorem passes_alike (h : SameButCore E l l') (n : Nat) :
    (l.passes n).Alike (SameButCore E) (l'.passes n) := by
  induction n generalizing l l' with
  | zero => exact .of_pure h
  | succ n ih =>
    unfold Loop.passes
    rw [h.phase_eq]
    split
    · exact .of_pure h
    · exact (hE.pass_alike h).bind fun m m' hm => ih hm

theorem run_alike (h : SameButCore E l l') (n : Nat) :
    (l.run n).Alike (SameButCore E) (l'.run n) := by
  have hgreeting : l'.greeting = l.greeting := by
    cases h with
    | intro h => simp only [Loop.greeting, Loop.soundWanted, hE.name_eq h]; rfl
  unfold Loop.run
  rw [hgreeting]
  refine .bind_same _ fun _ => ?_
  refine (hE.passes_alike h n).bind fun m m' hm => ?_
  rw [hm.phase_eq]
  split
  · exact hm.teardown
  · exact .of_pure hm

theorem serve_alike (h : SameButCore E l l') (r : Request) :
    (l.serve r).Alike (SameButCore E) (l'.serve r) := by
  have hmailbox := h.mailbox_eq
  cases r with
  | step => exact hE.step_alike h
  | command c => exact hE.heed_alike h c
  | post cs => exact .of_pure (hmailbox ▸ h.receiving _)
  | hangUp => exact .of_pure (hmailbox ▸ h.receiving _)
  | expect arrivals => exact .of_pure (hmailbox ▸ h.receiving _)
  | run n => exact hE.run_alike h n

theorem serveAll_alike (h : SameButCore E l l') (rs : List Request) :
    (l.serveAll rs).Alike (SameButCore E) (l'.serveAll rs) := by
  induction rs generalizing l l' with
  | nil => exact .of_pure h
  | cons r rs ih => exact (hE.serve_alike h r).bind fun m m' hm => ih hm

end Indistinct

end EmulatorOutput.Session
