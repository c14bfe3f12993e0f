import EmulatorOutput.Proofs.SessionTotals
import EmulatorOutput.Session.Recording
import Mathlib.Data.Finset.Card

/-!
# Reports of dropped pictures

The turns of a session share one record of the kinds of failure that were reported. Against what the
sinks reply to all the actions of all turns, only the first refusal of each kind is reported, and
each turn counts every picture once.
-/

namespace EmulatorOutput.Session

open Picture (Image)

/-! ## Replies of sinks -/

/-- What a sink replies to an action, with the notices that it gives itself. -/
inductive Reply where
  /-- Samples were taken. -/
  | taken (notices : List Notice)
  | presented (notices : List Notice)
  | refused (notices : List Notice) (cause : Failure)
  /-- The sink broke off, and the turn with it. -/
  | lost (notices : List Notice)

namespace Reply

def isPresented : Reply → Bool
  | .presented _ => true
  | .taken _ | .refused .. | .lost _ => false

def isRefused : Reply → Bool
  | .refused .. => true
  | .taken _ | .presented _ | .lost _ => false

def isLost : Reply → Bool
  | .lost _ => true
  | .taken _ | .presented _ | .refused .. => false

def cause? : Reply → Option Failure
  | .refused _ e => some e
  | .taken _ | .presented _ | .lost _ => none

end Reply

section Replies

variable {α ν : Type} [SoundSink α] [PictureSink ν]

/-- What the sinks reply to the actions of a cycle, until one of them breaks off. Where there is no
sink there is no reply. -/
def replies : List Action → Option α → Option ν → List Reply
  | [], _, _ => []
  | .audio _ :: rest, none, picture => replies rest none picture
  | .audio samples :: rest, some sink, picture =>
    let answer := SoundSink.push sink samples
    match answer.outcome with
    | .ok (sink, _) => .taken answer.notices :: replies rest (some sink) picture
    | .error _ => [.lost answer.notices]
  | .video _ :: rest, sound, none => replies rest sound none
  | .video image :: rest, sound, some sink =>
    let answer := PictureSink.present sink image
    match answer.outcome with
    | .ok (sink, .ok ()) => .presented answer.notices :: replies rest sound (some sink)
    | .ok (sink, .error e) => .refused answer.notices e :: replies rest sound (some sink)
    | .error _ => [.lost answer.notices]
  | .send _ :: rest, sound, picture => replies rest sound picture

end Replies

/-! ## Reports -/

/-- The report of a picture that is dropped. -/
def dropNotice (e : Failure) : Notice := ⟨.warn, s!"Dropping video frame: {e.message}"⟩

/-- The kinds of the refusals among replies. -/
def kindsOf (rs : List Reply) : List Failure.Kind :=
  rs.filterMap fun r => r.cause?.map Failure.kind

/-- What is reported of a reply that came after others. A refusal is reported if none of these was
of its kind. -/
def report (earlier : List Reply) : Reply → List Notice
  | .taken notices | .presented notices | .lost notices => notices
  | .refused notices e => notices ++ if e.kind ∈ kindsOf earlier then [] else [dropNotice e]

/-- What is reported of replies that came one by one after others. -/
def reports : List Reply → List Reply → List Notice
  | _, [] => []
  | earlier, r :: rest => report earlier r ++ reports (earlier ++ [r]) rest

theorem reports_append (earlier xs ys : List Reply) :
    reports earlier (xs ++ ys) = reports earlier xs ++ reports (earlier ++ xs) ys := by
  induction xs generalizing earlier with
  | nil => simp [reports]
  | cons x xs ih => simp [reports, ih]

theorem reports_singleton (earlier : List Reply) (r : Reply) :
    reports earlier [r] = report earlier r := by
  simp [reports]

/-- The record holds the kinds of the refusals, each of them once. -/
structure Remembered (rs : List Reply) (reported : List Failure.Kind) : Prop where
  nodup : reported.Nodup
  mem_iff (k : Failure.Kind) : k ∈ reported ↔ k ∈ kindsOf rs

namespace Remembered

variable {rs : List Reply} {reported : List Failure.Kind}

theorem nothing : Remembered [] [] := ⟨List.nodup_nil, fun _ => Iff.rfl⟩

theorem length_eq (h : Remembered rs reported) :
    reported.length = (kindsOf rs).toFinset.card := by
  rw [← List.toFinset_card_of_nodup h.nodup]
  congr 1
  ext k
  rw [List.mem_toFinset, List.mem_toFinset, h.mem_iff]

theorem keep (h : Remembered rs reported) {r : Reply} (hr : r.cause? = none) :
    Remembered (rs ++ [r]) reported := by
  have hkinds : kindsOf (rs ++ [r]) = kindsOf rs := by simp [kindsOf, hr]
  exact ⟨h.nodup, fun k => hkinds ▸ h.mem_iff k⟩

theorem refuse (h : Remembered rs reported) (notices : List Notice) (e : Failure) :
    Remembered (rs ++ [.refused notices e])
      (if e.kind ∈ reported then reported else reported ++ [e.kind]) := by
  have hkinds : kindsOf (rs ++ [.refused notices e]) = kindsOf rs ++ [e.kind] := by
    simp [kindsOf, Reply.cause?]
  split
  · refine ⟨h.nodup, fun k => ?_⟩
    have hold : e.kind ∈ kindsOf rs := (h.mem_iff _).mp ‹_›
    rw [hkinds, h.mem_iff, List.mem_append, List.mem_singleton]
    constructor
    · exact .inl
    · rintro (hk | rfl)
      · exact hk
      · exact hold
  · constructor
    · rw [List.nodup_append]
      refine ⟨h.nodup, List.nodup_singleton _, ?_⟩
      intro k hk k' hk' heq
      rw [List.mem_singleton] at hk'
      exact absurd (hk' ▸ heq ▸ hk) ‹_›
    · intro k
      rw [hkinds, List.mem_append, List.mem_append, h.mem_iff]

end Remembered

/-! ## Turns -/

namespace Turn

variable {α ν : Type} {t t' t'' : Turn α ν} {earlier rs rs' : List Reply}
  {actions actions' : List Action} {ns ns' : List Notice}

theorem pushAudio_of_taken [SoundSink α] {samples : List Int16} {sink : α} {r : α × Nat}
    (hsink : t.sound = some sink) (hr : (SoundSink.push sink samples).outcome = .ok r) :
    t.pushAudio samples =
      ⟨.ok (t.heard samples r.1), (SoundSink.push sink samples).notices⟩ := by
  rw [pushAudio, hsink]
  simp [Logged.bind_of_ok hr, heard]

theorem presentVideo_of_presented [PictureSink ν] {i : Image} {sink sink' : ν}
    (hsink : t.picture = some sink)
    (hr : (PictureSink.present sink i).outcome = .ok (sink', .ok ())) :
    t.presentVideo i =
      ⟨.ok (t.seen sink' (.ok ())), (PictureSink.present sink i).notices⟩ := by
  rw [presentVideo, hsink]
  simp [Logged.bind_of_ok hr, seen]

theorem presentVideo_of_refused [PictureSink ν] {i : Image} {sink sink' : ν} {e : Failure}
    (hsink : t.picture = some sink)
    (hr : (PictureSink.present sink i).outcome = .ok (sink', .error e)) :
    t.presentVideo i =
      ⟨.ok (t.seen sink' (.error e)), (PictureSink.present sink i).notices ++
        if e.kind ∈ t.reported then [] else [dropNotice e]⟩ := by
  rw [presentVideo, hsink]
  simp only [Logged.bind_of_ok hr]
  by_cases hold : e.kind ∈ t.reported
  · simp [refuse, seen, hold]
  · simp only [refuse, seen, if_neg hold]
    rfl

/-- What actions leave behind that were given these replies, after earlier ones. -/
structure Routed (earlier : List Reply) (t : Turn α ν) (actions : List Action) (rs : List Reply)
    (ns : List Notice) (t' : Turn α ν) : Prop where
  notices_eq : ns = reports earlier rs
  remembered : Remembered (earlier ++ rs) t'.reported
  presented_eq : t'.presented = t.presented + rs.countP Reply.isPresented
  dropped_eq : t'.dropped = t.dropped + rs.countP Reply.isRefused
  lit_eq : t'.picture.isSome = t.picture.isSome
  answered : rs.countP Reply.isPresented + rs.countP Reply.isRefused =
    if t.picture.isSome then actions.countP Action.isPicture else 0

namespace Routed

theorem silent (hr : Remembered earlier t.reported) (hlit : t'.picture.isSome = t.picture.isSome)
    (hreported : t'.reported = t.reported) (hpresented : t'.presented = t.presented)
    (hdropped : t'.dropped = t.dropped)
    (hactions : t.picture.isSome → actions.countP Action.isPicture = 0) :
    Routed earlier t actions [] [] t' where
  notices_eq := rfl
  remembered := by rwa [List.append_nil, hreported]
  presented_eq := hpresented
  dropped_eq := hdropped
  lit_eq := hlit
  answered := by
    split
    · exact (hactions ‹_›).symm
    · rfl

theorem trans (h : Routed earlier t actions rs ns t')
    (h' : Routed (earlier ++ rs) t' actions' rs' ns' t'') :
    Routed earlier t (actions ++ actions') (rs ++ rs') (ns ++ ns') t'' where
  notices_eq := by rw [h.notices_eq, h'.notices_eq, reports_append]
  remembered := List.append_assoc earlier rs rs' ▸ h'.remembered
  presented_eq := by rw [h'.presented_eq, h.presented_eq, List.countP_append, Nat.add_assoc]
  dropped_eq := by rw [h'.dropped_eq, h.dropped_eq, List.countP_append, Nat.add_assoc]
  lit_eq := h'.lit_eq.trans h.lit_eq
  answered := by
    have hfirst := h.answered
    have hlater := h'.answered
    rw [h.lit_eq] at hlater
    rw [List.countP_append, List.countP_append, List.countP_append]
    split at hfirst
    · rw [if_pos ‹_›] at hlater ⊢
      omega
    · rw [if_neg ‹_›] at hlater ⊢
      omega

end Routed

variable [SoundSink α] [PictureSink ν]

theorem pushAudio_routed (hr : Remembered earlier t.reported) {samples : List Int16}
    {rest : List Action}
    (hsinks : ∀ r ∈ replies (.audio samples :: rest) t.sound t.picture, r.isLost = false) :
    ∃ t' rs, (t.pushAudio samples).outcome = .ok t' ∧
      replies (.audio samples :: rest) t.sound t.picture =
        rs ++ replies rest t'.sound t'.picture ∧
      Routed earlier t [.audio samples] rs (t.pushAudio samples).notices t' := by
  cases hsink : t.sound with
  | none =>
    have hpure : t.pushAudio samples = pure t := by rw [pushAudio, hsink]
    rw [hpure]
    refine ⟨t, [], rfl, ?_, .silent hr rfl rfl rfl rfl fun _ => rfl⟩
    rw [hsink, replies, List.nil_append]
  | some sink =>
    rw [hsink, replies] at hsinks
    cases hpush : (SoundSink.push sink samples).outcome with
    | error f => simp [hpush, Reply.isLost] at hsinks
    | ok r =>
      rw [pushAudio_of_taken hsink hpush]
      refine ⟨t.heard samples r.1, [.taken (SoundSink.push sink samples).notices], rfl, ?_, ?_⟩
      · rw [replies]
        simp only [hpush]
        rfl
      · constructor
        · rw [reports_singleton, report]
        · exact hr.keep rfl
        · rfl
        · rfl
        · rfl
        · exact (ite_self 0).symm

theorem presentVideo_routed (hr : Remembered earlier t.reported) {i : Image} {rest : List Action}
    (hsinks : ∀ r ∈ replies (.video i :: rest) t.sound t.picture, r.isLost = false) :
    ∃ t' rs, (t.presentVideo i).outcome = .ok t' ∧
      replies (.video i :: rest) t.sound t.picture = rs ++ replies rest t'.sound t'.picture ∧
      Routed earlier t [.video i] rs (t.presentVideo i).notices t' := by
  cases hsink : t.picture with
  | none =>
    have hpure : t.presentVideo i = pure t := by rw [presentVideo, hsink]
    rw [hpure]
    refine ⟨t, [], rfl, ?_, .silent hr rfl rfl rfl rfl fun hlit => ?_⟩
    · rw [hsink, replies, List.nil_append]
    · rw [hsink] at hlit
      cases hlit
  | some sink =>
    have hlit : t.picture.isSome := by rw [hsink]; rfl
    rw [hsink, replies] at hsinks
    cases hpresent : (PictureSink.present sink i).outcome with
    | error f => simp [hpresent, Reply.isLost] at hsinks
    | ok r =>
      obtain ⟨sink', answer⟩ := r
      refine ⟨t.seen sink' answer, ?_⟩
      cases answer with
      | ok u =>
        rw [presentVideo_of_presented hsink hpresent]
        refine ⟨[.presented (PictureSink.present sink i).notices], rfl, ?_, ?_⟩
        · rw [replies]
          simp only [hpresent]
          rfl
        · constructor
          · rw [reports_singleton, report]
          · exact hr.keep rfl
          · rfl
          · rfl
          · exact hlit.symm
          · exact (if_pos hlit).symm
      | error e =>
        rw [presentVideo_of_refused hsink hpresent]
        refine ⟨[.refused (PictureSink.present sink i).notices e], rfl, ?_, ?_⟩
        · rw [replies]
          simp only [hpresent]
          rfl
        · constructor
          · rw [reports_singleton, report]
            simp only [hr.mem_iff]
          · exact hr.refuse _ e
          · rfl
          · rfl
          · exact hlit.symm
          · exact (if_pos hlit).symm

theorem perform_routed (hr : Remembered earlier t.reported) {a : Action} {rest : List Action}
    (hsinks : ∀ r ∈ replies (a :: rest) t.sound t.picture, r.isLost = false) :
    ∃ t' rs, (t.perform a).outcome = .ok t' ∧
      replies (a :: rest) t.sound t.picture = rs ++ replies rest t'.sound t'.picture ∧
      Routed earlier t [a] rs (t.perform a).notices t' := by
  cases a with
  | audio samples => exact pushAudio_routed hr hsinks
  | video i => exact presentVideo_routed hr hsinks
  | send c => exact ⟨_, [], rfl, rfl, .silent hr rfl rfl rfl rfl fun _ => rfl⟩

/-- A whole cycle, with all that the sinks replied in it. It comes to its end if no sink breaks
off. -/
theorem performAll_routed (hr : Remembered earlier t.reported)
    (hsinks : ∀ r ∈ replies actions t.sound t.picture, r.isLost = false) :
    ∃ t', (t.performAll actions).outcome = .ok t' ∧
      Routed earlier t actions (replies actions t.sound t.picture) (t.performAll actions).notices
        t' := by
  induction actions generalizing t earlier with
  | nil => exact ⟨t, rfl, .silent hr rfl rfl rfl rfl fun _ => rfl⟩
  | cons a rest ih =>
    obtain ⟨t₁, rs, h₁, hreplies, hfirst⟩ := perform_routed hr hsinks
    rw [hreplies] at hsinks ⊢
    obtain ⟨t₂, h₂, hlater⟩ :=
      ih hfirst.remembered fun r hmem => hsinks r (List.mem_append_right rs hmem)
    rw [performAll, Logged.bind_of_ok h₁]
    exact ⟨t₂, h₂, hfirst.trans hlater⟩

end Turn

/-! ## Sessions -/

section Sessions

variable {α ν : Type}

/-- What one turn of a session is given. -/
structure FrameUse (α ν : Type) where
  sound : Option α
  picture : Option ν
  actions : List Action

/-- The turn, over the kinds of failure reported before. -/
def FrameUse.turn (f : FrameUse α ν) (reported : List Failure.Kind) : Turn α ν :=
  { sound := f.sound, picture := f.picture, reported }

variable [SoundSink α] [PictureSink ν]

def FrameUse.replies (f : FrameUse α ν) : List Reply :=
  Session.replies f.actions f.sound f.picture

/-- Turn after turn over one record of reported kinds. Gives the turns and the record. -/
def performFrames : List (FrameUse α ν) → List Failure.Kind →
    Logged Fault (List (Turn α ν) × List Failure.Kind)
  | [], reported => pure ([], reported)
  | f :: rest, reported => do
    let t ← (f.turn reported).performAll f.actions
    let (later, reported) ← performFrames rest t.reported
    return (t :: later, reported)

/-- The turn has counted each picture once. -/
structure Counted (f : FrameUse α ν) (t : Turn α ν) : Prop where
  presented_eq : t.presented = f.replies.countP Reply.isPresented
  dropped_eq : t.dropped = f.replies.countP Reply.isRefused
  sum_eq : t.presented + t.dropped =
    if f.picture.isSome then f.actions.countP Action.isPicture else 0

theorem Turn.Routed.counted {f : FrameUse α ν} {earlier : List Reply}
    {reported : List Failure.Kind} {ns : List Notice} {t : Turn α ν}
    (h : Turn.Routed earlier (f.turn reported) f.actions f.replies ns t) : Counted f t := by
  have hpresented := h.presented_eq.trans (Nat.zero_add _)
  have hdropped := h.dropped_eq.trans (Nat.zero_add _)
  refine ⟨hpresented, hdropped, ?_⟩
  rw [hpresented, hdropped]
  exact h.answered

theorem performFrames_spec {fs : List (FrameUse α ν)} {earlier : List Reply}
    {reported : List Failure.Kind} (hr : Remembered earlier reported)
    (hsinks : ∀ f ∈ fs, ∀ r ∈ f.replies, r.isLost = false) :
    ∃ ts reported', (performFrames fs reported).outcome = .ok (ts, reported') ∧
      (performFrames fs reported).notices = reports earlier (fs.flatMap FrameUse.replies) ∧
      Remembered (earlier ++ fs.flatMap FrameUse.replies) reported' ∧
      List.Forall₂ Counted fs ts := by
  induction fs generalizing earlier reported with
  | nil =>
    refine ⟨[], reported, rfl, rfl, ?_, .nil⟩
    rwa [List.flatMap_nil, List.append_nil]
  | cons f rest ih =>
    obtain ⟨hhere, hrest⟩ := List.forall_mem_cons.mp hsinks
    obtain ⟨t, ht, hfirst⟩ := Turn.performAll_routed (t := f.turn reported) hr hhere
    obtain ⟨later, last, hlater, hnotices, hremembered, hcounted⟩ := ih hfirst.remembered hrest
    have hframes : performFrames (f :: rest) reported =
        ⟨.ok (t :: later, last), reports earlier ((f :: rest).flatMap FrameUse.replies)⟩ := by
      rw [performFrames, Logged.bind_of_ok ht]
      dsimp only
      rw [Logged.bind_of_ok hlater, hnotices, hfirst.notices_eq, List.flatMap_cons, reports_append]
      simp [FrameUse.replies, FrameUse.turn]
    rw [hframes]
    refine ⟨_, _, rfl, rfl, ?_, .cons (Turn.Routed.counted hfirst) hcounted⟩
    rwa [List.flatMap_cons, ← List.append_assoc]

/-- Failures are reported once for each kind. In a session of any turns, with any sinks that do not
break off, the turns come to their end. What is reported is what the sinks report themselves and a
warning for each refusal of a kind that was not refused before in the session, in whichever turn and
with whatever details. The record holds as many kinds as were refused. Each turn counts every
picture once, as presented or as dropped, if it has a picture sink, and otherwise none. -/
theorem failures_reported_once {fs : List (FrameUse α ν)}
    (hsinks : ∀ f ∈ fs, ∀ r ∈ f.replies, r.isLost = false) :
    ∃ ts reported, (performFrames fs []).outcome = .ok (ts, reported) ∧
      (performFrames fs []).notices = reports [] (fs.flatMap FrameUse.replies) ∧
      reported.Nodup ∧
      reported.length = (kindsOf (fs.flatMap FrameUse.replies)).toFinset.card ∧
      List.Forall₂ (fun f t =>
        t.presented = f.replies.countP Reply.isPresented ∧
        t.dropped = f.replies.countP Reply.isRefused ∧
        t.presented + t.dropped =
          if f.picture.isSome then f.actions.countP Action.isPicture else 0) fs ts := by
  obtain ⟨ts, reported, hend, hnotices, hremembered, hcounted⟩ := performFrames_spec .nothing hsinks
  exact ⟨ts, reported, hend, hnotices, hremembered.nodup, hremembered.length_eq,
    hcounted.imp fun f t ht => ⟨ht.presented_eq, ht.dropped_eq, ht.sum_eq⟩⟩

end Sessions

/-- A turn in which two of three pictures are refused by the device, one in which it refuses once
more and a file cannot be written, and one without a picture sink. -/
def unluckyFrames : List (FrameUse SoundRecording PictureRecording) :=
  let picture : Action := .video ⟨#[1], 1, 1⟩
  [{ sound := some {}
     picture := some { refusals := [some (.deviceError "first"), none, some (.deviceError "gone")] }
     actions := [picture, .audio [1, 2], picture, picture] },
   { sound := none
     picture := some { refusals := [some (.deviceError "again"), some (.io "full")] }
     actions := [picture, .audio [3], picture, picture] },
   { sound := none, picture := none, actions := [picture] }]

/-- Of their four refusals the first and the last are reported. -/
theorem failures_reported_once_unlucky :
    ∃ ts reported, (performFrames unluckyFrames []).outcome = .ok (ts, reported) ∧
      (performFrames unluckyFrames []).notices =
        [dropNotice (.deviceError "first"), dropNotice (.io "full")] ∧
      reported.length = 2 ∧
      ts.map (fun t => (t.presented, t.dropped)) = [(1, 2), (1, 2), (0, 0)] := by
  have hsinks : ∀ f ∈ unluckyFrames, ∀ r ∈ f.replies, r.isLost = false := by decide
  obtain ⟨ts, reported, h, hnotices, -, hlength, -⟩ := failures_reported_once hsinks
  refine ⟨ts, reported, h, hnotices.trans rfl, hlength.trans rfl, ?_⟩
  cases h
  rfl

end EmulatorOutput.Session
