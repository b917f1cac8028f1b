import SmoArchipelago.Library.Channel
import SmoArchipelago.Library.Runs
import SmoArchipelago.Switch.ApState

/-! # Outbound checks: dedupe set and bounded ring

The frame thread reports checks and the socket thread sends them. A run is a list
of events of both threads; the state logs what was reported and what was sent.

## Implementation notes

A send that succeeds and the discard of its entry are two events, so a report may
fall between them. A save load is not an event: the runs are those of one session
between two loads. -/

namespace SmoArchipelago.Switch.Outbound

open Library Library.Runs ApProtocol

/-- The outbound half of the game state. The channel logs the checks handed to a
successful send; `reported` and `replayed` log the other side. -/
structure State where
  locationsChecked : FlatHashSet 4096
  outboundChecks : Channel Check 256
  syntheticGrantThisFrame : Bool
  nextCheckSeq : ℤ
  connected : Bool
  reported : List Check
  replayed : List UInt64

/-- The state at the start of a session. -/
def start : State where
  locationsChecked := ProbeTable.reset
  outboundChecks := Channel.empty 256 default
  syntheticGrantThisFrame := false
  nextCheckSeq := 1
  connected := false
  reported := []
  replayed := []

/-- What the two threads do. -/
inductive Event where
  | reportMoonChecked (stageName objectId : List UInt8) (shineUid : ℤ)
  | reportCaptureChecked (hackName : List UInt8)
  | setSyntheticGrant (on : Bool)
  | connect
  | disconnect
  | checkedReplay (ids : List ItemRef)
  | send (ok : Bool)
  | popDiscard

/-- The check a moon report builds. -/
def moonCheck (stageName objectId : List UInt8) (shineUid seq : ℤ) : Check :=
  { (default : Check) with
    kind := .moon
    stageName := CStr.ofBytes stageName
    objectId := CStr.ofBytes objectId
    shineUid := shineUid
    seq := seq }

/-- The check a capture report builds. -/
def captureCheck (hackName : List UInt8) : Check :=
  { (default : Check) with kind := .capture, hackName := CStr.ofBytes hackName }

/-- The check a replayed id stands for. -/
def replayCheck (ref : ItemRef) : Check :=
  { (default : Check) with
    kind := ref.kind
    kingdom := ref.kingdom.copy
    shineId := ref.shineId.copy
    cap := ref.cap.copy }

/-- `enqueueCheck`: record the hash, then push without looking at the result. -/
def enqueueCheck (c : Check) (s : State) : State :=
  if s.syntheticGrantThisFrame then s
  else
    let inserted := FlatHashSet.tryInsert s.locationsChecked (hashCheck c)
    { s with
      locationsChecked := inserted.2
      outboundChecks := if inserted.1 then s.outboundChecks.offer c else s.outboundChecks
      reported := s.reported ++ [c] }

/-- `handleLine` on one replayed id. -/
def replayId (s : State) (ref : ItemRef) : State :=
  { s with
    locationsChecked := (FlatHashSet.tryInsert s.locationsChecked (hashCheck (replayCheck ref))).2
    replayed := s.replayed ++ [hashCheck (replayCheck ref)] }

/-- The socket thread is between two turns of its send loop. -/
def State.idle (s : State) : Bool := !s.outboundChecks.discardDue

/-- Events that are not enabled change nothing. -/
def step (s : State) : Event → State
  | .reportMoonChecked stageName objectId shineUid =>
      enqueueCheck (moonCheck stageName objectId shineUid s.nextCheckSeq)
        { s with nextCheckSeq := s.nextCheckSeq + 1 }
  | .reportCaptureChecked hackName => enqueueCheck (captureCheck hackName) s
  | .setSyntheticGrant on => { s with syntheticGrantThisFrame := on }
  | .connect => if s.idle then { s with connected := true } else s
  | .disconnect => if s.idle then { s with connected := false } else s
  | .checkedReplay ids => if s.connected && s.idle then ids.foldl replayId s else s
  | .send ok =>
      if s.connected && ok then { s with outboundChecks := s.outboundChecks.take } else s
  | .popDiscard => { s with outboundChecks := s.outboundChecks.discard }

/-- The checks handed to a successful send. -/
def State.sent (s : State) : List Check := s.outboundChecks.consumed

/-- The queued checks not yet handed to a successful send. -/
def State.unsent (s : State) : List Check := s.outboundChecks.waiting

/-- The reports that are the first with their hash, in order. -/
def firstReports (reports : List Check) : List Check :=
  reports.foldl
    (fun firsts c => if hashCheck c ∈ firsts.map hashCheck then firsts else firsts ++ [c]) []

theorem firstReports_snoc (reports : List Check) (c : Check) :
    firstReports (reports ++ [c]) =
      if hashCheck c ∈ (firstReports reports).map hashCheck then firstReports reports
      else firstReports reports ++ [c] := by
  simp [firstReports]

theorem mem_firstReports (reports : List Check) :
    ∀ h, h ∈ (firstReports reports).map hashCheck ↔ h ∈ reports.map hashCheck := by
  induction reports using List.reverseRecOn with
  | nil => exact fun h => Iff.rfl
  | append_singleton reports c ih =>
      intro h
      rw [firstReports_snoc, List.map_append, List.mem_append, List.map_singleton,
        List.mem_singleton]
      split_ifs with old
      · rw [ih]
        refine ⟨.inl, fun h => h.elim id ?_⟩
        rintro rfl
        exact (ih _).1 old
      · rw [List.map_append, List.mem_append, List.map_singleton, List.mem_singleton, ih]

/-- A repeated report is not a first one. -/
theorem firstReports_old {reports : List Check} {c : Check}
    (old : hashCheck c ∈ reports.map hashCheck) :
    firstReports (reports ++ [c]) = firstReports reports :=
  (firstReports_snoc reports c).trans (if_pos ((mem_firstReports reports _).2 old))

theorem firstReports_new {reports : List Check} {c : Check}
    (new : hashCheck c ∉ reports.map hashCheck) :
    firstReports (reports ++ [c]) = firstReports reports ++ [c] :=
  (firstReports_snoc reports c).trans (if_neg fun h => new ((mem_firstReports reports _).1 h))

/-- Reports with distinct hashes are all first reports. -/
theorem firstReports_of_nodup {reports : List Check} (distinct : (reports.map hashCheck).Nodup) :
    firstReports reports = reports := by
  induction reports using List.reverseRecOn with
  | nil => rfl
  | append_singleton reports c ih =>
      rw [List.map_append, List.map_singleton, List.nodup_append] at distinct
      have new : hashCheck c ∉ reports.map hashCheck := fun h =>
        distinct.2.2 _ h _ (List.mem_singleton_self _) rfl
      rw [firstReports_new new, ih distinct.1]

/-- Every check reported is sent or waiting, once and in order of first report, and
the table holds no other hash than those and the replayed ones. -/
structure Exact (s : State) : Prop where
  delivered : s.sent ++ s.unsent = firstReports s.reported
  recorded : ∀ k ∈ s.locationsChecked.keys,
    k ∈ s.replayed.map FlatHashSet.stored ∨
      k ∈ (s.sent ++ s.unsent).map fun c => FlatHashSet.stored (hashCheck c)

/-- Every queued hash is recorded, in any run. -/
def Sound (s : State) : Prop :=
  ∀ c ∈ s.sent ++ s.unsent, FlatHashSet.stored (hashCheck c) ∈ s.locationsChecked.keys

/-- The table takes the hash and the ring has room. -/
def Accepts (s : State) (c : Check) : Prop :=
  FlatHashSet.stored (hashCheck c) ∉ s.locationsChecked.keys ∧ s.locationsChecked.size < 4096 ∧
    s.outboundChecks.ring.HasRoom

/-- The check reported by an event, if it is one. -/
def reports (s : State) : Event → Option Check
  | .reportMoonChecked stageName objectId shineUid =>
      some (moonCheck stageName objectId shineUid s.nextCheckSeq)
  | .reportCaptureChecked hackName => some (captureCheck hackName)
  | _ => none

/-- A first report finds room in the table and in the ring. -/
def Good (s : State) (e : Event) : Prop :=
  ∀ c, reports s e = some c → s.syntheticGrantThisFrame = false →
    hashCheck c ∉ s.reported.map hashCheck → Accepts s c

/-! ## One step -/

theorem keys_tryInsert (t : FlatHashSet 4096) (h : UInt64) :
    (∀ k, k ∈ (FlatHashSet.tryInsert t h).2.keys ↔
      k ∈ t.keys ∨ (FlatHashSet.tryInsert t h).1 = true ∧ k = FlatHashSet.stored h) := by
  intro k
  cases accepted : (FlatHashSet.tryInsert t h).1 with
  | true =>
      have perm := ProbeTable.keys_tryInsert accepted
      change k ∈ (ProbeTable.tryInsert t _ _).2.keys ↔ _
      rw [perm.mem_iff, List.mem_cons]
      simp only [true_and]
      exact or_comm
  | false =>
      have same : (FlatHashSet.tryInsert t h).2 = t := ProbeTable.tryInsert_refused accepted
      rw [same]
      simp

theorem tryInsert_accepts (t : FlatHashSet 4096) (h : UInt64) :
    (FlatHashSet.tryInsert t h).1 = true ↔ FlatHashSet.stored h ∉ t.keys ∧ t.size < 4096 :=
  ProbeTable.tryInsert_fst t _ _

/-- The history of the channel after a report outside a synthetic grant. -/
theorem history_enqueueCheck (s : State) (c : Check) (live : s.syntheticGrantThisFrame = false) :
    (enqueueCheck c s).sent ++ (enqueueCheck c s).unsent = s.sent ++ s.unsent ++
      if (FlatHashSet.tryInsert s.locationsChecked (hashCheck c)).1 = true ∧
        s.outboundChecks.ring.HasRoom then [c] else [] := by
  change (enqueueCheck c s).outboundChecks.history = s.outboundChecks.history ++ _
  simp only [enqueueCheck, live, Bool.false_eq_true, if_false]
  cases (FlatHashSet.tryInsert s.locationsChecked (hashCheck c)).1 with
  | false => simp
  | true => simpa using Channel.history_offer s.outboundChecks c

/-- The rest of the state after a report outside a synthetic grant. -/
theorem enqueueCheck_frame (s : State) (c : Check) (live : s.syntheticGrantThisFrame = false) :
    (enqueueCheck c s).replayed = s.replayed ∧ (enqueueCheck c s).reported = s.reported ++ [c] ∧
      (enqueueCheck c s).locationsChecked =
        (FlatHashSet.tryInsert s.locationsChecked (hashCheck c)).2 := by
  simp only [enqueueCheck, live, Bool.false_eq_true, if_false, and_self]

/-- A report keeps exactness exactly when a first report is accepted. -/
theorem enqueueCheck_exact (s : State) (sound : Sound s) (exact : Exact s) (c : Check)
    (live : s.syntheticGrantThisFrame = false) :
    Exact (enqueueCheck c s) ↔ (hashCheck c ∉ s.reported.map hashCheck → Accepts s c) := by
  have history := history_enqueueCheck s c live
  obtain ⟨replayed, reported, table⟩ := enqueueCheck_frame s c live
  have keys := keys_tryInsert s.locationsChecked (hashCheck c)
  have accepts := tryInsert_accepts s.locationsChecked (hashCheck c)
  by_cases old : hashCheck c ∈ s.reported.map hashCheck
  · refine iff_of_true ?_ fun new => absurd old new
    -- the hash is queued, hence recorded, so the insertion is refused
    have queued : hashCheck c ∈ (s.sent ++ s.unsent).map hashCheck := by
      rw [exact.delivered, mem_firstReports]
      exact old
    obtain ⟨d, hd, same⟩ := List.mem_map.1 queued
    have refused : ¬ (FlatHashSet.tryInsert s.locationsChecked (hashCheck c)).1 = true := by
      rw [accepts, ← same]
      exact fun h => h.1 (sound d hd)
    simp only [refused, false_and, if_false, List.append_nil, Bool.false_eq_true] at history
    simp only [refused, false_and, or_false, Bool.false_eq_true] at keys
    constructor
    · rw [history, reported, firstReports_old old, exact.delivered]
    · rw [table, history, replayed]
      exact fun k hk => exact.recorded k ((keys k).1 hk)
  · have first := firstReports_new old
    constructor
    · intro exact' _
      have delivered := exact'.delivered
      rw [history, reported, first, exact.delivered] at delivered
      have pushed : (FlatHashSet.tryInsert s.locationsChecked (hashCheck c)).1 = true ∧
          s.outboundChecks.ring.HasRoom := by
        by_contra lost
        rw [if_neg lost, List.append_nil] at delivered
        simpa using congrArg List.length delivered
      exact ⟨(accepts.1 pushed.1).1, (accepts.1 pushed.1).2, pushed.2⟩
    · intro accepted
      obtain ⟨new, space, room⟩ := accepted old
      rw [if_pos ⟨accepts.2 ⟨new, space⟩, room⟩] at history
      constructor
      · rw [history, reported, first, exact.delivered]
      · intro k hk
        rw [table, keys] at hk
        rw [replayed, history, List.map_append, List.mem_append]
        rcases hk with before | ⟨-, rfl⟩
        · exact (exact.recorded k before).imp_right .inl
        · exact .inr (.inr (List.mem_singleton_self _))

theorem enqueueCheck_sound (s : State) (sound : Sound s) (c : Check)
    (live : s.syntheticGrantThisFrame = false) : Sound (enqueueCheck c s) := by
  have history := history_enqueueCheck s c live
  have keys := keys_tryInsert s.locationsChecked (hashCheck c)
  obtain ⟨-, -, table⟩ := enqueueCheck_frame s c live
  intro d hd
  rw [history, List.mem_append] at hd
  rw [table, keys]
  rcases hd with before | new
  · exact .inl (sound d before)
  · split_ifs at new with pushed
    · obtain rfl := List.mem_singleton.1 new
      exact .inr ⟨pushed.1, rfl⟩
    · cases new

/-- Replayed ids touch only the table, and only with their own hashes. -/
theorem replayIds_frame (ids : List ItemRef) (s : State) :
    (ids.foldl replayId s).outboundChecks = s.outboundChecks ∧
      (ids.foldl replayId s).reported = s.reported ∧
      (∀ k ∈ s.locationsChecked.keys, k ∈ (ids.foldl replayId s).locationsChecked.keys) ∧
      (∀ k ∈ (ids.foldl replayId s).locationsChecked.keys, k ∈ s.locationsChecked.keys ∨
        k ∈ (ids.foldl replayId s).replayed.map FlatHashSet.stored) ∧
      (∀ k ∈ s.replayed, k ∈ (ids.foldl replayId s).replayed) := by
  induction ids generalizing s with
  | nil => exact ⟨rfl, rfl, fun _ h => h, fun _ h => .inl h, fun _ h => h⟩
  | cons ref ids ih =>
      obtain ⟨channel, reported, kept, only, log⟩ := ih (replayId s ref)
      have keys := keys_tryInsert s.locationsChecked (hashCheck (replayCheck ref))
      refine ⟨channel, reported, fun k hk => kept k ((keys k).2 (.inl hk)), fun k hk => ?_,
        fun k hk => log k (List.mem_append_left _ hk)⟩
      rcases only k hk with before | replayed
      · rcases (keys k).1 before with old | ⟨-, rfl⟩
        · exact .inl old
        · exact .inr (List.mem_map_of_mem
            (log _ (List.mem_append_right _ (List.mem_singleton_self _))))
      · exact .inr replayed

theorem checkedReplay_keeps (ids : List ItemRef) (s : State) (sound : Sound s) :
    Sound (ids.foldl replayId s) ∧ (Exact s → Exact (ids.foldl replayId s)) := by
  obtain ⟨channel, reported, kept, only, log⟩ := replayIds_frame ids s
  have history : (ids.foldl replayId s).sent ++ (ids.foldl replayId s).unsent =
      s.sent ++ s.unsent := by
    rw [State.sent, State.unsent, channel, State.sent, State.unsent]
  refine ⟨?_, fun exact => ⟨?_, ?_⟩⟩
  · unfold Sound
    rw [history]
    exact fun c hc => kept _ (sound c hc)
  · rw [history, reported]
    exact exact.delivered
  · rw [history]
    intro k hk
    rcases only k hk with old | replayed
    · refine (exact.recorded k old).imp_left fun before => ?_
      obtain ⟨h, hh, rfl⟩ := List.mem_map.1 before
      exact List.mem_map_of_mem (log h hh)
    · exact .inl replayed

/-- A change of the channel that keeps its history keeps both invariants. -/
theorem channel_keeps (s : State) {channel : Channel Check 256}
    (same : channel.history = s.outboundChecks.history) (sound : Sound s) :
    Sound { s with outboundChecks := channel } ∧
      (Exact s → Exact { s with outboundChecks := channel }) := by
  have history : State.sent { s with outboundChecks := channel } ++
      State.unsent { s with outboundChecks := channel } = s.sent ++ s.unsent := same
  refine ⟨?_, fun exact => ⟨?_, ?_⟩⟩
  · unfold Sound
    rw [history]
    exact sound
  · rw [history]
    exact exact.delivered
  · rw [history]
    exact exact.recorded

/-- A step that reports nothing keeps both invariants. -/
theorem step_silent (s : State) (e : Event) (sound : Sound s) (silent : reports s e = none) :
    Sound (step s e) ∧ (Exact s → Exact (step s e)) := by
  cases e with
  | reportMoonChecked stageName objectId shineUid => cases silent
  | reportCaptureChecked hackName => cases silent
  | setSyntheticGrant on => exact ⟨sound, fun exact => ⟨exact.1, exact.2⟩⟩
  | connect =>
      simp only [step]
      split_ifs
      · exact ⟨sound, fun exact => ⟨exact.1, exact.2⟩⟩
      · exact ⟨sound, id⟩
  | disconnect =>
      simp only [step]
      split_ifs
      · exact ⟨sound, fun exact => ⟨exact.1, exact.2⟩⟩
      · exact ⟨sound, id⟩
  | checkedReplay ids =>
      simp only [step]
      split_ifs
      · exact checkedReplay_keeps ids s sound
      · exact ⟨sound, id⟩
  | send ok =>
      simp only [step]
      split_ifs
      · exact channel_keeps s (Channel.history_take _) sound
      · exact ⟨sound, id⟩
  | popDiscard => exact channel_keeps s (Channel.history_discard _) sound

/-- Taking a sequence number changes nothing the invariants speak of. -/
theorem bump_seq (s : State) (n : ℤ) :
    (Sound { s with nextCheckSeq := n } ↔ Sound s) ∧
      (Exact { s with nextCheckSeq := n } ↔ Exact s) :=
  ⟨Iff.rfl, ⟨fun h => ⟨h.1, h.2⟩, fun h => ⟨h.1, h.2⟩⟩⟩

/-- What an event that reports a check does. -/
theorem step_reports {s : State} {e : Event} {c : Check} (h : reports s e = some c) :
    ∃ n, step s e = enqueueCheck c { s with nextCheckSeq := n } := by
  cases e with
  | reportMoonChecked stageName objectId shineUid =>
      obtain rfl := Option.some.inj h
      exact ⟨s.nextCheckSeq + 1, rfl⟩
  | reportCaptureChecked hackName =>
      obtain rfl := Option.some.inj h
      exact ⟨s.nextCheckSeq, rfl⟩
  | _ => cases h

theorem enqueueCheck_synthetic (s : State) (c : Check) (on : s.syntheticGrantThisFrame = true) :
    enqueueCheck c s = s := by
  rw [enqueueCheck, if_pos on]

theorem step_sound (s : State) (e : Event) (sound : Sound s) : Sound (step s e) := by
  cases h : reports s e with
  | none => exact (step_silent s e sound h).1
  | some c =>
      obtain ⟨n, shape⟩ := step_reports h
      rw [shape]
      by_cases on : s.syntheticGrantThisFrame = true
      · rw [enqueueCheck_synthetic { s with nextCheckSeq := n } c on]
        exact (bump_seq s n).1.2 sound
      · exact enqueueCheck_sound _ ((bump_seq s n).1.2 sound) c (Bool.eq_false_iff.2 on)

/-- Each step keeps exactness exactly when a first report it makes is accepted. -/
theorem step_exact (s : State) (e : Event) (sound : Sound s) (exact : Exact s) :
    Exact (step s e) ↔ Good s e := by
  cases h : reports s e with
  | none =>
      refine iff_of_true ((step_silent s e sound h).2 exact) fun c hc => ?_
      rw [h] at hc
      cases hc
  | some c =>
      obtain ⟨n, shape⟩ := step_reports h
      rw [shape]
      have good_iff : Good s e ↔ (s.syntheticGrantThisFrame = false →
          hashCheck c ∉ s.reported.map hashCheck → Accepts s c) :=
        ⟨fun good => good c h, fun good d hd => by
          obtain rfl : c = d := Option.some.inj (h.symm.trans hd)
          exact good⟩
      rw [good_iff]
      by_cases on : s.syntheticGrantThisFrame = true
      · rw [enqueueCheck_synthetic { s with nextCheckSeq := n } c on]
        exact iff_of_true ((bump_seq s n).2.2 exact) fun off =>
          absurd (off.symm.trans on) Bool.false_ne_true
      · have off := Bool.eq_false_iff.2 on
        have one := enqueueCheck_exact { s with nextCheckSeq := n } ((bump_seq s n).1.2 sound)
          ((bump_seq s n).2.2 exact) c off
        exact one.trans ⟨fun h _ => h, fun h => h off⟩

/-! ## Runs -/

theorem start_history : start.sent ++ start.unsent = [] := Channel.history_empty 256 default

theorem start_sound : Sound start := by
  unfold Sound
  rw [start_history]
  exact fun c hc => absurd hc List.not_mem_nil

theorem start_exact : Exact start := by
  refine ⟨start_history, fun k hk => ?_⟩
  rw [start, ProbeTable.keys_reset] at hk
  cases hk

/-- Throughout a session no check is lost, repeated or reordered, exactly if every
first report finds its hash free, the table not full and the ring not full. -/
theorem outbound_exact_iff (events : List Event) :
    Throughout step Exact start events ↔ Along step Good start events :=
  throughout_iff_along (fun s e => step_sound s e) (fun s e sound => step_exact s e sound)
    start_sound start_exact events

/-- Reports of 256 moons of one stage while no Switch send gets through. -/
def offlineReports (n : ℕ) : List Event :=
  (List.range n).map fun uid => .reportMoonChecked [] [] uid

/-- The check of the `k`-th offline report. -/
def offlineCheck (k : ℕ) : Check := moonCheck [] [] k (1 + k)

theorem run_offlineReports (n : ℕ) :
    (run step start (offlineReports n)).reported = (List.range n).map offlineCheck ∧
      (run step start (offlineReports n)).sent = [] ∧
      (run step start (offlineReports n)).syntheticGrantThisFrame = false ∧
      (run step start (offlineReports n)).nextCheckSeq = 1 + n := by
  induction n with
  | zero => simp [offlineReports, start, State.sent, Channel.empty]
  | succ n ih =>
      obtain ⟨reported, sent, live, seq⟩ := ih
      have split : offlineReports (n + 1) =
          offlineReports n ++ [.reportMoonChecked [] [] (n : ℤ)] := by
        simp [offlineReports, List.range_succ]
      rw [split, run_append, run_cons, run_nil]
      generalize run step start (offlineReports n) = s at reported sent live seq ⊢
      have untouched (b : Bool) (c : Check) :
          (if b = true then s.outboundChecks.offer c else s.outboundChecks).consumed = [] := by
        split_ifs
        · exact sent
        · exact sent
      simp only [step, enqueueCheck, live, Bool.false_eq_true, if_false, reported, seq, State.sent,
        untouched, List.range_succ, List.map_append, List.map_singleton, offlineCheck, true_and]
      push_cast
      ring

/-- The offline checks have distinct hashes. -/
theorem offlineChecks_distinct (n : ℕ) (hn : n ≤ 2 ^ 32) :
    (((List.range n).map offlineCheck).map hashCheck).Nodup := by
  rw [List.map_map]
  refine List.Nodup.map_on ?_ List.nodup_range
  intro i hi j hj same
  have uids := hashCheck_uid (c := offlineCheck i) (d := offlineCheck j) rfl rfl same
  have hi := List.mem_range.1 hi
  have hj := List.mem_range.1 hj
  have values := congrArg UInt64.toNat uids
  simp only [offlineCheck, moonCheck, UInt64.ofInt, UInt64.toNat_ofNat'] at values
  omega

/-- After 256 distinct reports without a send, one check is gone for the session. -/
theorem offline_overflow_loses_check : ¬ Throughout step Exact start (offlineReports 256) := by
  intro throughout
  have exact := throughout_end throughout
  obtain ⟨reported, sent, -, -⟩ := run_offlineReports 256
  have delivered := congrArg List.length exact.delivered
  rw [reported, firstReports_of_nodup (offlineChecks_distinct 256 (by decide)), sent,
    List.nil_append, List.length_map, List.length_range, State.unsent] at delivered
  have bound := (run step start (offlineReports 256)).outboundChecks.length_waiting_lt
  omega

end SmoArchipelago.Switch.Outbound
