import SmoArchipelago.Bridge.Snapshot

/-! # Soundness of the snapshot gate

The gate decides with one resolution and the dispatch acts with another that may reload
the maps in between; held and buffered snapshots live on when the slot changes. Where
neither happens in a run, nothing reaches the server without the operator.

## Implementation notes

`Reloaded` is all that the steps under way can do to the maps. Every snapshot that went
on by itself stays covered by the ids that were credited when it was classified. -/

namespace SmoArchipelago.Bridge

open Library Runs

/-! ## The two resolutions -/

/-- The context after a forced reload. -/
def Context.reloaded (ctx : Context) (disk : Disk) : Context := (ctx.reloadMaps disk true).1

/-- What the tasks of one step may do to a context: reload the maps from the disk, and
report the goal. -/
structure Context.Reloaded (disk : Disk) (ctx ctx' : Context) : Prop where
  dp : ctx'.dp = ctx.dp
  maps : (ctx'.shineMap = ctx.shineMap ∧ ctx'.captureMap = ctx.captureMap) ∨
    (ctx'.shineMap = (ctx.reloaded disk).shineMap ∧
      ctx'.captureMap = (ctx.reloaded disk).captureMap)
  goal : ctx.goalReported = true → ctx'.goalReported = true

namespace Context

variable {disk : Disk} {ctx ctx' : Context}

/-- The gate's resolution reads the data package and the maps. -/
theorem resolve_congr (dp : ctx'.dp = ctx.dp) (shine : ctx'.shineMap = ctx.shineMap)
    (capture : ctx'.captureMap = ctx.captureMap) :
    ctx'.resolveEntryToLocId = ctx.resolveEntryToLocId := by
  funext c
  simp only [resolveEntryToLocId, resolveHack, dp, shine, capture]

theorem reloaded_dp (ctx : Context) (disk : Disk) : (ctx.reloaded disk).dp = ctx.dp :=
  reloadMaps_dp ctx disk true

/-- The maps of the reloaded context depend on the maps alone, and a second reload
changes nothing. -/
theorem Reloaded.again (h : Reloaded disk ctx ctx') :
    (ctx'.reloaded disk).resolveEntryToLocId = (ctx.reloaded disk).resolveEntryToLocId := by
  have due (c : Context) : c.reloadDue disk true = true := rfl
  apply resolve_congr
  · rw [reloaded_dp, reloaded_dp, h.dp]
  · simp only [reloaded, reloadMaps, due, if_true]
    rcases h.maps with ⟨same, -⟩ | ⟨again, -⟩
    · rw [same]
    · simp only [reloaded, reloadMaps, due, if_true] at again
      rw [again, reloadOne_again]
  · simp only [reloaded, reloadMaps, due, if_true]
    rcases h.maps with ⟨-, same⟩ | ⟨-, again⟩
    · rw [same]
    · simp only [reloaded, reloadMaps, due, if_true] at again
      rw [again, reloadOne_again]

theorem Reloaded.now (h : Reloaded disk ctx ctx') :
    ctx'.resolveEntryToLocId = ctx.resolveEntryToLocId ∨
      ctx'.resolveEntryToLocId = (ctx.reloaded disk).resolveEntryToLocId := by
  rcases h.maps with ⟨shine, capture⟩ | ⟨shine, capture⟩
  · exact .inl (resolve_congr h.dp shine capture)
  · exact .inr (resolve_congr (h.dp.trans (reloaded_dp ctx disk).symm) shine capture)

theorem Reloaded.refl (disk : Disk) (ctx : Context) : Reloaded disk ctx ctx :=
  ⟨rfl, .inl ⟨rfl, rfl⟩, id⟩

/-- The resolution of a check reloads the maps or leaves them. -/
theorem checkLocationName_context (ctx : Context) (disk : Disk) (c : Check) :
    (ctx.checkLocationName disk c).1 = ctx ∨
      (ctx.checkLocationName disk c).1 = ctx.reloaded disk := by
  rcases ctx.checkLocationName_cases disk c with
    ⟨res, -, -, found⟩ | ⟨-, reloaded, -⟩ | ⟨-, canonical⟩
  · exact .inl (congrArg Prod.fst found)
  · exact .inr reloaded
  · exact .inl (congrArg Prod.fst canonical)

theorem reloaded_goalReported (ctx : Context) (disk : Disk) :
    (ctx.reloaded disk).goalReported = ctx.goalReported := by
  obtain ⟨_, _, _, frame⟩ := ctx.reloadMaps_frame disk true
  rw [reloaded, frame]

theorem beginReport_reloaded (ctx : Context) (disk : Disk) (c : Check) :
    Reloaded disk ctx (ctx.beginReport disk c).1 := by
  obtain ⟨reported, frame⟩ := ctx.beginReport_context disk c
  rw [frame]
  rcases ctx.checkLocationName_context disk c with same | again
  · rw [same]
    exact ⟨rfl, .inl ⟨rfl, rfl⟩, id⟩
  · rw [again]
    refine ⟨reloaded_dp ctx disk, .inr ⟨rfl, rfl⟩, fun goal => ?_⟩
    exact (reloaded_goalReported ctx disk).trans goal

/-- The name of a check, resolved as the gate would with the maps after the report. -/
theorem checkLocationName_resolves {c : Check} (named : c.kind ≠ some "") {name : String}
    (h : (ctx.checkLocationName disk c).2 = some name) :
    (ctx.checkLocationName disk c).1.resolveEntryToLocId c = ctx.dp.locationNameToId name := by
  have kind : orText c.kind ItemKind.moon.value = c.kind.getD ItemKind.moon.value := by
    cases hkind : c.kind with
    | none => rfl
    | some kind =>
        have nonempty : kind ≠ "" := fun empty => named (hkind.trans (congrArg some empty))
        rw [orText, if_pos ((present_some kind).2 nonempty)]
        rfl
  rcases ctx.checkLocationName_cases disk c with
    ⟨res, raw, found, result⟩ | ⟨raw, reloaded, names⟩ | ⟨canonical, result⟩
  · rw [result] at h ⊢
    cases h
    simp only [resolveEntryToLocId, kind, if_pos raw, found]
  · rw [reloaded]
    obtain ⟨res, found, rfl⟩ := names name h
    simp only [resolveEntryToLocId, kind, if_pos raw, found, reloadMaps_dp]
  · rw [result] at h ⊢
    cases h
    simp only [resolveEntryToLocId, kind, if_neg canonical]

/-- A location that a report sends is the one the gate sees with the maps after the report. -/
theorem beginReport_resolves {c : Check} (named : c.kind ≠ some "") {name : String} {id : ℤ}
    (h : (ctx.beginReport disk c).2 = .sending name id) :
    (ctx.beginReport disk c).1.resolveEntryToLocId c = some id := by
  obtain ⟨found, known, -⟩ := beginReport_sending h
  obtain ⟨reported, frame⟩ := ctx.beginReport_context disk c
  rw [frame]
  exact (checkLocationName_resolves named found).trans known

end Context

/-! ## What is sound -/

/-- Every message of the snapshot came in for the slot: what came before the first connection
belongs to the slot that comes. -/
def Source.Of (source : Source) (slot : Option SlotId) : Prop :=
  ∀ c ∈ source.slots, c = none ∨ c = slot

instance (source : Source) (slot : Option SlotId) : Decidable (source.Of slot) :=
  inferInstanceAs (Decidable (∀ c ∈ source.slots, c = none ∨ c = slot))

/-- The snapshot was collected for the slot, and its goal flag, where it is set, is its own. -/
def Snapshot.CollectedFor (snap : Snapshot) (slot : Option SlotId) : Prop :=
  snap.source.Of slot ∧ (snap.goalReached = true → snap.source.flagged = true)

instance (snap : Snapshot) (slot : Option SlotId) : Decidable (snap.CollectedFor slot) :=
  inferInstanceAs (Decidable (_ ∧ _))

/-- A send that a snapshot causes is of an id that was credited when the snapshot went on by
itself, or of an entry that the operator confirmed for this slot. -/
def SentCheck.Sound (r : SentCheck) : Prop :=
  match r.origin with
  | .live => True
  | .auto snap already => r.id ∈ already ∧ snap.classified = r.slot
  | .confirmed snap =>
      r.check ∈ snap.checks ∧ snap.CollectedFor r.slot ∧ snap.classified = r.slot

/-- A goal that a snapshot's flag causes was confirmed for this slot, and a message of the
snapshot carried the flag. -/
def SentGoal.Sound (r : SentGoal) : Prop :=
  match r.origin with
  | .live => True
  | .auto _ _ => False
  | .confirmed snap =>
      snap.goalReached = true ∧ snap.source.flagged = true ∧ snap.CollectedFor r.slot ∧
        snap.classified = r.slot

/-- The gate sees no ids but these in the checks. -/
def Context.Covers (ctx : Context) (checks : List Check) (ids : Finset ℤ) : Prop :=
  ∀ id ∈ ctx.gateIds checks, id ∈ ids

instance (ctx : Context) (checks : List Check) (ids : Finset ℤ) :
    Decidable (ctx.Covers checks ids) :=
  inferInstanceAs (Decidable (∀ id ∈ ctx.gateIds checks, id ∈ ids))

namespace Dispatch

/-- The checks still to come of a snapshot that went on by itself are credited ones. -/
def Credited (d : Dispatch) (ctx : Context) : Prop :=
  match d.origin with
  | .auto _ already => ctx.Covers d.rest already
  | _ => True

instance (d : Dispatch) (ctx : Context) : Decidable (d.Credited ctx) := by
  unfold Credited
  cases d.origin <;> infer_instance

/-- A dispatch that may go on in this slot. -/
def Sound (d : Dispatch) (slot : Option SlotId) (ctx : Context) : Prop :=
  match d.origin with
  | .live => d.goalReached = false
  | .auto snap _ =>
      snap.classified = slot ∧ (∀ c ∈ d.rest, c ∈ snap.checks) ∧
        (d.goalReached = true → ctx.goalReported = true)
  | .confirmed snap =>
      snap.classified = slot ∧ snap.CollectedFor slot ∧ (∀ c ∈ d.rest, c ∈ snap.checks) ∧
        (d.goalReached = true → snap.goalReached = true)

end Dispatch

namespace Gate

def dispatches (s : Gate) : List Dispatch :=
  s.suspended.filterMap fun | .dispatch d => some d | .connected _ => none

/-- What holds between the steps of a run in which every step is good. -/
structure Sound (s : Gate) : Prop where
  sentChecks : ∀ r ∈ s.sentChecks, r.Sound
  sentGoals : ∀ r ∈ s.sentGoals, r.Sound
  held : ∀ snap ∈ s.heldSnapshot, snap.CollectedFor s.slot ∧ snap.classified = s.slot
  pending : ∀ snap ∈ s.pendingSnapshot, snap.CollectedFor s.slot
  tasks : ∀ d ∈ s.dispatches, d.Sound s.slot s.ctx
  credited : ∀ d ∈ s.dispatches, d.Credited s.ctx

/-- Reading the map files now brings out no new location in a snapshot that is under way. -/
def ReloadHarmless (disk : Disk) (s : Gate) : Prop :=
  ∀ d ∈ s.dispatches, d.Credited (s.ctx.reloaded disk)

instance (disk : Disk) (s : Gate) : Decidable (ReloadHarmless disk s) :=
  inferInstanceAs (Decidable (∀ d ∈ s.dispatches, d.Credited (s.ctx.reloaded disk)))

/-- Nor in one that goes on by itself now. -/
def GateSafe (disk : Disk) (ctx : Context) (snap : Snapshot) : Prop :=
  (ctx.classifySnapshot snap.checks snap.goalReached).1 = true →
    (ctx.reloaded disk).Covers snap.checks ctx.alreadyCheckedLocIds

instance (disk : Disk) (ctx : Context) (snap : Snapshot) : Decidable (GateSafe disk ctx snap) :=
  inferInstanceAs (Decidable (_ → _))

/-- Nothing of a snapshot is held, under way or buffered for another slot. -/
structure NoSnapshot (s : Gate) : Prop where
  held : s.heldSnapshot = none
  tasks : ∀ d ∈ s.dispatches, d.origin.Live
  pending : ∀ snap ∈ s.pendingSnapshot, snap.source.Of none

/-- The resumed task gates the buffered snapshot in this step. -/
def Drains (s : Gate) : GateTask → Prop
  | .connected t => t.waits = .apState ∧ s.pendingLiveChecks = []
  | .dispatch d => d.waits = .reconcileCappy

/-- New names bring out no new location in a snapshot that is under way. -/
def NamesHarmless (dp : DataPackage) (s : Gate) : Prop :=
  ∀ d ∈ s.dispatches, d.Credited { s.ctx with dp }

instance (dp : DataPackage) (s : Gate) : Decidable (NamesHarmless dp s) :=
  inferInstanceAs (Decidable (∀ d ∈ s.dispatches, d.Credited { s.ctx with dp }))

/-- A snapshot comes in for one slot and with a goal flag of its own, the slot changes only
where no snapshot is left of the old one, neither a reload nor new names bring out a new
location, and the goal is not forgotten under a snapshot that carries it. -/
def Good (s : Gate) : Event → Prop
  | .stateEnd disk =>
      (s.source.Of s.slot ∧ (s.collecting.goal = true → s.source.flagged = true)) ∧
        ReloadHarmless disk s ∧ (s.mirror.state.apConn = "ready" → GateSafe disk s.ctx
          ⟨s.collecting.entries, s.collecting.goal, s.source.add s.slot, none⟩)
  | .check disk _ | .confirm disk => ReloadHarmless disk s
  | .connected seed server _ => s.slot = some ⟨server.slotName, seed⟩ ∨ s.NoSnapshot
  | .dataPackage itemMap locMap => NamesHarmless (s.ctx.dp.updateFromAp itemMap locMap) s
  | .start disk known =>
      NamesHarmless (s.ctx.dp.populateFromSelf known) s ∧
        ReloadHarmless disk { s with ctx := s.ctx.populated known } ∧
          (SlotChanged s.mirror.state.slot (s.ctx.auth.getD "") →
            ∀ d ∈ s.dispatches, d.goalReached = false)
  | .resume k disk =>
      ReloadHarmless disk s ∧ ∀ t ∈ s.suspended[k]?, s.Drains t →
        ∀ snap ∈ s.pendingSnapshot, GateSafe disk s.ctx snap
  | _ => True

instance : ∀ r : SentCheck, Decidable r.Sound
  | ⟨_, _, .live, _⟩ => isTrue trivial
  | ⟨_, _, .auto _ _, _⟩ => inferInstanceAs (Decidable (_ ∧ _))
  | ⟨_, c, .confirmed snap, slot⟩ =>
      inferInstanceAs (Decidable (c ∈ snap.checks ∧ snap.CollectedFor slot ∧
        snap.classified = slot))

instance (s : Gate) : Decidable s.NoSnapshot :=
  decidable_of_iff (_ ∧ _ ∧ _) ⟨fun h => ⟨h.1, h.2.1, h.2.2⟩, fun h => ⟨h.held, h.tasks, h.pending⟩⟩

instance (s : Gate) : ∀ t, Decidable (s.Drains t)
  | .connected t => inferInstanceAs (Decidable (t.waits = .apState ∧ s.pendingLiveChecks = []))
  | .dispatch d => inferInstanceAs (Decidable (d.waits = .reconcileCappy))

instance (s : Gate) : ∀ e, Decidable (s.Good e)
  | .stateEnd _ | .start _ _ | .resume _ _ => inferInstanceAs (Decidable (_ ∧ _))
  | .dataPackage _ _ => inferInstanceAs (Decidable (NamesHarmless _ s))
  | .check disk _ | .confirm disk => inferInstanceAs (Decidable (ReloadHarmless disk s))
  | .connected _ _ _ => inferInstanceAs (Decidable (_ ∨ _))
  | .stateBegin | .stateChunk _ _ | .stateMeta _ _ | .goal | .reject | .disconnect
  | .roomUpdate _ => isTrue trivial

/-! ## One step -/

/-- The gate is sound and stays so when the step reads the map files. -/
structure Ready (disk : Disk) (s : Gate) : Prop where
  sound : s.Sound
  harmless : ReloadHarmless disk s

/-- A dispatch that a step with this disk may take up. -/
structure MayRun (disk : Disk) (s : Gate) (d : Dispatch) : Prop where
  sound : d.Sound s.slot s.ctx
  credited : d.Credited s.ctx
  harmless : d.Credited (s.ctx.reloaded disk)

variable {disk : Disk} {s : Gate} {d : Dispatch}

/-- What is credited depends on the gate's resolution alone. -/
theorem credited_congr {ctx ctx' : Context}
    (same : ctx'.resolveEntryToLocId = ctx.resolveEntryToLocId) (now : d.Credited ctx) :
    d.Credited ctx' := by
  obtain ⟨origin, rest, goalReached, draining, waits⟩ := d
  cases origin with
  | live => trivial
  | confirmed snap => trivial
  | auto snap already =>
      simp only [Dispatch.Credited, Context.Covers, Context.gateIds, same] at now ⊢
      exact now

theorem credited_reloaded {ctx ctx' : Context} (h : Context.Reloaded disk ctx ctx')
    (now : d.Credited ctx) (again : d.Credited (ctx.reloaded disk)) :
    d.Credited ctx' ∧ d.Credited (ctx'.reloaded disk) := by
  constructor
  · rcases h.now with same | reloaded
    · exact credited_congr same now
    · exact credited_congr reloaded again
  · exact credited_congr h.again again

theorem sound_reloaded {ctx ctx' : Context} (h : Context.Reloaded disk ctx ctx')
    {slot : Option SlotId} (sound : d.Sound slot ctx) : d.Sound slot ctx' := by
  obtain ⟨origin, rest, goalReached, draining, waits⟩ := d
  cases origin with
  | live => exact sound
  | confirmed snap => exact sound
  | auto snap already => exact ⟨sound.1, sound.2.1, fun goal => h.goal (sound.2.2 goal)⟩

/-- A task of the step changes the context. -/
theorem Ready.withContext (h : Ready disk s) {ctx' : Context}
    (reloaded : Context.Reloaded disk s.ctx ctx') : Ready disk { s with ctx := ctx' } := by
  have kept (d : Dispatch) (member : d ∈ s.dispatches) :=
    credited_reloaded reloaded (h.sound.credited d member) (h.harmless d member)
  refine ⟨⟨h.sound.sentChecks, h.sound.sentGoals, h.sound.held, h.sound.pending, ?_, ?_⟩, ?_⟩
  · exact fun d member => sound_reloaded reloaded (h.sound.tasks d member)
  · exact fun d member => (kept d member).1
  · exact fun d member => (kept d member).2

theorem MayRun.withContext (h : MayRun disk s d) {ctx' : Context}
    (reloaded : Context.Reloaded disk s.ctx ctx') : MayRun disk { s with ctx := ctx' } d := by
  have kept := credited_reloaded reloaded h.credited h.harmless
  exact ⟨sound_reloaded reloaded h.sound, kept.1, kept.2⟩

theorem dispatches_suspend (d : Dispatch) (s : Gate) :
    (s.suspend d).dispatches = s.dispatches ++ [d] := by
  simp [dispatches, suspend]

theorem Ready.suspend (h : Ready disk s) (run : MayRun disk s d) : Ready disk (s.suspend d) := by
  refine ⟨⟨h.sound.sentChecks, h.sound.sentGoals, h.sound.held, h.sound.pending, ?_, ?_⟩, ?_⟩
  all_goals
    intro d' member
    rw [dispatches_suspend, List.mem_append, List.mem_singleton] at member
    rcases member with old | rfl
  · exact h.sound.tasks d' old
  · exact run.sound
  · exact h.sound.credited d' old
  · exact run.credited
  · exact h.harmless d' old
  · exact run.harmless

/-- The kind of an entry is never empty. -/
theorem kind_ne {snap : Snapshot} {c : Check} (member : c ∈ snap.checks) : c.kind ≠ some "" := by
  obtain ⟨entry, -, rfl⟩ := List.mem_map.1 member
  cases entry with
  | moon => exact fun empty => absurd (Option.some.inj empty) (by decide)
  | capture => exact fun empty => absurd (Option.some.inj empty) (by decide)

theorem covers_nil (ctx : Context) (ids : Finset ℤ) : ctx.Covers [] ids :=
  fun _ member => absurd member List.not_mem_nil

theorem covers_tail {ctx : Context} {c : Check} {rest : List Check} {ids : Finset ℤ}
    (h : ctx.Covers (c :: rest) ids) : ctx.Covers rest ids := by
  intro id member
  refine h id (List.Sublist.subset ?_ member)
  exact ((List.sublist_cons_self c rest).filter _).filterMap _

theorem covers_head {ctx : Context} {c : Check} {rest : List Check} {ids : Finset ℤ}
    (h : ctx.Covers (c :: rest) ids) (kept : ¬ DroppedFromSnapshot c) {id : ℤ}
    (found : ctx.resolveEntryToLocId c = some id) : id ∈ ids := by
  apply h
  refine List.mem_filterMap.2 ⟨c, List.mem_filter.2 ⟨List.mem_cons_self, ?_⟩, found⟩
  exact decide_eq_true kept

theorem MayRun.tail {c : Check} {rest : List Check}
    (run : MayRun disk s { d with rest := c :: rest }) : MayRun disk s { d with rest } := by
  obtain ⟨origin, _, goalReached, draining, waits⟩ := d
  obtain ⟨sound, credited, harmless⟩ := run
  cases origin with
  | live => exact ⟨sound, trivial, trivial⟩
  | auto snap already =>
      refine ⟨⟨sound.1, ?_, sound.2.2⟩, covers_tail credited, covers_tail harmless⟩
      exact fun c' member => sound.2.1 c' (List.mem_cons_of_mem c member)
  | confirmed snap =>
      refine ⟨⟨sound.1, sound.2.1, ?_, sound.2.2.2⟩, trivial, trivial⟩
      exact fun c' member => sound.2.2.1 c' (List.mem_cons_of_mem c member)

/-- A check of a dispatch that may run is sent for a sound reason. -/
theorem sent_sound {c : Check} {rest : List Check}
    (run : MayRun disk s { d with rest := c :: rest })
    (kept : ¬ d.origin.Live → ¬ DroppedFromSnapshot c) {id : ℤ}
    (found : c.kind ≠ some "" → s.ctx.resolveEntryToLocId c = some id) :
    (SentCheck.mk id c d.origin s.slot).Sound := by
  obtain ⟨origin, _, goalReached, draining, waits⟩ := d
  obtain ⟨sound, credited, -⟩ := run
  cases origin with
  | live => trivial
  | auto snap already =>
      have named := kind_ne (sound.2.1 c List.mem_cons_self)
      exact ⟨covers_head credited (kept fun live => live) (found named), sound.1⟩
  | confirmed snap => exact ⟨sound.2.2.1 c List.mem_cons_self, sound.2.1, sound.1⟩

theorem beginCheck_ready (h : Ready disk s) {c : Check} {rest : List Check}
    (run : MayRun disk s { d with rest := c :: rest })
    (kept : ¬ d.origin.Live → ¬ DroppedFromSnapshot c) :
    Ready disk (s.beginCheck disk d.origin c).1 ∧
      MayRun disk (s.beginCheck disk d.origin c).1 { d with rest } := by
  have reloaded := s.ctx.beginReport_reloaded disk c
  have ready := h.withContext reloaded
  have runs := run.withContext reloaded
  unfold beginCheck
  dsimp only
  split
  · exact ⟨ready, runs.tail⟩
  · exact ⟨ready, runs.tail⟩
  · next name id sending =>
      have sound := sent_sound runs kept fun named => Context.beginReport_resolves named sending
      refine ⟨⟨⟨?_, ready.sound.sentGoals, ready.sound.held, ready.sound.pending,
        ready.sound.tasks, ready.sound.credited⟩, ready.harmless⟩, ?_⟩
      · intro r member
        rcases List.mem_append.1 member with old | new
        · exact ready.sound.sentChecks r old
        · rw [List.mem_singleton.1 new]
          exact sound
      · exact ⟨runs.tail.sound, runs.tail.credited, runs.tail.harmless⟩

theorem dispatchEntries_ready (checks : List Check) (h : Ready disk s)
    (run : MayRun disk s { d with rest := checks }) :
    Ready disk (s.dispatchEntries disk d checks).1 ∧
      ((s.dispatchEntries disk d checks).2 = true →
        MayRun disk (s.dispatchEntries disk d checks).1 { d with rest := [] }) := by
  induction checks generalizing s with
  | nil => exact ⟨h, fun _ => run⟩
  | cons c rest ih =>
      unfold dispatchEntries
      split_ifs with dropped
      · exact ih h run.tail
      · obtain ⟨ready, runs⟩ := beginCheck_ready h run fun _ => dropped
        split
        · next s' begun =>
            rw [begun] at ready runs
            exact ih ready runs
        · next s' waits begun =>
            rw [begun] at ready runs
            refine ⟨ready.suspend ⟨runs.sound, runs.credited, runs.harmless⟩, ?_⟩
            exact fun ended => Bool.noConfusion ended

theorem reportGoal_reloaded (ctx : Context) (disk : Disk) :
    Context.Reloaded disk ctx ctx.reportGoal.1 := by
  unfold Context.reportGoal
  split_ifs
  · exact Context.Reloaded.refl disk ctx
  · exact ⟨rfl, .inl ⟨rfl, rfl⟩, fun _ => rfl⟩

/-- A goal is reported where the flag allows it; nothing else changes. -/
theorem reportGoal_ready {origin : Origin} (h : Ready disk s)
    (sound : s.ctx.goalReported = false → (SentGoal.mk origin s.slot).Sound) :
    Ready disk (s.reportGoal origin).1 := by
  unfold reportGoal
  dsimp only
  split_ifs with sends
  · have ready := h.withContext (reportGoal_reloaded s.ctx disk)
    have open_goal : s.ctx.goalReported = false := by
      by_contra reported
      rw [Context.reportGoal, if_pos (by simpa using reported)] at sends
      cases sends
    refine ⟨⟨ready.sound.sentChecks, ?_, ready.sound.held, ready.sound.pending,
      ready.sound.tasks, ready.sound.credited⟩, ready.harmless⟩
    intro r member
    rcases List.mem_append.1 member with old | new
    · exact ready.sound.sentGoals r old
    · rw [List.mem_singleton.1 new]
      exact sound open_goal
  · exact h

theorem reportGoal_slot (origin : Origin) (s : Gate) : (s.reportGoal origin).1.slot = s.slot := by
  unfold reportGoal
  dsimp only
  split_ifs <;> rfl

/-- A dispatch past its last entry, with its flag taken down, has nothing left to go wrong. -/
theorem MayRun.ended {slot : Option SlotId} {ctx : Context} (run : d.Sound slot ctx)
    (same : s.slot = slot) (waits : DispatchAwait) :
    MayRun disk s { d with rest := [], goalReached := false, waits } := by
  obtain ⟨origin, rest, goalReached, draining, _⟩ := d
  have no_entry {checks : List Check} : ∀ c ∈ ([] : List Check), c ∈ checks :=
    fun c member => absurd member List.not_mem_nil
  cases origin with
  | live => exact ⟨rfl, trivial, trivial⟩
  | auto snap already =>
      refine ⟨⟨run.1.trans same.symm, no_entry, ?_⟩, covers_nil s.ctx already, covers_nil _ already⟩
      exact fun raised => Bool.noConfusion raised
  | confirmed snap =>
      refine ⟨⟨run.1.trans same.symm, ?_, no_entry, ?_⟩, trivial, trivial⟩
      · rw [same]
        exact run.2.1
      · exact fun raised => Bool.noConfusion raised

theorem goal_sound (run : d.Sound s.slot s.ctx) (flag : d.goalReached = true)
    (unreported : s.ctx.goalReported = false) : (SentGoal.mk d.origin s.slot).Sound := by
  obtain ⟨origin, rest, goalReached, draining, waits⟩ := d
  cases origin with
  | live => trivial
  | auto snap already =>
      have reported := run.2.2 flag
      rw [unreported] at reported
      cases reported
  | confirmed snap =>
      have raised := run.2.2.2 flag
      exact ⟨raised, run.2.1.2 raised, run.2.1, run.1⟩

theorem runDispatch_ready (h : Ready disk s) (run : MayRun disk s d) :
    Ready disk (s.runDispatch disk d) := by
  obtain ⟨ready, ended⟩ := dispatchEntries_ready d.rest h ⟨run.sound, run.credited, run.harmless⟩
  unfold runDispatch
  split
  · next s' dispatched =>
      rw [dispatched] at ready
      exact ready
  · next s' dispatched =>
      rw [dispatched] at ready ended
      have runs := ended rfl
      split_ifs with flag draining
      · have sound := goal_sound runs.sound flag
        have after : Ready disk (s'.reportGoal d.origin).1 := reportGoal_ready ready sound
        dsimp only
        split_ifs
        · exact after.suspend (MayRun.ended runs.sound (reportGoal_slot d.origin s') _)
        · exact after
      · exact ready.suspend ⟨runs.sound, runs.credited, runs.harmless⟩
      · exact ready

/-! ## The gate -/

/-- What goes on by itself is credited already, and so is its goal. -/
theorem classify_auto {ctx : Context} {checks : List Check} {goalReached : Bool}
    (auto : (ctx.classifySnapshot checks goalReached).1 = true) :
    ctx.Covers checks ctx.alreadyCheckedLocIds ∧ (goalReached = true → ctx.goalReported = true) := by
  simp only [Context.classifySnapshot, Bool.and_eq_true, decide_eq_true_eq, List.countP_eq_zero,
    Decidable.not_not] at auto
  refine ⟨auto.1, fun goal => ?_⟩
  simpa [goal] using auto.2

theorem gateSnapshot_ready {snap : Snapshot} (h : Ready disk s) (collected : snap.CollectedFor s.slot)
    (safe : GateSafe disk s.ctx snap) : Ready disk (s.gateSnapshot disk snap) := by
  unfold gateSnapshot
  dsimp only
  split_ifs with auto
  · obtain ⟨covered, reported⟩ := classify_auto auto
    apply runDispatch_ready
    · exact ⟨⟨h.sound.sentChecks, h.sound.sentGoals, nofun, h.sound.pending, h.sound.tasks,
        h.sound.credited⟩, h.harmless⟩
    · exact ⟨⟨rfl, fun _ member => member, reported⟩, covered, safe auto⟩
  · refine ⟨⟨h.sound.sentChecks, h.sound.sentGoals, ?_, h.sound.pending, h.sound.tasks,
      h.sound.credited⟩, h.harmless⟩
    rintro held ⟨⟩
    exact ⟨collected, rfl⟩

theorem drainSnapshot_ready (h : Ready disk s)
    (safe : ∀ snap ∈ s.pendingSnapshot, GateSafe disk s.ctx snap) :
    Ready disk (s.drainSnapshot disk) := by
  unfold drainSnapshot
  split
  · exact h
  · next snap pending =>
      apply gateSnapshot_ready
      · exact ⟨⟨h.sound.sentChecks, h.sound.sentGoals, h.sound.held, nofun, h.sound.tasks,
          h.sound.credited⟩, h.harmless⟩
      · exact h.sound.pending snap pending
      · exact safe snap pending

theorem drain_ready (h : Ready disk s)
    (safe : s.pendingLiveChecks = [] → ∀ snap ∈ s.pendingSnapshot, GateSafe disk s.ctx snap) :
    Ready disk (s.drain disk) := by
  unfold drain
  split_ifs with none_live
  · exact drainSnapshot_ready h (safe none_live)
  · apply runDispatch_ready
    · exact ⟨⟨h.sound.sentChecks, h.sound.sentGoals, h.sound.held, h.sound.pending, h.sound.tasks,
        h.sound.credited⟩, h.harmless⟩
    · exact ⟨rfl, trivial, trivial⟩

/-- A snapshot whose messages came in for the slot ends as one of that slot. -/
theorem Source.Of.add {source : Source} {slot : Option SlotId} (h : source.Of slot) :
    (source.add slot).Of slot := by
  intro c member
  rcases Finset.mem_insert.1 member with rfl | earlier
  · exact .inr rfl
  · exact h c earlier

theorem onStateEnd_ready (h : Ready disk s) (own : s.source.Of s.slot)
    (flag : s.collecting.goal = true → s.source.flagged = true)
    (safe : s.mirror.state.apConn = "ready" → GateSafe disk s.ctx
      ⟨s.collecting.entries, s.collecting.goal, s.source.add s.slot, none⟩) :
    Ready disk (s.onStateEnd disk) := by
  have collected (classified : Option SlotId) : Snapshot.CollectedFor
      ⟨s.collecting.entries, s.collecting.goal, s.source.add s.slot, classified⟩ s.slot :=
    ⟨Source.Of.add own, flag⟩
  unfold onStateEnd
  dsimp only
  split_ifs with ready
  · apply gateSnapshot_ready
    · exact ⟨⟨h.sound.sentChecks, h.sound.sentGoals, h.sound.held, h.sound.pending, h.sound.tasks,
        h.sound.credited⟩, h.harmless⟩
    · exact collected none
    · exact safe ready
  · refine ⟨⟨h.sound.sentChecks, h.sound.sentGoals, h.sound.held, ?_, h.sound.tasks,
      h.sound.credited⟩, h.harmless⟩
    rintro snap ⟨⟩
    exact collected none

theorem confirm_ready (h : Ready disk s) : Ready disk (s.confirmPendingSnapshot disk) := by
  unfold confirmPendingSnapshot
  split
  · exact h
  · next snap held =>
      obtain ⟨collected, classified⟩ := h.sound.held snap held
      apply runDispatch_ready
      · exact ⟨⟨h.sound.sentChecks, h.sound.sentGoals, nofun, h.sound.pending, h.sound.tasks,
          h.sound.credited⟩, h.harmless⟩
      · exact ⟨⟨classified, collected, fun _ member => member, id⟩, trivial, trivial⟩

theorem liveCheck_ready (h : Ready disk s) (c : Check) : Ready disk (s.liveCheck disk c) := by
  unfold liveCheck
  split_ifs
  · have run : MayRun disk s { origin := .live, rest := [c], waits := .label } :=
      ⟨rfl, trivial, trivial⟩
    obtain ⟨ready, -⟩ := beginCheck_ready (d := { origin := .live, rest := [c], waits := .label })
      h run fun dead => absurd trivial dead
    split
    · next s' begun =>
        rw [begun] at ready
        exact ready
    · next s' waits begun =>
        rw [begun] at ready
        exact ready.suspend ⟨rfl, trivial, trivial⟩
  · exact ⟨⟨h.sound.sentChecks, h.sound.sentGoals, h.sound.held, h.sound.pending, h.sound.tasks,
      h.sound.credited⟩, h.harmless⟩

theorem finishReport_reloaded (ctx : Context) (disk : Disk) (name : String) (id : ℤ) :
    Context.Reloaded disk ctx (ctx.finishReport name id).1 := by
  unfold Context.finishReport Context.reportGoal
  dsimp only
  split_ifs
  · exact ⟨rfl, .inl ⟨rfl, rfl⟩, fun goal => goal⟩
  · exact ⟨rfl, .inl ⟨rfl, rfl⟩, fun _ => rfl⟩
  · exact ⟨rfl, .inl ⟨rfl, rfl⟩, fun goal => goal⟩

theorem resumeDispatch_ready (h : Ready disk s) (run : MayRun disk s d)
    (safe : d.waits = .reconcileCappy → ∀ snap ∈ s.pendingSnapshot, GateSafe disk s.ctx snap) :
    Ready disk (s.resumeDispatch disk d) := by
  unfold resumeDispatch
  split
  · next name id label waits =>
      have reloaded := finishReport_reloaded s.ctx disk name id
      have ready := h.withContext reloaded
      have runs := run.withContext reloaded
      dsimp only
      split_ifs
      · exact ready.suspend ⟨runs.sound, runs.credited, runs.harmless⟩
      · exact ready.suspend ⟨runs.sound, runs.credited, runs.harmless⟩
      · exact runDispatch_ready ready runs
  · split_ifs
    · exact h.suspend ⟨run.sound, run.credited, run.harmless⟩
    · exact runDispatch_ready h run
  · exact runDispatch_ready h run
  · next waits => exact drainSnapshot_ready h (safe waits)

/-- The Connected handler's segments before the drain touch nothing the gate reads. -/
theorem resumeConnected_ready (h : Ready disk s) {t : ConnectedTask}
    (safe : t.waits = .apState → s.pendingLiveChecks = [] →
      ∀ snap ∈ s.pendingSnapshot, GateSafe disk s.ctx snap) :
    Ready disk (s.resumeConnected disk t) := by
  have touched : Context.Reloaded disk s.ctx (Bridge.resumeConnected s.ctx t).1 := by
    unfold Bridge.resumeConnected
    split <;> exact ⟨rfl, .inl ⟨rfl, rfl⟩, id⟩
  have ready := h.withContext touched
  unfold resumeConnected
  split
  · next waits => exact drain_ready h (safe waits)
  · have same : dispatches { s with
        ctx := (Bridge.resumeConnected s.ctx t).1
        suspended := s.suspended ++
          (Bridge.resumeConnected s.ctx t).2.toList.map .connected } = s.dispatches := by
      cases (Bridge.resumeConnected s.ctx t).2 <;> simp [dispatches]
    refine ⟨⟨h.sound.sentChecks, h.sound.sentGoals, h.sound.held, h.sound.pending, ?_, ?_⟩, ?_⟩
    · rw [same]
      exact ready.sound.tasks
    · rw [same]
      exact ready.sound.credited
    · rw [ReloadHarmless, same]
      exact ready.harmless

/-- A task taken out leaves the others, and it may run. -/
theorem Ready.erase (h : Ready disk s) (k : ℕ) :
    Ready disk { s with suspended := s.suspended.eraseIdx k } := by
  have fewer : ∀ d, d ∈ dispatches { s with suspended := s.suspended.eraseIdx k } →
      d ∈ s.dispatches :=
    fun d member => ((List.eraseIdx_sublist s.suspended k).filterMap _).subset member
  exact ⟨⟨h.sound.sentChecks, h.sound.sentGoals, h.sound.held, h.sound.pending,
    fun d member => h.sound.tasks d (fewer d member),
    fun d member => h.sound.credited d (fewer d member)⟩,
    fun d member => h.harmless d (fewer d member)⟩

theorem mem_dispatches {k : ℕ} (hk : s.suspended[k]? = some (.dispatch d)) : d ∈ s.dispatches :=
  List.mem_filterMap.2 ⟨.dispatch d, List.mem_of_getElem? hk, rfl⟩

/-- The Connected handler's start reloads the maps if the wizard ran, and a change of the slot
name takes back that the goal was reported. -/
theorem startConnected_context (disk : Disk) (sd : SlotData) (ctx : Context) (m : Mirror) :
    (startConnected disk sd ctx m).1.dp = ctx.dp ∧
      (((startConnected disk sd ctx m).1.shineMap = ctx.shineMap ∧
          (startConnected disk sd ctx m).1.captureMap = ctx.captureMap) ∨
        ((startConnected disk sd ctx m).1.shineMap = (ctx.reloaded disk).shineMap ∧
          (startConnected disk sd ctx m).1.captureMap = (ctx.reloaded disk).captureMap)) ∧
      (¬ SlotChanged m.state.slot (ctx.auth.getD "") →
        (startConnected disk sd ctx m).1.goalReported = ctx.goalReported) := by
  have maps : (startConnected disk sd ctx m).1.shineMap = (ctx.reloadMaps disk false).1.shineMap ∧
      (startConnected disk sd ctx m).1.captureMap = (ctx.reloadMaps disk false).1.captureMap := by
    simp only [startConnected, enterSlot]
    split_ifs <;> exact ⟨rfl, rfl⟩
  refine ⟨startConnected_dp disk sd ctx m, ?_, ?_⟩
  · rw [maps.1, maps.2]
    by_cases due : ctx.reloadDue disk false = true
    · refine .inr ⟨?_, ?_⟩ <;> rw [Context.reloadMaps, if_pos due] <;> rfl
    · refine .inl ⟨?_, ?_⟩ <;> rw [Context.reloadMaps, if_neg due]
  · intro same
    obtain ⟨_, _, _, frame⟩ := ctx.reloadMaps_frame disk false
    simp only [startConnected, frame, enterSlot]
    split_ifs
    rfl

/-- New names that bring out no new location leave the gate sound. -/
theorem names_sound (h : s.Sound) {dp : DataPackage} (harmless : NamesHarmless dp s) :
    Sound { s with ctx := { s.ctx with dp } } :=
  ⟨h.sentChecks, h.sentGoals, h.held, h.pending, h.tasks, harmless⟩

theorem start_sound {known : KnownGames} (h : Ready disk { s with ctx := s.ctx.populated known })
    {sd : SlotData} {rest : List SlotData}
    (latch : SlotChanged s.mirror.state.slot (s.ctx.auth.getD "") →
      ∀ d ∈ s.dispatches, d.goalReached = false)
    (hready : s.ready = sd :: rest) : (s.step (.start disk known)).Sound := by
  obtain ⟨dp, maps, goal⟩ := startConnected_context disk sd (s.ctx.populated known) s.mirror
  have same : (s.step (.start disk known)).dispatches = s.dispatches := by
    simp [step, hready, dispatches]
  have context : (s.step (.start disk known)).ctx =
      (startConnected disk sd (s.ctx.populated known) s.mirror).1 := by
    simp only [step, hready]
  have slot : (s.step (.start disk known)).slot = s.slot := by simp only [step, hready]
  have lists : (s.step (.start disk known)).sentChecks = s.sentChecks ∧
      (s.step (.start disk known)).sentGoals = s.sentGoals ∧
      (s.step (.start disk known)).heldSnapshot = s.heldSnapshot ∧
      (s.step (.start disk known)).pendingSnapshot = s.pendingSnapshot := by
    simp only [step, hready, and_self]
  obtain ⟨checks, goals, held, pending⟩ := lists
  -- the goal latch aside, the handler's start is a reload
  let latched : Context :=
    { (startConnected disk sd (s.ctx.populated known) s.mirror).1 with goalReported := true }
  have reloaded : Context.Reloaded disk (s.ctx.populated known) latched :=
    ⟨dp, maps, fun _ => rfl⟩
  constructor
  · rw [checks]
    exact h.sound.sentChecks
  · rw [goals]
    exact h.sound.sentGoals
  · rw [held, slot]
    exact h.sound.held
  · rw [pending, slot]
    exact h.sound.pending
  · intro d member
    rw [same] at member
    rw [slot, context]
    have sound := h.sound.tasks d member
    have flag := fun changed => latch changed d member
    obtain ⟨origin, checks, goalReached, draining, waits⟩ := d
    cases origin with
    | live => exact sound
    | confirmed snap => exact sound
    | auto snap already =>
        refine ⟨sound.1, sound.2.1, fun raised => ?_⟩
        by_cases changed : SlotChanged s.mirror.state.slot (s.ctx.auth.getD "")
        · exact absurd (raised.symm.trans (flag changed)) (by decide)
        · rw [goal changed]
          exact sound.2.2 raised
  · intro d member
    rw [same] at member
    rw [context]
    exact (credited_reloaded reloaded (h.sound.credited d member) (h.harmless d member)).1

/-- A Connected packet of another slot comes where no snapshot is left. -/
theorem connected_sound (h : s.Sound) {seed : String} {server : Server} {sd : SlotData}
    (good : s.slot = some ⟨server.slotName, seed⟩ ∨ s.NoSnapshot) :
    (s.step (.connected seed server sd)).Sound := by
  have resolve : (s.ctx.login server).resolveEntryToLocId = s.ctx.resolveEntryToLocId :=
    Context.resolve_congr rfl rfl rfl
  have credited (d : Dispatch) (member : d ∈ s.dispatches) : d.Credited (s.ctx.login server) :=
    credited_congr resolve (h.credited d member)
  rcases good with same | ⟨none_held, live, early⟩
  · have slot : (s.step (.connected seed server sd)).slot = s.slot := same.symm
    refine ⟨h.sentChecks, h.sentGoals, ?_, ?_, ?_, credited⟩
    · rw [slot]
      exact h.held
    · rw [slot]
      exact h.pending
    · rw [slot]
      exact h.tasks
  · refine ⟨h.sentChecks, h.sentGoals, ?_, ?_, ?_, credited⟩
    · intro snap member
      exact absurd (none_held.symm.trans member) (by simp)
    · intro snap member
      refine ⟨fun c here => .inl ?_, (h.pending snap member).2⟩
      exact (early snap member c here).elim id id
    · intro d member
      have alive := live d member
      have sound := h.tasks d member
      obtain ⟨origin, checks, goalReached, draining, waits⟩ := d
      cases origin with
      | live => exact sound
      | confirmed snap => exact absurd alive id
      | auto snap already => exact absurd alive id

/-- Without map files there is nothing to reload. -/
theorem Sound.ready (h : s.Sound) : Ready {} s := by
  have resolve : (s.ctx.reloaded {}).resolveEntryToLocId = s.ctx.resolveEntryToLocId :=
    Context.resolve_congr (s.ctx.reloaded_dp {}) rfl rfl
  refine ⟨h, fun d member => ?_⟩
  exact credited_congr resolve (h.credited d member)

/-- A good step keeps the gate sound. -/
theorem sound_step (s : Gate) (e : Event) (h : s.Sound) (good : s.Good e) : (s.step e).Sound := by
  cases e with
  | stateEnd disk =>
      exact (onStateEnd_ready ⟨h, good.2.1⟩ good.1.1 good.1.2 good.2.2).sound
  | check disk c => exact (liveCheck_ready ⟨h, good⟩ c).sound
  | confirm disk => exact (confirm_ready ⟨h, good⟩).sound
  | connected seed server sd => exact connected_sound h good
  | goal =>
      have live : (SentGoal.mk .live s.slot).Sound := trivial
      exact (reportGoal_ready h.ready fun _ => live).sound
  | dataPackage itemMap locMap => exact names_sound h good
  | start disk known =>
      cases hready : s.ready with
      | nil =>
          have idle : s.step (.start disk known) = s := by simp only [step, hready]
          rw [idle]
          exact h
      | cons sd rest => exact start_sound ⟨names_sound h good.1, good.2.1⟩ good.2.2 hready
  | resume k disk =>
      cases hk : s.suspended[k]? with
      | none =>
          have idle : s.step (.resume k disk) = s := by simp only [step, hk]
          rw [idle]
          exact h
      | some t =>
          have ready := Ready.erase ⟨h, good.1⟩ k
          have safe := good.2 t hk
          cases t with
          | connected t =>
              have taken : s.step (.resume k disk) =
                  resumeConnected disk t { s with suspended := s.suspended.eraseIdx k } := by
                simp only [step, hk]
              rw [taken]
              exact (resumeConnected_ready ready fun waits empty => safe ⟨waits, empty⟩).sound
          | dispatch d =>
              have taken : s.step (.resume k disk) =
                  resumeDispatch disk d { s with suspended := s.suspended.eraseIdx k } := by
                simp only [step, hk]
              have member := mem_dispatches hk
              rw [taken]
              apply Ready.sound
              apply resumeDispatch_ready ready
              · exact ⟨h.tasks d member, h.credited d member, good.1 d member⟩
              · exact safe
  | stateBegin => exact ⟨h.sentChecks, h.sentGoals, h.held, h.pending, h.tasks, h.credited⟩
  | stateChunk stageName shines =>
      exact ⟨h.sentChecks, h.sentGoals, h.held, h.pending, h.tasks, h.credited⟩
  | stateMeta captures goalReached =>
      exact ⟨h.sentChecks, h.sentGoals, h.held, h.pending, h.tasks, h.credited⟩
  | reject => exact ⟨h.sentChecks, h.sentGoals, nofun, h.pending, h.tasks, h.credited⟩
  | disconnect => exact ⟨h.sentChecks, h.sentGoals, h.held, h.pending, h.tasks, h.credited⟩
  | roomUpdate checked => exact ⟨h.sentChecks, h.sentGoals, h.held, h.pending, h.tasks, h.credited⟩

/-- What every message to the server so far was sent for. -/
structure Gated (s : Gate) : Prop where
  checks : ∀ r ∈ s.sentChecks, r.Sound
  goals : ∀ r ∈ s.sentGoals, r.Sound

/-- In a run of good steps no snapshot ever sends a new location or a goal but by the
operator's confirmation in the slot that is connected. -/
theorem gate_sound (ctx : Context) (events : List Event)
    (good : Along step Good { ctx } events) : Throughout step Gated { ctx } events := by
  have start : Sound { ctx } := by
    constructor <;> intro _ member <;> cases member
  have sound := guarded_run (I := Sound) sound_step start good
  exact throughout_mono (fun s h => ⟨h.sentChecks, h.sentGoals⟩) sound

/-- A map file with one moon of the Cap Kingdom. -/
def fogDisk : Disk :=
  { shineFile := some (.entries [
      { stageName := some "CapWorldHomeStage", objectId := some "obj1", kingdom := some "Cap",
        shineId := some "Frog-Jumping Above the Fog" }]) }

/-- The slot connects and the Switch reports that moon in a snapshot. -/
def fogRun (disk : Disk) : List Event :=
  [.connected "one" { slotName := "Mario", number := 1 } {}, .start disk sampleGame, .stateBegin,
    .stateChunk "CapWorldHomeStage" [{ objectId := some "obj1" }], .stateEnd fogDisk]

theorem gate_sound_fogRun :
    Throughout step Gated { ctx := { dp := samplePackage } }
      (fogRun { fogDisk with sentinel := some 1 } ++ [.confirm fogDisk]) :=
  gate_sound { dp := samplePackage }
    (fogRun { fogDisk with sentinel := some 1 } ++ [.confirm fogDisk]) (by decide)

/-- The map in memory is empty, so the snapshot goes on by itself; its report then finds the
file and sends a location that nobody confirmed. -/
theorem reload_opens_gate :
    ∃ r ∈ (run step { ctx := { dp := samplePackage } } (fogRun {})).sentChecks,
      r.id = 11 ∧ r.id ∉ (run step { ctx := { dp := samplePackage } } (fogRun {})).ctx.checkedLocations ∧
        ¬ r.origin.Live ∧ ¬ r.Sound := by
  decide

end Gate

end SmoArchipelago.Bridge
