import SmoArchipelago.Bridge.Checks
import SmoArchipelago.Bridge.Session

/-! # State snapshots of the Switch

A snapshot of the loaded save passes a gate: one that would credit nothing new goes on
by itself, any other is held for the operator. The entries are then dispatched one after
the other through the same reports as live checks.

## Implementation notes

Every send to the server is noted with the snapshot that caused it and with the slot that
is connected at that moment, and a snapshot with where it comes from; the source keeps no
such notes, and nothing is decided by them. The label of a check and the bubbles after a drain are
awaits too; where there is none, the task is resumed at once. What is sent to the Switch
changes none of the state kept here. -/

namespace SmoArchipelago.Bridge

open Library

/-- An entry as the chunks of a snapshot build it. -/
inductive Entry where
  | moon (stageName : String) (objectId : Option String) (shineUid : Option ℤ)
  | capture (hackName : String)
  deriving DecidableEq

def Entry.toCheck : Entry → Check
  | .moon stageName objectId shineUid =>
      { kind := some ItemKind.moon.value, stageName := some stageName, objectId, shineUid }
  | .capture hackName => { kind := some ItemKind.capture.value, hackName := some hackName }

/-- A connected slot: its name and the seed of its server. -/
structure SlotId where
  name : String
  seed : String
  deriving DecidableEq

/-- Where the messages of a snapshot come from: the slots that were connected when they were
handled, and the last goal flag among them. -/
structure Source where
  slots : Finset (Option SlotId) := ∅
  flagged : Bool := false

def Source.add (slot : Option SlotId) (source : Source) : Source :=
  { source with slots := insert slot source.slots }

/-- A snapshot, with its source and the slot at its classification. -/
structure Snapshot where
  entries : List Entry
  goalReached : Bool
  source : Source
  classified : Option SlotId := none

def Snapshot.checks (snap : Snapshot) : List Check := snap.entries.map Entry.toCheck

/-- A shine of a `state_chunk`, with the fields that are read. -/
structure RawShine where
  objectId : Option String := none
  shineUid : Option ℤ := none

/-- The snapshot that is coming in. -/
structure Collecting where
  active : Bool := false
  entries : List Entry := []
  goal : Bool := false

namespace Collecting

def beginSnapshot (c : Collecting) : Collecting := { c with active := true, entries := [] }

def addChunkShines (stageName : String) (shines : List RawShine) (c : Collecting) : Collecting :=
  if c.active then
    { c with
      entries := c.entries ++ shines.map fun s => .moon stageName s.objectId s.shineUid }
  else c

def addChunkMeta (captures : List String) (goalReached : Option Bool) (c : Collecting) :
    Collecting :=
  if c.active then
    { c with
      entries := c.entries ++ (captures.filter (· ≠ "")).map .capture
      goal := goalReached.getD c.goal }
  else c

end Collecting

/-- Whether the dispatch leaves an entry out: dictionary-derived captures are no signal. -/
def DroppedFromSnapshot (c : Check) : Prop := c.kind = some ItemKind.capture.value

instance (c : Check) : Decidable (DroppedFromSnapshot c) := inferInstanceAs (Decidable (_ = _))

/-- The ids that the gate sees in a snapshot. -/
def Context.gateIds (ctx : Context) (checks : List Check) : List ℤ :=
  (checks.filter fun c => ¬ DroppedFromSnapshot c).filterMap ctx.resolveEntryToLocId

/-- `_classify_snapshot_for_user_confirm`: whether the snapshot goes on by itself, and the
numbers of its new and of its credited locations. -/
def Context.classifySnapshot (ctx : Context) (checks : List Check) (goalReached : Bool) :
    Bool × ℕ × ℕ :=
  let newCount := (ctx.gateIds checks).countP (· ∉ ctx.alreadyCheckedLocIds)
  let alreadyCount := (ctx.gateIds checks).countP (· ∈ ctx.alreadyCheckedLocIds)
  let goalIsNew := goalReached && !ctx.goalReported
  (newCount = 0 && !goalIsNew, newCount, alreadyCount)

/-- What a dispatched check comes from. -/
inductive Origin where
  | live
  /-- A snapshot that went on by itself, with the ids that were credited then. -/
  | auto (snap : Snapshot) (already : Finset ℤ)
  /-- A held snapshot that the operator confirmed. -/
  | confirmed (snap : Snapshot)

def Origin.Live : Origin → Prop
  | .live => True
  | _ => False

instance : ∀ o : Origin, Decidable o.Live
  | .live => isTrue trivial
  | .auto _ _ | .confirmed _ => isFalse id

/-- A `LocationChecks` message. -/
structure SentCheck where
  id : ℤ
  check : Check
  origin : Origin
  slot : Option SlotId

/-- A `StatusUpdate` message that a goal flag or a goal message caused. -/
structure SentGoal where
  origin : Origin
  slot : Option SlotId

/-- Where a suspended dispatch waits. The label is that of the check just reported. -/
inductive DispatchAwait where
  | checkSent (locName : String) (locId : ℤ) (label : Bool)
  | goalSent (label : Bool)
  | label
  /-- The bubbles at the end of the drain of live checks. -/
  | reconcileCappy
  deriving DecidableEq

structure Dispatch where
  origin : Origin
  rest : List Check
  goalReached : Bool := false
  /-- The checks are the buffered live ones, and the buffered snapshot comes after them. -/
  draining : Bool := false
  waits : DispatchAwait

inductive GateTask where
  | connected (t : ConnectedTask)
  | dispatch (d : Dispatch)

/-- The bridge as the snapshots see it. -/
structure Gate where
  ctx : Context
  mirror : Mirror := {}
  /-- The slot whose server gets the messages. -/
  slot : Option SlotId := none
  /-- The Connected packets whose handler has not started. -/
  ready : List SlotData := []
  collecting : Collecting := {}
  /-- Of the snapshot that is coming in. -/
  source : Source := {}
  pendingLiveChecks : List Check := []
  pendingSnapshot : Option Snapshot := none
  heldSnapshot : Option Snapshot := none
  suspended : List GateTask := []
  sentChecks : List SentCheck := []
  sentGoals : List SentGoal := []

namespace Gate

def suspend (d : Dispatch) (s : Gate) : Gate :=
  { s with suspended := s.suspended ++ [.dispatch d] }

/-- Whether a label or a bubble may follow the report of a check. -/
def labelled (c : Check) : Bool :=
  (c.kind.getD ItemKind.moon.value = ItemKind.moon.value && c.seq.getD 0 ≠ 0) ||
    c.kind.getD ItemKind.moon.value = ItemKind.capture.value

/-- `_dispatch_check` up to its first await, with that await. -/
def beginCheck (disk : Disk) (origin : Origin) (c : Check) (s : Gate) :
    Gate × Option DispatchAwait :=
  let r := s.ctx.beginReport disk c
  let s := { s with ctx := r.1 }
  match r.2 with
  | .unresolved => (s, none)
  | .known _ => (s, if labelled c then some .label else none)
  | .sending name id =>
      ({ s with sentChecks := s.sentChecks ++ [⟨id, c, origin, s.slot⟩] },
        some (.checkSent name id (labelled c)))

/-- The loop of `_dispatch_snapshot_entries` up to its next await, and whether it ended. -/
def dispatchEntries (disk : Disk) (d : Dispatch) (s : Gate) : List Check → Gate × Bool
  | [] => (s, true)
  | c :: rest =>
      if DroppedFromSnapshot c then dispatchEntries disk d s rest
      else
        match s.beginCheck disk d.origin c with
        | (s, none) => dispatchEntries disk d s rest
        | (s, some waits) => (s.suspend { d with rest, waits }, false)

/-- `report_goal`, where a goal flag or a goal message is its reason. -/
def reportGoal (origin : Origin) (s : Gate) : Gate × Bool :=
  let r := s.ctx.reportGoal
  if r.2 then ({ s with ctx := r.1, sentGoals := s.sentGoals ++ [⟨origin, s.slot⟩] }, true)
  else (s, false)

/-- `_dispatch_snapshot_entries` from its loop on. -/
def runDispatch (disk : Disk) (d : Dispatch) (s : Gate) : Gate :=
  match s.dispatchEntries disk d d.rest with
  | (s, false) => s
  | (s, true) =>
      if d.goalReached then
        let r := s.reportGoal d.origin
        if r.2 then
          r.1.suspend { d with rest := [], goalReached := false, waits := .goalSent false }
        else r.1
      else if d.draining then s.suspend { d with rest := [], waits := .reconcileCappy }
      else s

/-- `_gate_or_dispatch_snapshot`. -/
def gateSnapshot (disk : Disk) (snap : Snapshot) (s : Gate) : Gate :=
  let snap := { snap with classified := s.slot }
  if (s.ctx.classifySnapshot snap.checks snap.goalReached).1 then
    runDispatch disk
      { origin := .auto snap s.ctx.alreadyCheckedLocIds, rest := snap.checks,
        goalReached := snap.goalReached, waits := .label }
      { s with heldSnapshot := none }
  else { s with heldSnapshot := some snap }

/-- The second half of `drain_pending_snapshot`. -/
def drainSnapshot (disk : Disk) (s : Gate) : Gate :=
  match s.pendingSnapshot with
  | none => s
  | some snap => gateSnapshot disk snap { s with pendingSnapshot := none }

/-- `drain_pending_snapshot`. -/
def drain (disk : Disk) (s : Gate) : Gate :=
  if s.pendingLiveChecks = [] then s.drainSnapshot disk
  else
    runDispatch disk
      { origin := .live, rest := s.pendingLiveChecks, draining := true, waits := .label }
      { s with pendingLiveChecks := [] }

/-- A message that opens a snapshot: the goal flag of one that never ended stays. -/
def onStateBegin (s : Gate) : Gate :=
  { s with collecting := s.collecting.beginSnapshot, source := { slots := {s.slot} } }

/-- A chunk, with what it says of the goal; none is taken outside a snapshot. -/
def onStateChunk (collect : Collecting → Collecting) (goalReached : Option Bool) (s : Gate) :
    Gate :=
  { s with
    collecting := collect s.collecting
    source :=
      if s.collecting.active then
        { s.source.add s.slot with flagged := goalReached.getD s.source.flagged }
      else s.source }

/-- `_on_state_end`. -/
def onStateEnd (disk : Disk) (s : Gate) : Gate :=
  let snap : Snapshot :=
    ⟨s.collecting.entries, s.collecting.goal, s.source.add s.slot, none⟩
  let s := { s with collecting := {}, source := {} }
  if s.mirror.state.apConn = "ready" then s.gateSnapshot disk snap
  else { s with pendingSnapshot := some snap }

/-- `confirm_pending_snapshot`. -/
def confirmPendingSnapshot (disk : Disk) (s : Gate) : Gate :=
  match s.heldSnapshot with
  | none => s
  | some snap =>
      runDispatch disk
        { origin := .confirmed snap, rest := snap.checks, goalReached := snap.goalReached,
          waits := .label }
        { s with heldSnapshot := none }

/-- `reject_pending_snapshot`. -/
def rejectPendingSnapshot (s : Gate) : Gate := { s with heldSnapshot := none }

/-- A live check: reported at once where the server side is ready, else buffered. -/
def liveCheck (disk : Disk) (c : Check) (s : Gate) : Gate :=
  if s.mirror.state.apConn = "ready" then
    match s.beginCheck disk .live c with
    | (s, none) => s
    | (s, some waits) => s.suspend { origin := .live, rest := [], waits }
  else { s with pendingLiveChecks := s.pendingLiveChecks ++ [c] }

/-- A suspended dispatch from its await to the next. -/
def resumeDispatch (disk : Disk) (d : Dispatch) (s : Gate) : Gate :=
  match d.waits with
  | .checkSent name id label =>
      let r := s.ctx.finishReport name id
      let s := { s with ctx := r.1 }
      if r.2 then s.suspend { d with waits := .goalSent label }
      else if label then s.suspend { d with waits := .label }
      else s.runDispatch disk d
  | .goalSent label =>
      if label then s.suspend { d with waits := .label } else s.runDispatch disk d
  | .label => s.runDispatch disk d
  | .reconcileCappy => s.drainSnapshot disk

/-- A suspended Connected handler; its last part before the scout request is the drain. -/
def resumeConnected (disk : Disk) (t : ConnectedTask) (s : Gate) : Gate :=
  match t.waits with
  | .apState => s.drain disk
  | _ =>
      let r := Bridge.resumeConnected s.ctx t
      { s with ctx := r.1, suspended := s.suspended ++ r.2.toList.map .connected }

inductive Event where
  | stateBegin
  | stateChunk (stageName : String) (shines : List RawShine)
  | stateMeta (captures : List String) (goalReached : Option Bool)
  | stateEnd (disk : Disk)
  | check (disk : Disk) (c : Check)
  | goal
  | confirm (disk : Disk)
  | reject
  | disconnect
  /-- A Connected packet: the base class records the server's data, a task is created. -/
  | connected (seed : String) (server : Server) (sd : SlotData)
  | roomUpdate (checked : Finset ℤ)
  /-- The handler of a DataPackage packet takes one game of it. -/
  | dataPackage (itemMap locMap : Dict String ℤ)
  | start (disk : Disk) (known : KnownGames)
  | resume (k : ℕ) (disk : Disk)

def step (s : Gate) : Event → Gate
  | .stateBegin => s.onStateBegin
  | .stateChunk stageName shines => s.onStateChunk (·.addChunkShines stageName shines) none
  | .stateMeta captures goalReached =>
      s.onStateChunk (·.addChunkMeta captures goalReached) goalReached
  | .stateEnd disk => s.onStateEnd disk
  | .check disk c => s.liveCheck disk c
  | .goal => (s.reportGoal .live).1
  | .confirm disk => s.confirmPendingSnapshot disk
  | .reject => s.rejectPendingSnapshot
  | .disconnect =>
      { s with mirror := { s.mirror with state := { s.mirror.state with apConn := "disconnected" } } }
  | .connected seed server sd =>
      { s with
        ctx := s.ctx.login server
        slot := some ⟨server.slotName, seed⟩
        ready := s.ready ++ [sd] }
  | .roomUpdate checked =>
      { s with ctx := { s.ctx with checkedLocations := s.ctx.checkedLocations ∪ checked } }
  | .dataPackage itemMap locMap =>
      { s with ctx := { s.ctx with dp := s.ctx.dp.updateFromAp itemMap locMap } }
  | .start disk known =>
      match s.ready with
      | [] => s
      | sd :: rest =>
          let r := startConnected disk sd (s.ctx.populated known) s.mirror
          { s with
            ctx := r.1
            mirror := r.2.1
            ready := rest
            suspended := s.suspended ++ [.connected r.2.2] }
  | .resume k disk =>
      match s.suspended[k]? with
      | none => s
      | some (.connected t) => { s with suspended := s.suspended.eraseIdx k }.resumeConnected disk t
      | some (.dispatch d) => { s with suspended := s.suspended.eraseIdx k }.resumeDispatch disk d

end Gate

end SmoArchipelago.Bridge
