import SmoArchipelago.Bridge.Checks
import SmoArchipelago.Bridge.EventLoop
import SmoArchipelago.Bridge.GameNames
import SmoArchipelago.Bridge.Sequential

/-! # One client, several sessions

A client process may leave a session and connect to another one. What the second
session sees is compared with what a new client would see in its place.

## Implementation notes

The base class records the server's data before the Connected handler starts, and it
knows the names of some games by then: which ones may differ between the two clients. The
handler copies these names after it has reloaded the maps, which does not look at them.
Snapshots that the Switch server still holds are the matter of the snapshot module. -/

namespace SmoArchipelago.Bridge

open Library Runs

/-- What the base class records of a session when it connects. -/
structure Server where
  slotName : String
  number : ℤ
  playerNames : ℤ → Option String := fun _ => none
  checkedLocations : Finset ℤ := ∅

def Context.login (ctx : Context) (server : Server) : Context :=
  { ctx with
    auth := some server.slotName
    slot := some server.number
    playerNames := server.playerNames
    checkedLocations := server.checkedLocations }

/-- The context with the names of the games that the base class knows. -/
def Context.populated (known : KnownGames) (ctx : Context) : Context :=
  { ctx with dp := ctx.dp.populateFromSelf known }

/-- Of the handlers that may start next, the Connected handler takes over the names. -/
def Loop.populated (known : KnownGames) (s : Loop) : Loop :=
  match s.ready with
  | .connected _ :: _ => { s with ctx := s.ctx.populated known }
  | _ => s

/-- The event loop and the check reports that wait for their send. -/
structure Client where
  loop : Loop
  sending : List (String × ℤ) := []

namespace Client

inductive Event where
  | login (server : Server)
  | packet (p : Packet)
  /-- The handler of a DataPackage packet takes one game of it. -/
  | dataPackage (itemMap locMap : Dict String ℤ)
  | start (disk : Disk) (known : KnownGames)
  | resume (k : ℕ)
  | check (disk : Disk) (c : Check)
  | sent (k : ℕ)
  | goal

def withContext (s : Client) (ctx : Context) : Client := { s with loop := { s.loop with ctx } }

def step (s : Client) : Event → Client
  | .login server => s.withContext (s.loop.ctx.login server)
  | .packet p => { s with loop := s.loop.step (.packet p) }
  | .dataPackage itemMap locMap =>
      s.withContext { s.loop.ctx with dp := s.loop.ctx.dp.updateFromAp itemMap locMap }
  | .start disk known => { s with loop := (s.loop.populated known).step (.start disk) }
  | .resume k => { s with loop := s.loop.step (.resume k) }
  | .check disk c =>
      let r := s.loop.ctx.beginReport disk c
      match r.2 with
      | .sending name id => { s.withContext r.1 with sending := s.sending ++ [(name, id)] }
      | _ => s.withContext r.1
  | .sent k =>
      match s.sending[k]? with
      | none => s
      | some (name, id) =>
          { s.withContext (s.loop.ctx.finishReport name id).1 with
            sending := s.sending.eraseIdx k }
  | .goal => s.withContext s.loop.ctx.reportGoal.1

/-- Nothing of the session is in flight. -/
def AtRest (s : Client) : Prop := s.loop.Quiet ∧ s.sending = []

end Client

/-- The maps that a client finds when it is started. -/
structure InstalledMaps where
  shineMap : ShineMap := {}
  captureMap : CaptureMap := {}

namespace Client

/-- A new client of the installed world: no name of any game, no reload yet. -/
def fresh (dp : DataPackage) (maps : InstalledMaps) : Client :=
  { loop := { ctx :=
      { dp := dp.unloaded, shineMap := maps.shineMap, captureMap := maps.captureMap } } }

/-- What is compared of two clients. -/
structure Observed where
  receivedItems : List ItemEvent
  capturesUnlocked : Finset String
  capturesReceivedCount : String → Option ℕ
  abilitiesReceived : String → Option ℕ
  moonsReceivedByKingdom : String → Option ℕ
  totalCoinGrant : ℕ
  /-- The locations for which `report_check` would send a message. -/
  sends : Set ℤ
  /-- Whether `report_goal` would. -/
  sendsGoal : Bool

def observed (disk : Disk) (s : Client) : Observed where
  receivedItems := s.loop.mirror.state.receivedItems
  capturesUnlocked := s.loop.mirror.state.capturesUnlocked
  capturesReceivedCount := s.loop.mirror.state.capturesReceivedCount.get?
  abilitiesReceived := s.loop.mirror.state.abilitiesReceived.get?
  moonsReceivedByKingdom := s.loop.mirror.state.moonsReceivedByKingdom.get?
  totalCoinGrant := s.loop.mirror.state.computeTotalCoinGrant
  sends := s.loop.ctx.wouldSend disk
  sendsGoal := s.loop.ctx.reportGoal.2

end Client

/-- A session as the server presents it, with the games that the base class knows when
the Connected handler starts. -/
structure Session where
  server : Server
  seed : String
  slotData : SlotData := {}
  disk : Disk := {}
  known : KnownGames

namespace Session

/-- A packet and its task, which is resumed a number of times with no other task between. -/
def handled (b : Session) (awaits : ℕ) (p : Packet) : List Client.Event :=
  .packet p :: .start b.disk b.known :: List.replicate awaits (.resume 0)

/-- RoomInfo and Connected, each handled to its end. -/
def enter (b : Session) : List Client.Event :=
  b.handled 0 (.roomInfo b.seed) ++ .login b.server :: b.handled 11 (.connected b.slotData)

/-- The packets of the item history, each handled to its end. -/
def receive (b : Session) (history : List (ℕ × List NetworkItem)) : List Client.Event :=
  history.flatMap fun p => b.handled (awaitsOf p.2) (.receivedItems p.1 p.2)

/-- What a client has in the end that plays the session from some state on. -/
def outcome (b : Session) (history : List (ℕ × List NetworkItem)) (s : Client) :
    Client.Observed :=
  (run Client.step s (b.enter ++ b.receive history)).observed b.disk

/-- The session as another base class meets it. -/
def knowing (b : Session) (known : KnownGames) : Session := { b with known }

end Session

/-! ## Entering a session -/

namespace Session

/-- The mirror when the RoomInfo packet has been handled. -/
def announce (b : Session) (m : Mirror) : Mirror :=
  if b.seed = "" then m else { m with state := { m.state with seed := b.seed } }

/-- The Connected handler's first segment in this session. -/
def connect (b : Session) (s : Client) : Context × Mirror × ConnectedTask :=
  startConnected b.disk b.slotData ((s.loop.ctx.login b.server).populated b.known)
    (b.announce s.loop.mirror)

/-- Resumed with no other task between, a Connected handler stores the bonus lists and ends. -/
theorem run_connected (ctx : Context) (m : Mirror) (t : ConnectedTask)
    (first : t.waits = .updateDeathLink ∨ t.waits = .capturesanityReplay) :
    run Client.step { loop := { ctx, mirror := m, suspended := [.connected t] } }
        (List.replicate 11 (.resume 0)) =
      { loop :=
          { ctx :=
              { ctx with
                mmBonusCaptures := t.slotData.mmBonusCaptures
                mmBonusAbilities := t.slotData.mmBonusAbilities }
            mirror := m } } := by
  have resumed (ctx : Context) (t : ConnectedTask) :
      Client.step { loop := { ctx, mirror := m, suspended := [.connected t] } }
          (.resume 0) =
        { loop :=
            { ctx := (resumeConnected ctx t).1
              mirror := m
              suspended := (resumeConnected ctx t).2.toList.map .connected } } := rfl
  have idle (ctx : Context) :
      Client.step { loop := { ctx, mirror := m } } (.resume 0) =
        { loop := { ctx, mirror := m } } := rfl
  obtain ⟨sd, waits⟩ := t
  rcases first with first | first <;> cases first <;>
    simp only [List.replicate, run_cons, run_nil, resumed, resumeConnected, Option.toList,
      List.map_cons, List.map_nil, idle]

/-- A client at rest that enters a session is at rest again. -/
theorem run_enter (b : Session) {s : Client} (rest : s.AtRest) :
    run Client.step s b.enter =
      { loop :=
          { ctx :=
              { (b.connect s).1 with
                mmBonusCaptures := b.slotData.mmBonusCaptures
                mmBonusAbilities := b.slotData.mmBonusAbilities }
            mirror := (b.connect s).2.1 } } := by
  obtain ⟨⟨ctx, m, ready, suspended⟩, sending⟩ := s
  obtain ⟨⟨⟨⟩, ⟨⟩⟩, ⟨⟩⟩ := rest
  have announced : run Client.step { loop := { ctx, mirror := m } }
      (b.handled 0 (.roomInfo b.seed)) = { loop := { ctx, mirror := b.announce m } } := by
    simp only [handled, List.replicate, run, Client.step, Loop.step, Loop.populated,
      List.nil_append, startPacket, announce]
    split_ifs <;> rfl
  have first (sd : SlotData) : (if sd.deathLink.isSome then ConnectedAwait.updateDeathLink
      else .capturesanityReplay) = .updateDeathLink ∨
      (if sd.deathLink.isSome then ConnectedAwait.updateDeathLink
      else .capturesanityReplay) = .capturesanityReplay := by
    split_ifs
    · exact .inl rfl
    · exact .inr rfl
  have started : run Client.step { loop := { ctx, mirror := b.announce m } }
      (.login b.server :: b.handled 11 (.connected b.slotData)) =
        run Client.step
          { loop :=
              { ctx := (b.connect { loop := { ctx, mirror := m } }).1
                mirror := (b.connect { loop := { ctx, mirror := m } }).2.1
                suspended := [.connected (b.connect { loop := { ctx, mirror := m } }).2.2] } }
          (List.replicate 11 (.resume 0)) := by
    simp only [handled, run_cons]
    rfl
  rw [enter, run_append, announced, started]
  exact run_connected _ _ (b.connect { loop := { ctx, mirror := m } }).2.2 (first b.slotData)

end Session

/-! ## One handler at a time -/

namespace Client

/-- At most one handler waits and no packet does. -/
structure Single (s : Client) (o : Option Handler) : Prop where
  ready : s.loop.ready = []
  suspended : s.loop.suspended = o.toList.map .received

variable {s : Client}

theorem Single.resume_none (h : s.Single none) : s.step (.resume 0) = s := by
  simp only [step, Loop.step, h.suspended, Option.toList, List.map_nil, List.getElem?_nil]

theorem Single.resume_some {r : Handler} (h : s.Single (some r)) :
    (s.step (.resume 0)).Single (resumeReceived s.loop.ctx s.loop.mirror r).2 ∧
      (s.step (.resume 0)).loop.mirror = (resumeReceived s.loop.ctx s.loop.mirror r).1 ∧
      (s.step (.resume 0)).loop.ctx = s.loop.ctx ∧
      (s.step (.resume 0)).sending = s.sending := by
  have waiting : s.loop.suspended = [.received r] := h.suspended
  simp only [step, Loop.step, waiting, List.getElem?_cons_zero, resumeTask, List.eraseIdx_cons_zero,
    List.nil_append, and_self, and_true]
  exact ⟨h.ready, rfl⟩

/-- A handler that is resumed often enough ends, and then the client is at rest. -/
theorem Single.settles {o : Option Handler} (h : s.Single o) (sent : s.sending = []) {n : ℕ}
    (enough : ∀ r ∈ o, r.awaits ≤ n) :
    (run step s (List.replicate n (.resume 0))).AtRest := by
  induction n generalizing s o with
  | zero =>
      cases o with
      | none => exact ⟨⟨h.ready, h.suspended⟩, sent⟩
      | some r => exact absurd (enough r rfl) (Nat.not_le.2 (awaits_pos r))
  | succ n ih =>
      rw [List.replicate_succ, run_cons]
      cases o with
      | none =>
          rw [h.resume_none]
          exact ih h sent (by simp)
      | some r =>
          obtain ⟨single, -, -, still⟩ := h.resume_some
          apply ih single (still.trans sent)
          intro r' next
          have fewer := resumeReceived_awaits s.loop.ctx s.loop.mirror next
          have bound := enough r rfl
          omega

/-- A handler past its last item leaves the mirrored items as they are. -/
theorem Single.last {o : Option Handler} (h : s.Single o) (last : ∀ r ∈ o, r.rest = []) (n : ℕ) :
    (run step s (List.replicate n (.resume 0))).loop.mirror.state.receivedItems =
      s.loop.mirror.state.receivedItems := by
  induction n generalizing s o with
  | zero => rfl
  | succ n ih =>
      rw [List.replicate_succ, run_cons]
      cases o with
      | none =>
          rw [h.resume_none]
          exact ih h last
      | some r =>
          obtain ⟨single, mirror, -, -⟩ := h.resume_some
          have kept := resumeReceived_last s.loop.ctx s.loop.mirror (last r rfl)
          rw [ih single kept.2, mirror, kept.1]

theorem AtRest.start_received (rest : s.AtRest) (disk : Disk) (known : KnownGames) (index : ℕ)
    (items : List NetworkItem) :
    (run step s [.packet (.receivedItems index items), .start disk known]).Single
        (startReceived s.loop.ctx s.loop.mirror index items).2 ∧
      (run step s
          [.packet (.receivedItems index items), .start disk known]).loop.mirror =
        (startReceived s.loop.ctx s.loop.mirror index items).1 ∧
      (run step s
          [.packet (.receivedItems index items), .start disk known]).sending = [] := by
  obtain ⟨⟨ready, suspended⟩, sent⟩ := rest
  simp only [run, step, Loop.step, Loop.populated, ready, suspended, List.nil_append, startPacket]
  exact ⟨⟨rfl, rfl⟩, trivial, sent⟩

/-- A packet that is handled to its end leaves the client at rest. -/
theorem AtRest.handled (rest : s.AtRest) (b : Session) (index : ℕ) (items : List NetworkItem) :
    (run step s (b.handled (awaitsOf items) (.receivedItems index items))).AtRest := by
  obtain ⟨single, -, sent⟩ := rest.start_received b.disk b.known index items
  apply single.settles sent
  intro r next
  exact processItems_awaits s.loop.ctx s.loop.mirror _ items next

/-- A client at rest is at rest again when it has played the session. -/
theorem AtRest.session (rest : s.AtRest) (b : Session) (history : List (ℕ × List NetworkItem)) :
    (run step s (b.enter ++ b.receive history)).AtRest := by
  have entered : (run step s b.enter).AtRest := by
    rw [b.run_enter rest]
    exact ⟨⟨rfl, rfl⟩, rfl⟩
  rw [run_append]
  generalize run step s b.enter = c at entered ⊢
  induction history generalizing c with
  | nil => exact entered
  | cons p history ih =>
      simp only [Session.receive, List.flatMap_cons, run_append]
      exact ih _ (entered.handled b p.1 p.2)

end Client

/-! ## Two clients in step -/

namespace Client

/-- Two clients that differ in nothing the item history or a report can bring to light. -/
structure InStep (s s' : Client) : Prop where
  context : s.loop.ctx.Alike s'.loop.ctx
  mirror : s.loop.mirror.Alike s'.loop.mirror
  ready : s.loop.ready = [] ∧ s'.loop.ready = []
  handlers : ∃ hs : List Handler,
    s.loop.suspended = hs.map .received ∧ s'.loop.suspended = hs.map .received
  goalReported : s.loop.ctx.goalReported = s'.loop.ctx.goalReported
  unsent : ∀ id,
    (id ∈ Context.reportable s.loop.ctx.dp ∧ id ∉ s.loop.ctx.locationsChecked) ↔
      (id ∈ Context.reportable s'.loop.ctx.dp ∧ id ∉ s'.loop.ctx.locationsChecked)

namespace InStep

variable {s s' : Client}

theorem observed_eq (h : InStep s s') (disk : Disk) : s.observed disk = s'.observed disk := by
  obtain ⟨items, unlocked, captures, abilities, moons⟩ := h.mirror
  have coins : s.loop.mirror.state.computeTotalCoinGrant =
      s'.loop.mirror.state.computeTotalCoinGrant := by
    simp only [BridgeState.computeTotalCoinGrant, captures, abilities, moons]
  have sends : s.loop.ctx.wouldSend disk = s'.loop.ctx.wouldSend disk := by
    rw [Context.wouldSend_eq, Context.wouldSend_eq]
    ext id
    exact h.unsent id
  have goal : s.loop.ctx.reportGoal.2 = s'.loop.ctx.reportGoal.2 := by
    simp only [Context.reportGoal, h.goalReported]
    split_ifs <;> rfl
  simp only [observed, items, unlocked, captures, abilities, moons, coins, sends, goal]

theorem resume (h : InStep s s') (k : ℕ) :
    InStep (s.step (.resume k)) (s'.step (.resume k)) := by
  obtain ⟨context, mirror, ready, ⟨hs, suspended, suspended'⟩, goalReported, unsent⟩ := h
  cases waiting : hs[k]? with
  | none =>
      have idle : s.step (.resume k) = s := by
        simp only [Client.step, Loop.step, suspended, List.getElem?_map, waiting, Option.map_none]
      have idle' : s'.step (.resume k) = s' := by
        simp only [Client.step, Loop.step, suspended', List.getElem?_map, waiting, Option.map_none]
      rw [idle, idle']
      exact ⟨context, mirror, ready, ⟨hs, suspended, suspended'⟩, goalReported, unsent⟩
  | some r =>
      obtain ⟨alike, next⟩ := resumeReceived_same context mirror r
      simp only [Client.step, Loop.step, suspended, suspended', List.getElem?_map, waiting,
        Option.map_some, resumeTask]
      refine ⟨context, alike, ready, ?_, goalReported, unsent⟩
      refine ⟨hs.eraseIdx k ++ (resumeReceived s.loop.ctx s.loop.mirror r).2.toList, ?_, ?_⟩
      · simp [List.eraseIdx_map]
      · simp [List.eraseIdx_map, next]

theorem receive (h : InStep s s') (disk : Disk) (known known' : KnownGames) (index : ℕ)
    (items : List NetworkItem) :
    InStep (run Client.step s [.packet (.receivedItems index items), .start disk known])
      (run Client.step s' [.packet (.receivedItems index items), .start disk known']) := by
  obtain ⟨context, mirror, ⟨ready, ready'⟩, ⟨hs, suspended, suspended'⟩, goalReported, unsent⟩ := h
  obtain ⟨alike, next⟩ := startReceived_same context mirror index items
  simp only [run, Client.step, Loop.step, Loop.populated, ready, ready', List.nil_append,
    startPacket]
  refine ⟨context, alike, ⟨rfl, rfl⟩, ?_, goalReported, unsent⟩
  refine ⟨hs ++ (startReceived s.loop.ctx s.loop.mirror index items).2.toList, ?_, ?_⟩
  · simp [suspended]
  · simp [suspended', next]

/-- Clients in step that handle the same packet to its end are in step. -/
theorem handled (h : InStep s s') (b : Session) (known : KnownGames) (awaits index : ℕ)
    (items : List NetworkItem) :
    InStep (run Client.step s (b.handled awaits (.receivedItems index items)))
      (run Client.step s' ((b.knowing known).handled awaits (.receivedItems index items))) := by
  have resumes (s s' : Client) (e : Event) (member : e ∈ List.replicate awaits (.resume 0))
      (h : InStep s s') : InStep (s.step e) (s'.step e) := by
    rw [List.eq_of_mem_replicate member]
    exact h.resume 0
  exact paired_run resumes (h.receive b.disk b.known known index items)

theorem history (h : InStep s s') (b : Session) (known : KnownGames)
    (history : List (ℕ × List NetworkItem)) :
    InStep (run Client.step s (b.receive history))
      (run Client.step s' ((b.knowing known).receive history)) := by
  induction history generalizing s s' with
  | nil => exact h
  | cons p history ih =>
      simp only [Session.receive, List.flatMap_cons, run_append]
      exact ih (h.handled b known (awaitsOf p.2) p.1 p.2)

end InStep

end Client

/-! ## What a session change leaves behind -/

namespace Session

open Client

/-- The names that the client has in the session, older ones included. -/
def names (b : Session) (s : Client) : DataPackage := s.loop.ctx.dp.populateFromSelf b.known

/-- The capture map that the client has in the session. -/
def captureMap (b : Session) (s : Client) : CaptureMap :=
  (s.loop.ctx.reloadMaps b.disk false).1.captureMap

/-- The names of a game bring no new classes. -/
theorem names_categories (b : Session) (s : Client) :
    (b.names s).itemCategories = s.loop.ctx.dp.itemCategories :=
  DataPackage.categories_populate b.known s.loop.ctx.dp

/-- The reload at the start of the Connected handler does not see the session. -/
theorem reloadMaps_login (b : Session) (s : Client) :
    ∃ shineMap mapsSentinelMtime,
      (((s.loop.ctx.login b.server).populated b.known).reloadMaps b.disk false).1 =
        { s.loop.ctx.login b.server with
          dp := b.names s
          shineMap
          captureMap := b.captureMap s
          mapsSentinelMtime } := by
  have due : ((s.loop.ctx.login b.server).populated b.known).reloadDue b.disk false =
      s.loop.ctx.reloadDue b.disk false := rfl
  simp only [captureMap, Context.reloadMaps, due]
  split_ifs
  · exact ⟨_, _, rfl⟩
  · exact ⟨_, _, rfl⟩

theorem announce_slot (b : Session) (m : Mirror) : (b.announce m).state.slot = m.state.slot := by
  unfold announce
  split_ifs <;> rfl

theorem announce_alike (b : Session) (m : Mirror) : (b.announce m).Alike m := by
  unfold announce
  split_ifs <;> exact ⟨rfl, rfl, rfl, rfl, rfl⟩

/-- What a session takes over from the installation and from its server. -/
theorem connect_context (b : Session) (s : Client) :
    (b.connect s).1.dp = b.names s ∧
      (b.connect s).1.captureMap = b.captureMap s ∧
      (b.connect s).1.playerNames = b.server.playerNames ∧
      (b.connect s).1.slot = some b.server.number ∧
      (b.connect s).1.locationsChecked = s.loop.ctx.locationsChecked := by
  obtain ⟨shineMap, mapsSentinelMtime, reloaded⟩ := reloadMaps_login b s
  simp only [connect, startConnected, reloaded, enterSlot]
  split_ifs <;> exact ⟨rfl, rfl, rfl, rfl, rfl⟩

/-- A change of the slot name resets the mirror but for its counts of captures and abilities. -/
theorem connect_changed (b : Session) {s : Client}
    (changed : SlotChanged s.loop.mirror.state.slot b.server.slotName) :
    (b.connect s).1.switchReportedLocIds = ∅ ∧ (b.connect s).1.goalReported = false ∧
      (b.connect s).2.1.state.receivedItems = [] ∧
      (b.connect s).2.1.state.capturesUnlocked = ∅ ∧
      (b.connect s).2.1.state.capturesReceivedCount =
        s.loop.mirror.state.capturesReceivedCount ∧
      (b.connect s).2.1.state.abilitiesReceived = s.loop.mirror.state.abilitiesReceived ∧
      (b.connect s).2.1.state.moonsReceivedByKingdom = .empty := by
  obtain ⟨shineMap, mapsSentinelMtime, reloaded⟩ := reloadMaps_login b s
  obtain ⟨-, -, captures, abilities, -⟩ := b.announce_alike s.loop.mirror
  rw [← b.announce_slot] at changed
  simp only [connect, startConnected, reloaded, enterSlot]
  split_ifs with reset
  · exact ⟨rfl, rfl, rfl, rfl, captures, abilities, rfl⟩
  · exact absurd changed reset

/-- Without a change of the slot name the Connected handler resets nothing. -/
theorem connect_unchanged (b : Session) {s : Client}
    (same : ¬ SlotChanged s.loop.mirror.state.slot b.server.slotName) :
    (b.connect s).1.switchReportedLocIds = s.loop.ctx.switchReportedLocIds ∧
      (b.connect s).1.goalReported = s.loop.ctx.goalReported ∧
      (b.connect s).2.1.Alike s.loop.mirror := by
  obtain ⟨shineMap, mapsSentinelMtime, reloaded⟩ := reloadMaps_login b s
  obtain ⟨items, unlocked, captures, abilities, moons⟩ := b.announce_alike s.loop.mirror
  rw [← b.announce_slot] at same
  simp only [connect, startConnected, reloaded, enterSlot]
  split_ifs with reset
  · exact absurd reset same
  · exact ⟨rfl, rfl, ⟨items, unlocked, captures, abilities, moons⟩⟩

end Session

/-- Nothing was received or reported that a reset would have to clear. -/
structure Client.Untouched (s : Client) : Prop where
  receivedItems : s.loop.mirror.state.receivedItems = []
  capturesUnlocked : s.loop.mirror.state.capturesUnlocked = ∅
  moons : s.loop.mirror.state.moonsReceivedByKingdom = .empty
  switchReported : s.loop.ctx.switchReportedLocIds = ∅
  goalReported : s.loop.ctx.goalReported = false

/-- No capture and no ability was ever counted, and the slot's name changes or there is
nothing to clear. -/
structure Session.Cleared (b : Session) (s : Client) : Prop where
  captures : s.loop.mirror.state.capturesReceivedCount = .empty
  abilities : s.loop.mirror.state.abilitiesReceived = .empty
  slot : SlotChanged s.loop.mirror.state.slot b.server.slotName ∨ s.Untouched

/-- Besides, the names in which the client reads the session are those of a new client, and
what it has sent is what the new client could not send. -/
structure Session.Clean (b : Session) (s : Client) (known : KnownGames) (new : Client) : Prop
    extends b.Cleared s where
  items : ∀ id, (b.names s).itemName id = ((b.knowing known).names new).itemName id
  hackNames : ∀ id, ((b.names s).classifyItem ((b.names s).itemName id)).kind = .capture →
    (b.captureMap s).capToHack (some ((b.names s).itemName id)) =
      (b.captureMap new).capToHack (some ((b.names s).itemName id))
  /-- A location of the new client is still found, and was not sent. -/
  locations : ∀ id ∈ Context.reportable ((b.knowing known).names new),
    id ∈ Context.reportable (b.names s) ∧ id ∉ s.loop.ctx.locationsChecked
  /-- A location that only an older game's names lead to was sent. -/
  leftover : ∀ id ∈ Context.reportable (b.names s),
    id ∉ Context.reportable ((b.knowing known).names new) → id ∈ s.loop.ctx.locationsChecked

/-! ## The same items -/

namespace Context

variable {ctx ctx' : Context}

/-- The hack name of a received item, by the class of its name. -/
theorem receivedRef_hackName (ctx : Context) (id : ℤ) (flags : ℕ) :
    (ctx.receivedRef id flags).hackName =
      if (ctx.dp.classifyItem (ctx.dp.itemName id)).kind = .capture then
        ctx.captureMap.capToHack (some (ctx.dp.itemName id))
      else none := by
  by_cases capture : (ctx.dp.classifyItem (ctx.dp.itemName id)).kind = .capture
  · have cap := ctx.dp.classifyItem_cap capture
    have named : ctx.dp.itemName id ≠ "" := by
      intro empty
      rw [empty, ctx.dp.classifyItem_unnamed] at capture
      cases capture
    simp [receivedRef, ClassifiedItem.toRef, capture, cap, (present_some _).2 named]
  · have other : (ctx.dp.classifyItem (ctx.dp.itemName id)).kind.value ≠
        ItemKind.capture.value := fun same => capture (ItemKind.value_inj.1 same)
    simp [receivedRef, ClassifiedItem.toRef, capture, other]

/-- What the handler reads of the context for an item. -/
theorem parse_congr (categories : ctx.dp.itemCategories = ctx'.dp.itemCategories)
    (items : ∀ id, ctx.dp.itemName id = ctx'.dp.itemName id)
    (hackNames : ∀ id, (ctx.dp.classifyItem (ctx.dp.itemName id)).kind = .capture →
      ctx.captureMap.capToHack (some (ctx.dp.itemName id)) =
        ctx'.captureMap.capToHack (some (ctx.dp.itemName id)))
    (names : ctx.playerNames = ctx'.playerNames) (slot : ctx.slot = ctx'.slot)
    (reported : ctx.switchReportedLocIds = ctx'.switchReportedLocIds) (ni : NetworkItem) :
    ctx.parseReceivedItem ni = ctx'.parseReceivedItem ni := by
  have refs (id : ℤ) : ctx.receivedRef id ni.flags = ctx'.receivedRef id ni.flags := by
    have classes := DataPackage.classifyItem_congr categories (ctx.dp.itemName id)
    have hack : (ctx.receivedRef id ni.flags).hackName =
        (ctx'.receivedRef id ni.flags).hackName := by
      rw [receivedRef_hackName, receivedRef_hackName, ← items id, ← classes]
      split_ifs with capture
      · exact hackNames id capture
      · rfl
    calc ctx.receivedRef id ni.flags
        = { (ctx.dp.classifyItem (ctx.dp.itemName id)).toRef with
            hackName := (ctx.receivedRef id ni.flags).hackName
            classification := some (classificationFromFlags ni.flags).value } := rfl
      _ = { (ctx'.dp.classifyItem (ctx'.dp.itemName id)).toRef with
            hackName := (ctx'.receivedRef id ni.flags).hackName
            classification := some (classificationFromFlags ni.flags).value } := by
          rw [hack, classes, items id]
      _ = ctx'.receivedRef id ni.flags := rfl
  simp only [parseReceivedItem, senderName, cappyFrom, refs, names, slot, reported]

end Context

namespace Client

variable {s : Client}

theorem populated_categories (known : KnownGames) (l : Loop) :
    (l.populated known).ctx.dp.itemCategories = l.ctx.dp.itemCategories := by
  unfold Loop.populated
  split
  · exact DataPackage.categories_populate known l.ctx.dp
  · rfl

/-- The event loop leaves the data package alone. -/
theorem loop_dp (l : Loop) (e : Bridge.Event) : (l.step e).ctx.dp = l.ctx.dp := by
  cases e with
  | packet p => rfl
  | start disk =>
      cases ready : l.ready with
      | nil => rw [Loop.step_start_nil ready]
      | cons p ps =>
          cases p with
          | roomInfo seed => rw [(Loop.step_start_roomInfo disk ready).1]
          | connected sd =>
              rw [Loop.step_start_connected disk ready]
              exact startConnected_dp disk sd l.ctx l.mirror
          | receivedItems index items => rw [Loop.step_start_received disk ready]
  | resume k =>
      cases waiting : l.suspended[k]? with
      | none => rw [Loop.step_resume_none waiting]
      | some t =>
          cases t with
          | connected t =>
              rw [Loop.step_resume_connected waiting]
              exact resumeConnected_dp l.ctx t
          | received h => rw [Loop.step_resume_received waiting]

/-- No step touches the classes of the items. -/
theorem step_categories (s : Client) (e : Event) :
    (s.step e).loop.ctx.dp.itemCategories = s.loop.ctx.dp.itemCategories := by
  cases e with
  | login server => rfl
  | packet p => rfl
  | dataPackage itemMap locMap => rfl
  | start disk known =>
      calc (s.step (.start disk known)).loop.ctx.dp.itemCategories
          = (s.loop.populated known).ctx.dp.itemCategories :=
            congrArg DataPackage.itemCategories (loop_dp _ _)
        _ = s.loop.ctx.dp.itemCategories := populated_categories known s.loop
  | resume k => exact congrArg DataPackage.itemCategories (loop_dp s.loop (.resume k))
  | check disk c =>
      have reported : (s.loop.ctx.beginReport disk c).1.dp = s.loop.ctx.dp := by
        obtain ⟨_, frame⟩ := s.loop.ctx.beginReport_context disk c
        rw [frame]
        exact (s.loop.ctx.checkLocationName_spec disk c).1
      unfold step
      dsimp only
      split
      · exact congrArg DataPackage.itemCategories reported
      · exact congrArg DataPackage.itemCategories reported
  | sent k =>
      unfold step
      dsimp only
      split
      · rfl
      · unfold Context.finishReport Context.reportGoal
        dsimp only [withContext]
        split_ifs <;> rfl
  | goal =>
      unfold step Context.reportGoal
      dsimp only [withContext]
      split_ifs <;> rfl

theorem run_categories (s : Client) (events : List Event) :
    (run step s events).loop.ctx.dp.itemCategories = s.loop.ctx.dp.itemCategories :=
  invariant_run (I := fun c => c.loop.ctx.dp.itemCategories = s.loop.ctx.dp.itemCategories)
    (fun c e kept => (step_categories c e).trans kept) rfl events

end Client

namespace Session

open Client

variable {b : Session} {s : Client} {dp : DataPackage} {maps : InstalledMaps} {known : KnownGames}

theorem fresh_cleared (b : Session) (dp : DataPackage) (maps : InstalledMaps) :
    b.Cleared (fresh dp maps) :=
  ⟨rfl, rfl, .inr ⟨rfl, rfl, rfl, rfl, rfl⟩⟩

theorem fresh_atRest (dp : DataPackage) (maps : InstalledMaps) : (fresh dp maps).AtRest :=
  ⟨⟨rfl, rfl⟩, rfl⟩

/-- The two ways to a clean start. -/
theorem connect_cleared (cleared : b.Cleared s) :
    (b.connect s).1.switchReportedLocIds = ∅ ∧ (b.connect s).1.goalReported = false ∧
      (b.connect s).2.1.Alike {} := by
  obtain ⟨captures, abilities, reset⟩ := cleared
  by_cases changed : SlotChanged s.loop.mirror.state.slot b.server.slotName
  · obtain ⟨reported, goal, items, unlocked, counts, levels, moons⟩ := b.connect_changed changed
    exact ⟨reported, goal, items, unlocked, counts.trans captures, levels.trans abilities, moons⟩
  · have untouched := reset.resolve_left changed
    obtain ⟨reported, goal, alike⟩ := b.connect_unchanged changed
    refine ⟨reported.trans untouched.switchReported, goal.trans untouched.goalReported, ?_⟩
    apply alike.trans
    exact ⟨untouched.receivedItems, untouched.capturesUnlocked, captures, abilities,
      untouched.moons⟩

/-- A clean client and a new one are in step once they have entered the session. -/
theorem enter_inStep (clean : b.Clean s known (fresh dp maps)) (rest : s.AtRest)
    (categories : s.loop.ctx.dp.itemCategories = dp.itemCategories) :
    InStep (run Client.step s b.enter)
      (run Client.step (fresh dp maps) (b.knowing known).enter) := by
  obtain ⟨filled, captureMap, players, number, sent⟩ := b.connect_context s
  obtain ⟨filled', captureMap', players', number', sent'⟩ :=
    (b.knowing known).connect_context (fresh dp maps)
  obtain ⟨reported, goal, alike⟩ := connect_cleared clean.toCleared
  obtain ⟨reported', goal', alike'⟩ :=
    connect_cleared ((b.knowing known).fresh_cleared dp maps)
  rw [b.run_enter rest, (b.knowing known).run_enter (fresh_atRest dp maps)]
  constructor
  · refine ⟨Context.parse_congr ?_ ?_ ?_ ?_ ?_ ?_, rfl, rfl⟩
    · dsimp only
      rw [filled, filled', names_categories, names_categories]
      exact categories
    · dsimp only
      rw [filled, filled']
      exact clean.items
    · dsimp only
      rw [filled, captureMap, captureMap']
      exact clean.hackNames
    · exact players.trans players'.symm
    · exact number.trans number'.symm
    · exact reported.trans reported'.symm
  · exact alike.trans alike'.symm
  · exact ⟨rfl, rfl⟩
  · exact ⟨[], rfl, rfl⟩
  · exact goal.trans goal'.symm
  · intro id
    dsimp only
    rw [filled, filled', sent, sent']
    constructor
    · rintro ⟨reportable, unsent⟩
      refine ⟨?_, Finset.notMem_empty id⟩
      by_contra only
      exact unsent (clean.leftover id reportable only)
    · rintro ⟨reportable, -⟩
      exact clean.locations id reportable

theorem outcome_of_clean (clean : b.Clean s known (fresh dp maps)) (rest : s.AtRest)
    (categories : s.loop.ctx.dp.itemCategories = dp.itemCategories)
    (history : List (ℕ × List NetworkItem)) :
    b.outcome history s = (b.knowing known).outcome history (fresh dp maps) := by
  unfold outcome
  rw [run_append, run_append]
  exact ((enter_inStep clean rest categories).history b known history).observed_eq b.disk

/-- The start of the session keeps the counts of captures and abilities. -/
theorem connect_counts (b : Session) (s : Client) :
    (b.connect s).2.1.state.capturesReceivedCount = s.loop.mirror.state.capturesReceivedCount ∧
      (b.connect s).2.1.state.abilitiesReceived = s.loop.mirror.state.abilitiesReceived := by
  by_cases changed : SlotChanged s.loop.mirror.state.slot b.server.slotName
  · obtain ⟨-, -, -, -, counts, levels, -⟩ := b.connect_changed changed
    exact ⟨counts, levels⟩
  · obtain ⟨-, -, alike⟩ := b.connect_unchanged changed
    exact ⟨alike.capturesReceivedCount, alike.abilitiesReceived⟩

/-- The mirrored items after a history of one item. -/
theorem outcome_one (rest : s.AtRest) {ni : NetworkItem} {evt : ItemEvent}
    (empty : (b.connect s).2.1.state.receivedItems = [])
    (parsed : (b.connect s).1.parseReceivedItem ni = some evt) :
    (b.outcome [(0, [ni])] s).receivedItems = [evt] := by
  have still : (run Client.step s b.enter).AtRest := by
    rw [b.run_enter rest]
    exact ⟨⟨rfl, rfl⟩, rfl⟩
  obtain ⟨single, mirror, -⟩ := still.start_received b.disk b.known 0 [ni]
  have first : (startReceived (run Client.step s b.enter).loop.ctx
      (run Client.step s b.enter).loop.mirror 0 [ni]).1.state.receivedItems = [evt] ∧
      ∀ r ∈ (startReceived (run Client.step s b.enter).loop.ctx
        (run Client.step s b.enter).loop.mirror 0 [ni]).2, r.rest = [] := by
    rw [b.run_enter rest]
    exact startReceived_first _ empty parsed
  have ended := single.last first.2 (awaitsOf [ni])
  rw [mirror, first.1] at ended
  have packets : b.receive [(0, [ni])] =
      [.packet (.receivedItems 0 [ni]), .start b.disk b.known] ++
        List.replicate (awaitsOf [ni]) (.resume 0) := by
    simp only [receive, List.flatMap_cons, List.flatMap_nil, List.append_nil, handled,
      List.cons_append, List.nil_append]
  rw [outcome, run_append, packets, run_append, observed, ended]

/-- Where the outcomes are the same, so is what is compared when the session is entered. -/
theorem observed_enter
    (same : ∀ history, b.outcome history s = (b.knowing known).outcome history (fresh dp maps)) :
    (run Client.step s b.enter).observed b.disk =
      (run Client.step (fresh dp maps) (b.knowing known).enter).observed b.disk := by
  have nothing := same []
  simp only [outcome, receive, List.flatMap_nil, List.append_nil] at nothing
  exact nothing

/-- Where the outcomes are the same, every item is read as by the new client. -/
theorem parse_same (rest : s.AtRest)
    (same : ∀ history, b.outcome history s = (b.knowing known).outcome history (fresh dp maps))
    (ni : NetworkItem) :
    (b.connect s).1.parseReceivedItem ni =
      ((b.knowing known).connect (fresh dp maps)).1.parseReceivedItem ni := by
  obtain ⟨-, -, alike'⟩ := connect_cleared ((b.knowing known).fresh_cleared dp maps)
  have before := observed_enter same
  rw [b.run_enter rest, (b.knowing known).run_enter (fresh_atRest dp maps)] at before
  have empty : (b.connect s).2.1.state.receivedItems = [] :=
    (congrArg Observed.receivedItems before).trans alike'.receivedItems
  cases filled : ni.item with
  | none => simp only [Context.parseReceivedItem, filled, Option.map_none]
  | some item =>
      have isSome : ni.item.isSome := Option.isSome_of_eq_some filled
      obtain ⟨evt, parsed⟩ : ∃ evt, (b.connect s).1.parseReceivedItem ni = some evt :=
        Context.parse_isSome isSome
      obtain ⟨evt', parsed'⟩ : ∃ evt,
          ((b.knowing known).connect (fresh dp maps)).1.parseReceivedItem ni = some evt :=
        Context.parse_isSome isSome
      have heard := congrArg Observed.receivedItems (same [(0, [ni])])
      rw [outcome_one rest empty parsed,
        outcome_one (fresh_atRest dp maps) alike'.receivedItems parsed'] at heard
      rw [parsed, parsed', List.singleton_inj.1 heard]

/-- A client that reads every item like a new one has its names and its hack names. -/
theorem names_of_parse (categories : s.loop.ctx.dp.itemCategories = dp.itemCategories)
    (parse : ∀ ni, (b.connect s).1.parseReceivedItem ni =
      ((b.knowing known).connect (fresh dp maps)).1.parseReceivedItem ni) (id : ℤ) :
    (b.names s).itemName id = ((b.knowing known).names (fresh dp maps)).itemName id ∧
      (((b.names s).classifyItem ((b.names s).itemName id)).kind = .capture →
        (b.captureMap s).capToHack (some ((b.names s).itemName id)) =
          (b.captureMap (fresh dp maps)).capToHack (some ((b.names s).itemName id))) := by
  obtain ⟨filled, captureMap, -, -, -⟩ := b.connect_context s
  obtain ⟨filled', captureMap', -, -, -⟩ := (b.knowing known).connect_context (fresh dp maps)
  have refs : (b.connect s).1.receivedRef id 0 =
      ((b.knowing known).connect (fresh dp maps)).1.receivedRef id 0 :=
    congrArg ItemEvent.item (Option.some.inj (parse { item := some id }))
  have named := congrArg ItemRef.name refs
  simp only [Context.receivedRef, ClassifiedItem.toRef, DataPackage.classifyItem_name, filled,
    filled', Option.some.injEq] at named
  refine ⟨named, fun capture => ?_⟩
  have hack := congrArg ItemRef.hackName refs
  have classes : (b.names s).classifyItem ((b.names s).itemName id) =
      ((b.knowing known).names (fresh dp maps)).classifyItem ((b.names s).itemName id) := by
    apply DataPackage.classifyItem_congr
    rw [names_categories, names_categories]
    exact categories
  rw [Context.receivedRef_hackName, Context.receivedRef_hackName, filled, filled', captureMap,
    captureMap', ← named, ← classes, if_pos capture, if_pos capture] at hack
  exact hack

/-- A Switch report of the old slot would silence a find in the new one. -/
theorem reported_of_parse
    (parse : ∀ ni, (b.connect s).1.parseReceivedItem ni =
      ((b.knowing known).connect (fresh dp maps)).1.parseReceivedItem ni) :
    (b.connect s).1.switchReportedLocIds = ∅ := by
  obtain ⟨-, -, -, number, -⟩ := b.connect_context s
  obtain ⟨-, -, -, number', -⟩ := (b.knowing known).connect_context (fresh dp maps)
  obtain ⟨reported', -, -⟩ := connect_cleared ((b.knowing known).fresh_cleared dp maps)
  by_contra leaked
  obtain ⟨id, member⟩ := Finset.nonempty_iff_ne_empty.2 leaked
  let found : NetworkItem :=
    { item := some 0, player := some b.server.number, location := some id }
  have heard : (b.connect s).1.cappyFrom found =
      ((b.knowing known).connect (fresh dp maps)).1.cappyFrom found :=
    congrArg ItemEvent.cappyFrom (Option.some.inj (parse found))
  have mine : found.player.isSome ∧ found.player = (b.connect s).1.slot := ⟨rfl, number.symm⟩
  have mine' : found.player.isSome ∧
      found.player = ((b.knowing known).connect (fresh dp maps)).1.slot := ⟨rfl, number'.symm⟩
  have silent : (b.connect s).1.cappyFrom found = "" := by
    rw [Context.cappyFrom, if_pos mine]
    exact if_pos member
  have spoken : ((b.knowing known).connect (fresh dp maps)).1.cappyFrom found = "(self)" := by
    rw [Context.cappyFrom, if_pos mine', reported']
    rfl
  rw [silent, spoken] at heard
  exact absurd heard (by decide)

/-- A client that plays every history like a new one comes with cleared counts. -/
theorem cleared_of_outcome (rest : s.AtRest)
    (same : ∀ history, b.outcome history s = (b.knowing known).outcome history (fresh dp maps)) :
    b.Cleared s := by
  have before := observed_enter same
  rw [b.run_enter rest, (b.knowing known).run_enter (fresh_atRest dp maps)] at before
  obtain ⟨-, goal', alike'⟩ := connect_cleared ((b.knowing known).fresh_cleared dp maps)
  obtain ⟨counts, levels⟩ := b.connect_counts s
  constructor
  · apply Dict.eq_empty
    intro k
    have here := congrFun (congrArg Observed.capturesReceivedCount before) k
    simp only [observed] at here
    rw [counts, alike'.capturesReceivedCount] at here
    exact here
  · apply Dict.eq_empty
    intro k
    have here := congrFun (congrArg Observed.abilitiesReceived before) k
    simp only [observed] at here
    rw [levels, alike'.abilitiesReceived] at here
    exact here
  · by_cases changed : SlotChanged s.loop.mirror.state.slot b.server.slotName
    · exact .inl changed
    · obtain ⟨reported, goal, alike⟩ := b.connect_unchanged changed
      have items := congrArg Observed.receivedItems before
      have unlocked := congrArg Observed.capturesUnlocked before
      have moons := congrArg Observed.moonsReceivedByKingdom before
      have goals := congrArg Observed.sendsGoal before
      simp only [observed, Context.reportGoal] at items unlocked moons goals
      refine .inr ⟨?_, ?_, ?_, ?_, ?_⟩
      · exact alike.receivedItems.symm.trans (items.trans alike'.receivedItems)
      · exact alike.capturesUnlocked.symm.trans (unlocked.trans alike'.capturesUnlocked)
      · apply Dict.eq_empty
        intro k
        have here := congrFun moons k
        rw [alike.moonsReceivedByKingdom, alike'.moonsReceivedByKingdom] at here
        exact here
      · rw [← reported]
        exact reported_of_parse (parse_same rest same)
      · have open_goal : s.loop.ctx.goalReported ≠ true := by
          intro sent
          rw [goal, sent, goal'] at goals
          cases goals
        simpa using open_goal

/-- A client that plays every history like a new one is clean. -/
theorem clean_of_outcome (rest : s.AtRest)
    (categories : s.loop.ctx.dp.itemCategories = dp.itemCategories)
    (same : ∀ history, b.outcome history s = (b.knowing known).outcome history (fresh dp maps)) :
    b.Clean s known (fresh dp maps) := by
  obtain ⟨filled, -, -, -, sent⟩ := b.connect_context s
  obtain ⟨filled', -, -, -, sent'⟩ := (b.knowing known).connect_context (fresh dp maps)
  have named := names_of_parse categories (parse_same rest same)
  have before := observed_enter same
  rw [b.run_enter rest, (b.knowing known).run_enter (fresh_atRest dp maps)] at before
  have sends (id : ℤ) : (id ∈ Context.reportable (b.names s) ∧ id ∉ s.loop.ctx.locationsChecked) ↔
      id ∈ Context.reportable ((b.knowing known).names (fresh dp maps)) := by
    have here := congrArg (id ∈ ·) (congrArg Observed.sends before)
    simp only [observed, Context.wouldSend_eq, Set.mem_ofPred_eq] at here
    rw [sent, sent', filled, filled'] at here
    rw [here]
    exact and_iff_left (Finset.notMem_empty id)
  refine ⟨cleared_of_outcome rest same, fun id => (named id).1, fun id => (named id).2,
    fun id => (sends id).2, ?_⟩
  intro id reportable only
  by_contra unsent
  exact only ((sends id).1 ⟨reportable, unsent⟩)

/-- A slot in one seed and another slot in another seed. -/
def marioSession : Session where
  server := { slotName := "Mario", number := 1 }
  seed := "one"
  known := sampleGame

def luigiSession : Session where
  server := { slotName := "Luigi", number := 2 }
  seed := "two"
  known := sampleGame

/-- The capture Frog, as each of the two slots receives it. -/
def frogHistory : List (ℕ × List NetworkItem) := [(0, [{ item := some 4 }])]

/-- The first slot receives a capture and checks a location. -/
def marioRun : List Client.Event :=
  marioSession.enter ++ marioSession.receive frogHistory ++
    [.check {} { kingdom := some "Cap", shineId := some "Frog-Jumping Above the Fog" }, .sent 0]

end Session

end SmoArchipelago.Bridge
