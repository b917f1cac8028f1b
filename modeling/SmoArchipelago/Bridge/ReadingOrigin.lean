import SmoArchipelago.Bridge.Activations
import SmoArchipelago.Bridge.Outstanding

/-! # Whose reading the balances are computed from

The bridge keeps one reading of the moons paid. It comes from the device that was active when
it was sent, and the balances go to the active device and to the device of a replay.

## Implementation notes

`reading` says whose the stored reading is, and `latest` what each device sent last, also
where the bridge dropped it. A message is logged with both when it is sent; a batch of items
suspends after each item. -/

namespace SmoArchipelago.Bridge.ReadingOrigin

open Library Runs Registry

/-- A pay snapshot and the device that sent it. -/
structure PayReading where
  device : String
  entries : List (String × ℤ)
  deriving DecidableEq

/-- An OutstandingMsg as it is sent. -/
structure Outgoing where
  device : String
  entries : List (String × ℕ)
  computedFrom : PayReading
  latest : Option PayReading
  deriving DecidableEq

/-- A batch of received items that is still to be handled. -/
structure Batch where
  items : List ItemEvent
  moonReceived : Bool := false

structure State where
  registry : Registry := {}
  bridge : BridgeState := {}
  reading : Option PayReading := none
  latest : String → Option PayReading := fun _ => none
  batches : List Batch := []
  sent : List Outgoing := []

inductive Event where
  | registry (e : Registry.Event)
  /-- The handler of a connection reads a pay snapshot. -/
  | paySnapshot (conn : ℕ) (entries : List (String × ℤ))
  | receivedItems (items : List ItemEvent)
  | resumeBatch (k : ℕ)
  /-- The slot changes. -/
  | clearReceived

/-- The balances go out to a connection once there is a reading. -/
def sendTo (festival : Bool) (s : State) (conn : ℕ) : State :=
  match s.bridge.computeOutstanding, s.reading with
  | some out, some reading =>
      let device := (s.registry.conns conn).deviceId
      { s with sent := s.sent ++
        [⟨device, outstandingEntries festival out, reading, s.latest device⟩] }
  | _, _ => s

/-- `_push_outstanding_to_switch` -/
def push (festival : Bool) (s : State) : State :=
  match s.registry.activeConn with
  | some conn => sendTo festival s conn
  | none => s

/-- The next send of the task that a step resumes. -/
def nextSend (s : Registry) : Registry.Event → Option Send
  | .resume conn => (s.program (.inl conn)).head?
  | .resumeActivation k => (s.program (.inr k)).head?
  | .hello _ _ _ | .raises _ | .eof _ | .reset _ | .setActive _ | .activationRaises _ => none

/-- A replay computes the balances when it sends them. -/
def replay (festival : Bool) (s : State) (e : Registry.Event) : State :=
  match (nextSend s.registry e).bind Send.outstandingTo with
  | some conn => sendTo festival s conn
  | none => s

/-- A pay snapshot of an inactive device is dropped. -/
def readPaySnapshot (festival : Bool) (s : State) (reading : PayReading) : State :=
  let s := { s with latest := Function.update s.latest reading.device (some reading) }
  if s.registry.activeDeviceId = some reading.device then
    push festival { s with
      bridge := s.bridge.applyPaySnapshot (paySnapshotTotals reading.entries)
      reading := some reading }
  else s

def step (clientVer : String) (festival : Bool) (s : State) : Event → State
  | .registry e =>
      { replay festival s e with registry := Registry.step clientVer s.registry e }
  | .paySnapshot conn entries =>
      if (s.registry.conns conn).phase = .main then
        readPaySnapshot festival s ⟨(s.registry.conns conn).deviceId, entries⟩
      else s
  | .receivedItems items => { s with batches := s.batches ++ [⟨items, false⟩] }
  | .resumeBatch k =>
      match s.batches[k]? with
      | none => s
      | some ⟨evt :: rest, moonReceived⟩ =>
          let moon := evt.item.kind = ItemKind.moon.value ∧ Present evt.item.kingdom
          { s with
            bridge := s.bridge.addReceivedItem evt
            batches := s.batches.set k ⟨rest, moonReceived || moon⟩ }
      | some ⟨[], moonReceived⟩ =>
          { (if moonReceived then push festival s else s) with batches := s.batches.set k ⟨[], false⟩ }
  | .clearReceived => { s with bridge := s.bridge.clearReceived, reading := none }

/-- Every message was computed from the last reading of the device it went to. -/
def RightDevice (s : State) : Prop :=
  ∀ msg ∈ s.sent, msg.computedFrom.device = msg.device ∧ msg.latest = some msg.computedFrom

instance (s : State) : Decidable (RightDevice s) :=
  inferInstanceAs (Decidable (∀ msg ∈ s.sent, _ = _ ∧ _ = _))

/-- There is no reading, or it is the last of this device. -/
def OwnReading (s : State) (d : String) : Prop := ∀ reading ∈ s.reading, s.latest d = some reading

/-- No other device, or where the snapshot is dropped not its sender, awaits balances. -/
def ReadInPeace (s : State) (device : String) : Prop :=
  if s.registry.activeDeviceId = some device then ∀ d ∈ s.registry.awaiting, d = device
  else device ∈ s.registry.awaiting → s.reading = none

/-- A device is made active only with its own reading stored or none; and a pay snapshot is
read only while no replay to another device, or to its sender where it is dropped, has still
to send its balances. -/
def TakesOwnReading (clientVer : String) (s : State) : Event → Prop
  | .registry e => ∀ d ∈ activated clientVer s.registry e, OwnReading s d
  | .paySnapshot conn _ =>
      (s.registry.conns conn).phase = .main → ReadInPeace s (s.registry.conns conn).deviceId
  | .receivedItems _ | .resumeBatch _ | .clearReceived => True

instance (s : State) (d : String) : Decidable (OwnReading s d) :=
  inferInstanceAs (Decidable (∀ reading ∈ s.reading, _ = _))

instance (s : State) (device : String) : Decidable (ReadInPeace s device) :=
  inferInstanceAs (Decidable (if s.registry.activeDeviceId = some device then
    ∀ d ∈ s.registry.awaiting, d = device else device ∈ s.registry.awaiting → s.reading = none))

instance (clientVer : String) (s : State) : ∀ e, Decidable (TakesOwnReading clientVer s e)
  | .registry _ => inferInstanceAs (Decidable (∀ d ∈ activated _ _ _, OwnReading s d))
  | .paySnapshot _ _ => inferInstanceAs (Decidable (_ = _ → ReadInPeace s _))
  | .receivedItems _ | .resumeBatch _ | .clearReceived => isTrue trivial

/-! ## One message -/

/-- Whoever listens would be sent its own balances. -/
structure Traced (s : State) : Prop where
  named : Named s.registry
  totals : s.bridge.payShineNumByKingdom = s.reading.map fun r => paySnapshotTotals r.entries
  device : ∀ d, ∀ reading ∈ s.latest d, reading.device = d
  own : ∀ d, s.registry.Listens d → OwnReading s d
  right : RightDevice s

theorem sendTo_frame (festival : Bool) (s : State) (conn : ℕ) :
    ∃ sent, sendTo festival s conn = { s with sent } := by
  rw [sendTo]
  split
  · exact ⟨_, rfl⟩
  · exact ⟨s.sent, rfl⟩

theorem sendTo_right {festival : Bool} {s : State} {conn : ℕ}
    (device : ∀ d, ∀ reading ∈ s.latest d, reading.device = d)
    (own : OwnReading s (s.registry.conns conn).deviceId) (right : RightDevice s) :
    RightDevice (sendTo festival s conn) := by
  rw [sendTo]
  split
  · next reading _ stored =>
      intro msg member
      cases List.mem_append.1 member with
      | inl before => exact right msg before
      | inr new =>
          rw [List.mem_singleton.1 new]
          have latest := own reading stored
          exact ⟨device _ reading latest, latest⟩
  · exact right

theorem push_frame (festival : Bool) (s : State) : ∃ sent, push festival s = { s with sent } := by
  rw [push]
  split
  · exact sendTo_frame festival s _
  · exact ⟨s.sent, rfl⟩

/-- The active connection is one of the active device. -/
theorem push_right (festival : Bool) {s : State} (named : Named s.registry)
    (device : ∀ d, ∀ reading ∈ s.latest d, reading.device = d)
    (own : ∀ d ∈ s.registry.activeDeviceId, OwnReading s d) (right : RightDevice s) :
    RightDevice (push festival s) := by
  rw [push]
  split
  · next conn here =>
      obtain ⟨d, active, registered⟩ := Option.bind_eq_some_iff.1 here
      apply sendTo_right device _ right
      rw [(named.conn d conn registered).2]
      exact own d active
  · exact right

theorem replay_frame (festival : Bool) (s : State) (e : Registry.Event) :
    ∃ sent, replay festival s e = { s with sent } := by
  rw [replay]
  split
  · exact sendTo_frame festival s _
  · exact ⟨s.sent, rfl⟩

/-- A replay's first message goes to a device that awaits it. -/
theorem replay_right (festival : Bool) {s : State} (h : Traced s) (e : Registry.Event) :
    RightDevice (replay festival s e) := by
  rw [replay]
  split
  · next conn here =>
      obtain ⟨m, next, to_conn⟩ := Option.bind_eq_some_iff.1 here
      have pending : ∃ t, m ∈ s.registry.program t := by
        cases e with
        | resume c => exact ⟨.inl c, List.mem_of_mem_head? next⟩
        | resumeActivation k => exact ⟨.inr k, List.mem_of_mem_head? next⟩
        | hello _ _ _ => cases next
        | raises _ => cases next
        | eof _ => cases next
        | reset _ => cases next
        | setActive _ => cases next
        | activationRaises _ => cases next
      obtain ⟨t, member⟩ := pending
      apply sendTo_right h.device _ h.right
      apply h.own
      exact .inr (h.named.mem_awaiting.2 ⟨t, m, member, conn, to_conn, rfl⟩)
  · exact h.right

/-! ## Every step -/

theorem OwnReading.of_eq {s s' : State} {d : String} (h : OwnReading s d)
    (reading : s'.reading = s.reading) (latest : s'.latest = s.latest) : OwnReading s' d := by
  rw [OwnReading, reading, latest]
  exact h

/-- Neither the reading nor who listens has changed. -/
theorem Traced.of_same {s s' : State} (h : Traced s) (registry : s'.registry = s.registry)
    (pay : s'.bridge.payShineNumByKingdom = s.bridge.payShineNumByKingdom)
    (reading : s'.reading = s.reading) (latest : s'.latest = s.latest) (right : RightDevice s') :
    Traced s' := by
  constructor
  · rw [registry]
    exact h.named
  · rw [pay, reading]
    exact h.totals
  · rw [latest]
    exact h.device
  · intro d listens
    rw [registry] at listens
    exact (h.own d listens).of_eq reading latest
  · exact right

theorem registry_traced {clientVer : String} {festival : Bool} {s : State} (h : Traced s)
    (e : Registry.Event) (good : ∀ d ∈ activated clientVer s.registry e, OwnReading s d) :
    Traced { replay festival s e with registry := Registry.step clientVer s.registry e } := by
  have evolves := step_evolves clientVer h.named e
  obtain ⟨sent, frame⟩ := replay_frame festival s e
  have right := replay_right festival h e
  rw [frame] at right ⊢
  constructor
  · exact evolves.named
  · exact h.totals
  · exact h.device
  · intro d listens
    cases evolves.listens h.named listens with
    | inl before => exact h.own d before
    | inr new => exact good d new
  · exact right

theorem readPaySnapshot_traced {festival : Bool} {s : State} (h : Traced s) {reading : PayReading}
    (good : ReadInPeace s reading.device) : Traced (readPaySnapshot festival s reading) := by
  have device : ∀ d, ∀ r ∈ Function.update s.latest reading.device (some reading) d,
      r.device = d := by
    intro d r here
    rw [Function.update_apply] at here
    split_ifs at here with same
    · rw [← Option.some.inj here, same]
    · exact h.device d r here
  rw [readPaySnapshot]
  rw [ReadInPeace] at good
  dsimp only
  split_ifs at good ⊢ with active
  · -- every listener is the sender, whose reading it now is
    have own : ∀ d, s.registry.Listens d → d = reading.device := by
      intro d listens
      cases listens with
      | inl here => exact Option.some.inj ((Option.mem_def.1 here).symm.trans active)
      | inr later => exact good d later
    have stored : ∀ d, s.registry.Listens d → OwnReading { s with
        latest := Function.update s.latest reading.device (some reading)
        bridge := s.bridge.applyPaySnapshot (paySnapshotTotals reading.entries)
        reading := some reading } d := by
      intro d listens r here
      rw [own d listens, ← Option.some.inj here]
      exact Function.update_self _ _ _
    obtain ⟨sent, frame⟩ := push_frame festival { s with
      latest := Function.update s.latest reading.device (some reading)
      bridge := s.bridge.applyPaySnapshot (paySnapshotTotals reading.entries)
      reading := some reading }
    have right := push_right festival (s := { s with
      latest := Function.update s.latest reading.device (some reading)
      bridge := s.bridge.applyPaySnapshot (paySnapshotTotals reading.entries)
      reading := some reading }) h.named device (fun d here => stored d (.inl here)) h.right
    rw [frame] at right ⊢
    exact ⟨h.named, rfl, device, stored, right⟩
  · refine ⟨h.named, h.totals, device, ?_, h.right⟩
    intro d listens r here
    by_cases same : d = reading.device
    · rw [same] at listens
      cases listens with
      | inl now => exact absurd now active
      | inr later =>
          have none_stored := good later
          rw [show s.reading = some r from here] at none_stored
          cases none_stored
    · simp only [Function.update_of_ne same]
      exact h.own d listens r here

theorem step_traced (clientVer : String) (festival : Bool) (s : State) (e : Event) (h : Traced s)
    (good : TakesOwnReading clientVer s e) : Traced (step clientVer festival s e) := by
  cases e with
  | registry e => exact registry_traced h e good
  | paySnapshot conn entries =>
      simp only [step]
      split_ifs with reads
      · exact readPaySnapshot_traced h (good reads)
      · exact h
  | receivedItems items => exact h.of_same rfl rfl rfl rfl h.right
  | resumeBatch k =>
      simp only [step]
      split
      · exact h
      · next evt rest moonReceived _ =>
          exact h.of_same rfl (s.bridge.addReceivedItem_pay evt) rfl rfl h.right
      · next moonReceived _ =>
          cases moonReceived with
          | true =>
              obtain ⟨sent, frame⟩ := push_frame festival s
              have right := push_right festival h.named h.device
                (fun d here => h.own d (.inl here)) h.right
              simp only [if_true]
              rw [frame] at right ⊢
              exact h.of_same rfl rfl rfl rfl right
          | false => exact h.of_same rfl rfl rfl rfl h.right
  | clearReceived =>
      refine ⟨h.named, rfl, h.device, ?_, h.right⟩
      intro d _ reading here
      cases here

theorem traced_start : Traced {} := by
  refine ⟨named_start, rfl, nofun, ?_, nofun⟩
  intro d _ reading here
  cases here

/-- Balances are computed from the reading of the device they go to, in every run that makes
a device active only over its own reading. -/
theorem balances_of_own_reading (clientVer : String) (festival : Bool) (events : List Event)
    (good : Along (step clientVer festival) (TakesOwnReading clientVer) {} events) :
    Throughout (step clientVer festival) RightDevice {} events := by
  have traced : Throughout (step clientVer festival) Traced {} events :=
    guarded_run (step_traced clientVer festival) traced_start good
  exact throughout_mono (fun s h => h.right) traced

/-- One Switch, its reading, a moon, and a second Switch that stays inactive. -/
def oneReading : List Event :=
  [.registry (.hello "mario" "10.0.0.5" "1.2")] ++
    List.replicate 13 (.registry (.resume 0)) ++
    [.paySnapshot 0 [("Cap", 5)],
      .receivedItems [{ item := { kind := "moon", kingdom := some "Cap" } }],
      .resumeBatch 0, .resumeBatch 0, .registry (.hello "luigi" "10.0.0.6" "1.2"),
      .registry (.resume 1), .registry (.resume 1), .paySnapshot 1 [("Cap", 0)],
      .registry (.setActive none), .registry (.setActive (some "mario")),
      .registry (.resumeActivation 1), .registry (.resumeActivation 1)]

set_option maxRecDepth 8000 in
theorem balances_of_own_reading_oneReading :
    Throughout (step "1.2" false) RightDevice {} oneReading :=
  balances_of_own_reading "1.2" false oneReading (by decide +kernel)

/-- The active Switch reports, and the user swaps to the other one. -/
def swapAfterReading : List Event :=
  [.registry (.hello "mario" "10.0.0.5" "1.2")] ++
    List.replicate 13 (.registry (.resume 0)) ++
    [.paySnapshot 0 [("Cap", 5)], .registry (.hello "luigi" "10.0.0.6" "1.2"),
      .registry (.resume 1), .registry (.resume 1), .registry (.setActive (some "luigi")),
      .registry (.resumeActivation 0), .registry (.resumeActivation 0),
      .registry (.resumeActivation 0)]

/-- The second Switch is sent balances computed from the first one's reading. -/
theorem balances_of_other_reading :
    (run (step "1.2" false) {} swapAfterReading).sent.getLast? =
        some ⟨"luigi", [("Cap", 0)], ⟨"mario", [("Cap", 5)]⟩, none⟩ ∧
      ¬ RightDevice (run (step "1.2" false) {} swapAfterReading) := by
  decide +kernel

end SmoArchipelago.Bridge.ReadingOrigin
