import SmoArchipelago.Library.Receiver
import SmoArchipelago.Library.Runs
import SmoArchipelago.Bridge.Mirror
import SmoArchipelago.Bridge.Outstanding

/-! # Moon balances

The bridge derives the balances from the moons that it has received and the last reading of
the moons paid. It sends them when a batch with a moon has been received, when a reading has
arrived and when a Switch has said HELLO.

## Implementation notes

`lastReading` is the last reading that the bridge has read. The handler of a batch suspends
after every item, and so does the replay after a HELLO; the replay ends with its connection.
A batch's bonus grants are left out: none of them is a moon. -/

namespace SmoArchipelago.Bridge.MoonBalance

open Library Runs Switch

/-- An item of the world: a moon is of a kingdom of the Switch's table. -/
structure TableItem where
  evt : ItemEvent
  named : evt.item.kind = ItemKind.moon.value → ∃ bit, evt.item.kingdom = some (apKingdom bit)

def TableItem.isMoon (item : TableItem) : Bool := item.evt.item.kind = ItemKind.moon.value

inductive Msg where
  | item (evt : ItemEvent)
  | outstanding (entries : List (String × ℕ))

/-- A batch of received items that is still to be handled; `moonReceived` as the source's
`moon_received_this_batch`. -/
structure Batch where
  items : List TableItem
  moonReceived : Bool := false

/-- Where `_run_post_hello_replay` stands. -/
inductive Replay where
  | outstanding
  | items (left : List ItemEvent)

/-- The moons paid to each kingdom. -/
abbrev Reading := Vector ℕ 17

/-- `buildPaySnapshot`; a count below zero reads as zero. -/
def buildPaySnapshot (payShineNum : Fin 17 → ℤ) : Reading :=
  Vector.ofFn fun bit => (payShineNum bit).toNat

def paySnapshotEntries (pay : Reading) : List (String × ℤ) :=
  (List.finRange 17).map fun bit => (kingdomForBit bit, (pay.get bit : ℤ))

structure State where
  bridge : BridgeState := {}
  connected : Bool := false
  batches : List Batch := []
  replay : Replay := .items []
  toBridge : List Reading := []
  lastReading : Option Reading := none
  switch : Receiver Balances Msg := { state := fun _ => 0 }

inductive Event where
  | receivedItems (items : List TableItem)
  /-- The handler of a batch runs to its next suspension. -/
  | resume (k : ℕ)
  | resumeReplay
  | paySnapshot (payShineNum : Fin 17 → ℤ)
  | bridgeReads
  | switchReads
  | disconnect
  /-- The Switch's process starts afresh. -/
  | restart
  /-- A HELLO, with the reading that follows it where it can be built. -/
  | hello (payShineNum : Option (Fin 17 → ℤ))

/-- An item is shown and logged; the balances come from the bridge alone. -/
def applyMsg (apMoonsKingdom : Balances) : Msg → Balances
  | .item _ => apMoonsKingdom
  | .outstanding entries => applyOutstanding apMoonsKingdom (decodedOutstanding entries)

def send (s : State) (msg : Msg) : State :=
  if s.connected then { s with switch := s.switch.send msg } else s

/-- `_push_outstanding_to_switch`, and the first message of the replay. -/
def push (festival : Bool) (s : State) : State :=
  match s.bridge.computeOutstanding with
  | none => s
  | some out => send s (.outstanding (outstandingEntries festival out))

def receive (s : State) (item : TableItem) : State :=
  let s := { s with bridge := s.bridge.addReceivedItem item.evt }
  -- abilities go out in a table of their own
  if item.evt.item.kind = ItemKind.ability.value then s else send s (.item item.evt)

def applyPaySnapshot (s : State) (pay : Reading) : State :=
  { s with
    bridge := s.bridge.applyPaySnapshot (paySnapshotTotals (paySnapshotEntries pay))
    lastReading := some pay }

/-- The connection ends with the messages on it. -/
def lose (s : State) : State :=
  { s with connected := false, replay := .items [], toBridge := [], switch := s.switch.lose }

def step (festival : Bool) (s : State) : Event → State
  | .receivedItems items => { s with batches := s.batches ++ [⟨items, false⟩] }
  | .resume k =>
      match s.batches[k]? with
      | none => s
      | some ⟨item :: rest, moonReceived⟩ =>
          { receive s item with batches := s.batches.set k ⟨rest, moonReceived || item.isMoon⟩ }
      | some ⟨[], moonReceived⟩ =>
          { (if moonReceived then push festival s else s) with batches := s.batches.set k ⟨[], false⟩ }
  | .resumeReplay =>
      match s.replay with
      | .outstanding =>
          let items := s.bridge.receivedItems.filter fun evt => evt.item.kind ≠ ItemKind.moon.value
          { push festival s with replay := .items items }
      | .items [] => s
      | .items (evt :: left) => { send s (.item evt) with replay := .items left }
  | .paySnapshot payShineNum =>
      if s.connected then { s with toBridge := s.toBridge ++ [buildPaySnapshot payShineNum] } else s
  | .bridgeReads =>
      match s.toBridge with
      | [] => s
      | pay :: rest => push festival (applyPaySnapshot { s with toBridge := rest } pay)
  | .switchReads => { s with switch := s.switch.process applyMsg }
  | .disconnect => lose s
  | .restart => { lose s with switch := { state := fun _ => 0 } }
  | .hello payShineNum =>
      { lose s with
        connected := true
        replay := .outstanding
        toBridge := (payShineNum.map buildPaySnapshot).toList }

/-- The handlers and the replay have finished and every message has been delivered. -/
structure Settled (s : State) : Prop where
  connected : s.connected = true
  batches : ∀ batch ∈ s.batches, batch.items = [] ∧ batch.moonReceived = false
  replay : s.replay = .items []
  toBridge : s.toBridge = []
  inFlight : s.switch.inFlight = []

/-- The moons received for a kingdom, a Multi-Moon as three. -/
def lifetimeReceived (s : State) (bit : Fin 17) : ℕ :=
  (s.bridge.receivedItems.map (BridgeState.moonCredit (apKingdom bit))).sum

/-- What the Switch is to hold for a kingdom. -/
def balance (festival : Bool) (s : State) (pay : Reading) (bit : Fin 17) : ℕ :=
  if festival ∧ apKingdom bit ∈ festivalZeroedKingdoms then 0
  else lifetimeReceived s bit - pay.get bit

/-! ## One push -/

section Totals

variable (pay : Reading)

theorem paySnapshotTotals_eq :
    paySnapshotTotals (paySnapshotEntries pay) =
      (List.finRange 17).foldl (fun totals bit => totals.set (apKingdom bit) (pay.get bit)) .empty := by
  have named : ∀ bit, kingdomForBit bit ≠ "" := by decide
  rw [paySnapshotTotals, paySnapshotEntries, List.foldl_map]
  congr 1
  funext totals bit
  rw [if_neg (named bit)]
  rfl

theorem mem_keys_totals (k : String) :
    k ∈ (paySnapshotTotals (paySnapshotEntries pay)).keys ↔ ∃ bit, k = apKingdom bit := by
  rw [paySnapshotTotals_eq, Dict.mem_keys_foldl_set]
  simp [Dict.keys, Dict.empty, eq_comm]

theorem getD_totals (bit : Fin 17) :
    (paySnapshotTotals (paySnapshotEntries pay)).getD (apKingdom bit) 0 = pay.get bit := by
  rw [paySnapshotTotals_eq, Dict.getD, Dict.get?_foldl_set _ _ apKingdom_injective]
  simp

end Totals

/-- What the bridge has recorded. -/
structure Recorded (s : State) : Prop where
  moons : ∀ k, s.bridge.moonsReceivedByKingdom.getD k 0 =
    (s.bridge.receivedItems.map (BridgeState.moonCredit k)).sum
  known : ∀ k ∈ s.bridge.moonsReceivedByKingdom.keys, ∃ bit, k = apKingdom bit
  pay : s.bridge.payShineNumByKingdom =
    s.lastReading.map fun pay => paySnapshotTotals (paySnapshotEntries pay)

/-- The entries sent are those of the seventeen kingdoms. -/
theorem computeOutstanding_entries {s : State} (recorded : Recorded s) {pay : Reading}
    (reading : s.lastReading = some pay) {out : Dict String ℕ}
    (computed : s.bridge.computeOutstanding = some out) (bit : Fin 17) :
    (∀ k ∈ out.keys, ∃ bit, k = apKingdom bit) ∧
      out.get? (apKingdom bit) = some (lifetimeReceived s bit - pay.get bit) := by
  have paid : s.bridge.payShineNumByKingdom = some (paySnapshotTotals (paySnapshotEntries pay)) := by
    rw [recorded.pay, reading, Option.map_some]
  have entries := BridgeState.computeOutstanding_get? paid computed
  constructor
  · intro k member
    obtain ⟨n, found⟩ := Dict.mem_keys_iff.1 member
    rw [entries k] at found
    split_ifs at found with here
    cases here with
    | inl received => exact recorded.known k received
    | inr total => exact (mem_keys_totals pay k).1 total
  · rw [entries, if_pos (Or.inr ((mem_keys_totals pay _).2 ⟨bit, rfl⟩)), getD_totals,
      recorded.moons]
    rfl

theorem length_le_of_known {keys : List String} (distinct : keys.Nodup)
    (known : ∀ k ∈ keys, ∃ bit, k = apKingdom bit) : keys.length ≤ 17 := by
  have subset : keys ⊆ (List.finRange 17).map apKingdom := by
    intro k member
    obtain ⟨bit, rfl⟩ := known k member
    exact List.mem_map_of_mem (List.mem_finRange bit)
  calc keys.length ≤ ((List.finRange 17).map apKingdom).length :=
        (distinct.subperm subset).length_le
    _ = 17 := by simp

/-- The Switch applies the whole message. -/
theorem applyMsg_outstanding (festival : Bool) {out : Dict String ℕ}
    (known : ∀ k ∈ out.keys, ∃ bit, k = apKingdom bit) (balances : Balances) {bit : Fin 17}
    {n : ℕ} (entry : out.get? (apKingdom bit) = some n) :
    applyMsg balances (.outstanding (outstandingEntries festival out)) bit =
      wireCount (if festival ∧ apKingdom bit ∈ festivalZeroedKingdoms then 0 else n) := by
  have keys : (outstandingEntries festival out).map Prod.fst = out.keys.insertionSort (· ≤ ·) := by
    rw [outstandingEntries, List.map_map, ← keys_sortedCounts]
    rfl
  have distinct : ((outstandingEntries festival out).map Prod.fst).Nodup := by
    rw [keys]
    exact (List.perm_insertionSort _ _).nodup_iff.2 out.distinct
  have all_known : ∀ e ∈ outstandingEntries festival out, ∃ bit, e.1 = apKingdom bit := by
    intro e member
    apply known
    have listed := List.mem_map_of_mem (f := Prod.fst) member
    rw [keys] at listed
    exact (List.mem_insertionSort _).1 listed
  have short : (outstandingEntries festival out).length ≤ kMaxOutstanding := by
    rw [← List.length_map Prod.fst]
    apply length_le_of_known distinct
    intro k member
    obtain ⟨e, here, rfl⟩ := List.mem_map.1 member
    exact all_known e here
  rw [applyMsg, applyOutstanding, decodedOutstanding, List.take_of_length_le short]
  apply foldl_applyEntry_of_mem all_known distinct
  exact List.mem_map_of_mem (f := fun e : String × ℕ =>
    (e.1, if festival ∧ e.1 ∈ festivalZeroedKingdoms then 0 else e.2))
    (mem_sortedCounts.2 (Dict.get?_eq_some.1 entry))

/-- The Switch will hold the balances that the bridge derives now. -/
def Shown (festival : Bool) (s : State) : Prop :=
  ∀ pay ∈ s.lastReading, ∀ bit,
    s.switch.view applyMsg bit = wireCount (balance festival s pay bit)

/-- A send changes the Switch's end alone. -/
theorem send_frame (s : State) (msg : Msg) : ∃ r, send s msg = { s with switch := r } := by
  rw [send]
  split_ifs
  · exact ⟨_, rfl⟩
  · exact ⟨s.switch, rfl⟩

theorem push_frame (festival : Bool) (s : State) :
    ∃ r, push festival s = { s with switch := r } := by
  rw [push]
  split
  · exact ⟨s.switch, rfl⟩
  · exact send_frame s _

theorem view_send_item (s : State) (evt : ItemEvent) :
    (send s (.item evt)).switch.view applyMsg = s.switch.view applyMsg := by
  rw [send]
  split_ifs
  · rw [Receiver.view_send]
    rfl
  · rfl

theorem push_shown (festival : Bool) {s : State} (recorded : Recorded s)
    (up : s.connected = true) : Shown festival (push festival s) := by
  intro pay reading bit
  obtain ⟨r, frame⟩ := push_frame festival s
  have read : s.lastReading = some pay := by
    rw [frame] at reading
    exact reading
  have same_balance : balance festival (push festival s) pay bit = balance festival s pay bit := by
    rw [frame]
    rfl
  rw [same_balance, push]
  cases computed : s.bridge.computeOutstanding with
  | none =>
      rw [BridgeState.computeOutstanding, recorded.pay, read] at computed
      cases computed
  | some out =>
      obtain ⟨known, entry⟩ := computeOutstanding_entries recorded read computed bit
      simp only [send, up, if_true]
      rw [Receiver.view_send]
      exact applyMsg_outstanding festival known _ entry

/-! ## Every step -/

theorem Recorded.of_eq {s s' : State} (h : Recorded s) (bridge : s'.bridge = s.bridge)
    (reading : s'.lastReading = s.lastReading) : Recorded s' := by
  constructor
  · rw [bridge]
    exact h.moons
  · rw [bridge]
    exact h.known
  · rw [bridge, reading]
    exact h.pay

theorem Shown.of_eq {festival : Bool} {s t : State} (h : Shown festival s)
    (reading : t.lastReading = s.lastReading)
    (lifetime : ∀ bit, lifetimeReceived t bit = lifetimeReceived s bit)
    (view : t.switch.view applyMsg = s.switch.view applyMsg) : Shown festival t := by
  intro pay read bit
  rw [reading] at read
  rw [view, h pay read bit, balance, balance, lifetime]

theorem moonCredit_eq_zero {item : TableItem} (other : item.isMoon = false) (k : String) :
    BridgeState.moonCredit k item.evt = 0 := by
  rw [BridgeState.moonCredit, if_neg]
  rintro ⟨moon, -⟩
  exact absurd moon (of_decide_eq_false other)

theorem receive_frame (s : State) (item : TableItem) : ∃ r, receive s item =
    { s with bridge := s.bridge.addReceivedItem item.evt, switch := r } := by
  rw [receive]
  split_ifs
  · exact ⟨s.switch, rfl⟩
  · obtain ⟨r, frame⟩ := send_frame { s with bridge := s.bridge.addReceivedItem item.evt }
      (.item item.evt)
    exact ⟨r, frame⟩

theorem view_receive (s : State) (item : TableItem) :
    (receive s item).switch.view applyMsg = s.switch.view applyMsg := by
  rw [receive]
  split_ifs
  · rfl
  · exact view_send_item _ _

theorem lifetimeReceived_receive (s : State) (item : TableItem) (bit : Fin 17) :
    lifetimeReceived (receive s item) bit =
      lifetimeReceived s bit + BridgeState.moonCredit (apKingdom bit) item.evt := by
  obtain ⟨r, frame⟩ := receive_frame s item
  rw [frame, lifetimeReceived, lifetimeReceived, BridgeState.addReceivedItem_receivedItems,
    List.map_append, List.sum_append, List.map_singleton, List.sum_singleton]

/-- A moon is recorded under a kingdom of the table. -/
theorem keys_addReceivedItem (s : BridgeState) (item : TableItem) {k : String}
    (member : k ∈ (s.addReceivedItem item.evt).moonsReceivedByKingdom.keys) :
    k ∈ s.moonsReceivedByKingdom.keys ∨ ∃ bit, k = apKingdom bit := by
  rw [BridgeState.addReceivedItem] at member
  dsimp only at member
  split_ifs at member with capture ability moon
  · exact .inl member
  · exact .inl member
  · obtain ⟨bit, kingdom⟩ := item.named moon.1
    cases (Dict.mem_keys_bump _ _ _ _).1 member with
    | inl new =>
        rw [kingdom, Option.getD_some] at new
        exact .inr ⟨bit, new⟩
    | inr old => exact .inl old
  · exact .inl member

theorem recorded_receive {s : State} (h : Recorded s) (item : TableItem) :
    Recorded (receive s item) := by
  obtain ⟨r, frame⟩ := receive_frame s item
  rw [frame]
  constructor
  · intro k
    simp only [BridgeState.addReceivedItem_receivedItems, List.map_append, List.sum_append,
      List.map_singleton, List.sum_singleton, ← h.moons k]
    exact (Mirror.counters_addReceivedItem s.bridge item.evt k).1
  · intro k member
    cases keys_addReceivedItem s.bridge item member with
    | inl old => exact h.known k old
    | inr new => exact new
  · simp only [BridgeState.addReceivedItem_pay]
    exact h.pay

/-- Unless a push is still to come, the Switch will hold the balances derived now. -/
structure Synced (festival : Bool) (s : State) : Prop where
  recorded : Recorded s
  shown : s.connected = true → s.replay ≠ .outstanding →
    (∀ batch ∈ s.batches, batch.moonReceived = false) → Shown festival s

/-- A batch that goes on with no less to report. -/
theorem pending_of_set {batches : List Batch} {k : ℕ} {batch batch' : Batch}
    (here : batches[k]? = some batch) (keeps : batch'.moonReceived = false → batch.moonReceived = false)
    (none_pending : ∀ b ∈ batches.set k batch', b.moonReceived = false) :
    batch'.moonReceived = false ∧ ∀ b ∈ batches, b.moonReceived = false := by
  obtain ⟨within, rfl⟩ := List.getElem?_eq_some_iff.1 here
  have done : batch'.moonReceived = false := by
    apply none_pending
    exact List.mem_set within batch'
  refine ⟨done, fun b member => ?_⟩
  obtain ⟨i, bound, rfl⟩ := List.getElem_of_mem member
  by_cases same : k = i
  · subst same
    exact keeps done
  · apply none_pending
    rw [← List.getElem_set_ne same (by simpa using bound)]
    exact List.getElem_mem _

theorem step_synced (festival : Bool) (s : State) (e : Event) (h : Synced festival s) :
    Synced festival (step festival s e) := by
  cases e with
  | receivedItems items =>
      refine ⟨h.recorded.of_eq rfl rfl, fun up quiet none_pending => ?_⟩
      apply (h.shown up quiet _).of_eq rfl (fun _ => rfl) rfl
      intro batch member
      exact none_pending batch (List.mem_append_left _ member)
  | resume k =>
      simp only [step]
      split
      · exact h
      · next item rest moonReceived here =>
          refine ⟨(recorded_receive h.recorded item).of_eq rfl rfl, fun up quiet none_pending => ?_⟩
          obtain ⟨r, frame⟩ := receive_frame s item
          have keeps : (moonReceived || item.isMoon) = false → moonReceived = false :=
            fun off => (Bool.or_eq_false_iff.1 off).1
          obtain ⟨off, others⟩ := pending_of_set here keeps none_pending
          have other := (Bool.or_eq_false_iff.1 off).2
          have same_replay : (receive s item).replay = s.replay := by rw [frame]
          have same_connected : (receive s item).connected = s.connected := by rw [frame]
          have before := h.shown (same_connected ▸ up) (same_replay ▸ quiet) others
          apply before.of_eq
          · simp only [frame]
          · intro bit
            have credit := lifetimeReceived_receive s item bit
            rw [moonCredit_eq_zero other] at credit
            exact credit
          · exact view_receive s item
      · next moonReceived here =>
          cases moonReceived with
          | true =>
              obtain ⟨r, frame⟩ := push_frame festival s
              refine ⟨h.recorded.of_eq (by simp [frame]) (by simp [frame]), fun up _ _ => ?_⟩
              have still_up : s.connected = true := by
                simpa [frame] using up
              exact (push_shown festival h.recorded still_up).of_eq rfl (fun _ => rfl) rfl
          | false =>
              refine ⟨h.recorded.of_eq rfl rfl, fun up quiet none_pending => ?_⟩
              obtain ⟨-, others⟩ := pending_of_set here (fun _ => rfl) none_pending
              exact (h.shown up quiet others).of_eq rfl (fun _ => rfl) rfl
  | resumeReplay =>
      simp only [step]
      split
      · obtain ⟨r, frame⟩ := push_frame festival s
        refine ⟨h.recorded.of_eq (by simp [frame]) (by simp [frame]), fun up _ _ => ?_⟩
        have still_up : s.connected = true := by
          simpa [frame] using up
        exact (push_shown festival h.recorded still_up).of_eq rfl (fun _ => rfl) rfl
      · exact h
      · next evt left here =>
          obtain ⟨r, frame⟩ := send_frame s (.item evt)
          refine ⟨h.recorded.of_eq (by simp [frame]) (by simp [frame]), fun up _ none_pending => ?_⟩
          have still_up : s.connected = true := by
            simpa [frame] using up
          have past : s.replay ≠ .outstanding := by
            rw [here]
            exact fun same => Replay.noConfusion same
          have others : ∀ batch ∈ s.batches, batch.moonReceived = false := by
            simpa [frame] using none_pending
          have before := h.shown still_up past others
          apply before.of_eq
          · simp [frame]
          · simp [frame, lifetimeReceived]
          · exact view_send_item s evt
  | paySnapshot payShineNum =>
      simp only [step]
      split_ifs
      · exact ⟨h.recorded.of_eq rfl rfl, h.shown⟩
      · exact h
  | bridgeReads =>
      simp only [step]
      split
      · exact h
      · next pay rest here =>
          have read : Recorded (applyPaySnapshot { s with toBridge := rest } pay) :=
            ⟨h.recorded.moons, h.recorded.known, rfl⟩
          obtain ⟨r, frame⟩ := push_frame festival (applyPaySnapshot { s with toBridge := rest } pay)
          refine ⟨read.of_eq (by rw [frame]) (by rw [frame]), fun up _ _ => ?_⟩
          apply push_shown festival read
          simpa [frame] using up
  | switchReads =>
      refine ⟨h.recorded.of_eq rfl rfl, fun up quiet none_pending => ?_⟩
      have before := h.shown up quiet none_pending
      exact before.of_eq (t := step festival s .switchReads) rfl (fun _ => rfl)
        (Receiver.view_process applyMsg s.switch)
  | disconnect => exact ⟨h.recorded.of_eq rfl rfl, fun up => absurd up Bool.false_ne_true⟩
  | restart => exact ⟨h.recorded.of_eq rfl rfl, fun up => absurd up Bool.false_ne_true⟩
  | hello payShineNum => exact ⟨h.recorded.of_eq rfl rfl, fun _ quiet => absurd rfl quiet⟩

theorem synced_start (festival : Bool) : Synced festival {} := by
  refine ⟨⟨fun _ => rfl, ?_, rfl⟩, fun up => absurd up Bool.false_ne_true⟩
  intro k member
  cases member

theorem run_synced (festival : Bool) (events : List Event) :
    Synced festival (run (step festival) {} events) :=
  invariant_run (step_synced festival) (synced_start festival) events

/-- With everything delivered, the Switch holds the moons received less those paid. -/
theorem moon_balance_agrees (festival : Bool) (events : List Event) {pay : Reading}
    (settled : Settled (run (step festival) {} events))
    (reading : (run (step festival) {} events).lastReading = some pay)
    (bounded : ∀ bit, lifetimeReceived (run (step festival) {} events) bit < 2 ^ 31) (bit : Fin 17) :
    (run (step festival) {} events).switch.state bit =
      if festival ∧ apKingdom bit ∈ festivalZeroedKingdoms then 0
      else max 0 ((lifetimeReceived (run (step festival) {} events) bit : ℤ) - pay.get bit) := by
  have h := run_synced festival events
  have past : (run (step festival) {} events).replay ≠ .outstanding := by
    rw [settled.replay]
    exact fun same => Replay.noConfusion same
  have shown := h.shown settled.connected past (fun batch member => (settled.batches batch member).2)
    pay reading bit
  have small := bounded bit
  rw [Receiver.view_of_arrived applyMsg settled.inFlight, wireCount_of_lt] at shown
  · rw [shown, balance]
    split_ifs
    · rfl
    · omega
  · rw [balance]
    split_ifs <;> omega

def zeroReading : Reading := buildPaySnapshot fun _ => 0

/-- A moon of the Cascade Kingdom. -/
def cascadeMoon (shineId : String) : TableItem where
  evt := { item := { kind := ItemKind.moon.value, kingdom := some "Cascade", shineId := some shineId } }
  named _ := ⟨1, rfl⟩

/-- A reading, a Multi-Moon, a reading after a deposit of two. -/
def depositOfTwo : List Event :=
  [.hello (some fun _ => 0), .resumeReplay, .bridgeReads,
    .receivedItems [cascadeMoon "Multi-Moon"], .resume 0, .resume 0,
    .paySnapshot fun bit => if bit = 1 then 2 else 0, .bridgeReads,
    .switchReads, .switchReads, .switchReads, .switchReads]

theorem moon_balance_agrees_depositOfTwo :
    (run (step false) {} depositOfTwo).switch.state 1 = 1 :=
  (moon_balance_agrees false depositOfTwo ⟨rfl, by decide +kernel, rfl, rfl, rfl⟩
    (show (run (step false) {} depositOfTwo).lastReading =
      some (buildPaySnapshot fun bit => if bit = 1 then 2 else 0) from rfl)
    (by decide +kernel) 1).trans (by decide +kernel)

/-! ## More moons than a count can hold -/

/-- Multi-Moons received while the Switch is away. -/
def flood (n : ℕ) : List Event :=
  [.hello (some fun _ => 0), .resumeReplay, .bridgeReads, .disconnect,
      .receivedItems (List.replicate n (cascadeMoon "Multi-Moon"))] ++
    (List.replicate (n + 1) (.resume 0) ++ [.hello none, .resumeReplay, .switchReads])

/-- A batch that is handled while the Switch is away. -/
theorem run_resume_offline (s : State) (off : s.connected = false) (item : TableItem) (n : ℕ)
    (moonReceived : Bool) (batch : s.batches = [⟨List.replicate n item, moonReceived⟩]) :
    run (step false) s (List.replicate (n + 1) (.resume 0)) =
      { s with
        bridge := (fun b => b.addReceivedItem item.evt)^[n] s.bridge
        batches := [⟨[], false⟩] } := by
  have no_send (s : State) (off : s.connected = false) (msg : Msg) : send s msg = s := by
    rw [send, off]
    rfl
  induction n generalizing s moonReceived with
  | zero =>
      have no_push : push false s = s := by
        rw [push]
        split
        · rfl
        · exact no_send s off _
      simp only [List.replicate, run_cons, run_nil, step, batch, List.getElem?_cons_zero]
      rw [no_push, ite_self]
      rfl
  | succ n ih =>
      have received : receive s item = { s with bridge := s.bridge.addReceivedItem item.evt } := by
        rw [receive]
        split_ifs
        · rfl
        · exact no_send { s with bridge := s.bridge.addReceivedItem item.evt } off _
      rw [List.replicate_succ, run_cons, ih _ _ (moonReceived || item.isMoon)]
      · simp only [step, batch, List.replicate_succ, List.getElem?_cons_zero, received]
        rfl
      · simp only [step, batch, List.replicate_succ, List.getElem?_cons_zero, received]
        rfl
      · simp only [step, batch, List.replicate_succ, List.getElem?_cons_zero, received]
        exact off

theorem iterate_receivedItems (b : BridgeState) (evt : ItemEvent) (n : ℕ) :
    ((fun b => b.addReceivedItem evt)^[n] b).receivedItems =
      b.receivedItems ++ List.replicate n evt := by
  induction n generalizing b with
  | zero => simp
  | succ n ih =>
      rw [Function.iterate_succ_apply, ih, BridgeState.addReceivedItem_receivedItems,
        List.append_assoc, List.replicate_succ]
      rfl

theorem iterate_pay (b : BridgeState) (evt : ItemEvent) (n : ℕ) :
    ((fun b => b.addReceivedItem evt)^[n] b).payShineNumByKingdom = b.payShineNumByKingdom := by
  induction n generalizing b with
  | zero => rfl
  | succ n ih => rw [Function.iterate_succ_apply, ih, BridgeState.addReceivedItem_pay]

/-- The replay to a Switch that has read nothing yet. -/
theorem replay_settles {s : State} {pay : Dict String ℕ}
    (reading : s.bridge.payShineNumByKingdom = some pay) (batches : s.batches = [⟨[], false⟩])
    (moons : ∀ evt ∈ s.bridge.receivedItems, evt.item.kind = ItemKind.moon.value) :
    Settled (run (step false) s [.hello none, .resumeReplay, .switchReads]) ∧
      (run (step false) s [.hello none, .resumeReplay, .switchReads]).bridge = s.bridge ∧
      (run (step false) s [.hello none, .resumeReplay, .switchReads]).lastReading = s.lastReading := by
  have no_items : s.bridge.receivedItems.filter
      (fun evt => evt.item.kind ≠ ItemKind.moon.value) = [] := by
    rw [List.filter_eq_nil_iff]
    intro evt member other
    exact of_decide_eq_true other (moons evt member)
  have computed : s.bridge.computeOutstanding =
      some (BridgeState.withPaid (BridgeState.receivedBalances s.bridge.moonsReceivedByKingdom pay)
        pay.keys) := by
    rw [BridgeState.computeOutstanding, reading, Option.map_some]
  simp only [run_cons, run_nil, step, lose, push, computed, no_items, send, if_true]
  refine ⟨⟨rfl, ?_, rfl, rfl, rfl⟩, trivial, trivial⟩
  rw [batches]
  intro batch member
  rw [List.mem_singleton.1 member]
  exact ⟨rfl, rfl⟩

theorem flood_settled (n : ℕ) :
    Settled (run (step false) {} (flood n)) ∧
      (run (step false) {} (flood n)).lastReading = some zeroReading ∧
      lifetimeReceived (run (step false) {} (flood n)) 1 = n * 3 := by
  let away := run (step false) {} [.hello (some fun _ => 0), .resumeReplay, .bridgeReads, .disconnect,
      .receivedItems (List.replicate n (cascadeMoon "Multi-Moon"))]
  have back := run_resume_offline away rfl (cascadeMoon "Multi-Moon") n false rfl
  have items := iterate_receivedItems away.bridge (cascadeMoon "Multi-Moon").evt n
  have pay := iterate_pay away.bridge (cascadeMoon "Multi-Moon").evt n
  have ended : run (step false) {} (flood n) =
      run (step false) (run (step false) away (List.replicate (n + 1) (.resume 0)))
        [.hello none, .resumeReplay, .switchReads] := by
    rw [flood, run_append, run_append]
  rw [ended, back]
  have reading : ((fun b => b.addReceivedItem (cascadeMoon "Multi-Moon").evt)^[n]
      away.bridge).payShineNumByKingdom = some (paySnapshotTotals (paySnapshotEntries zeroReading)) :=
    pay.trans rfl
  obtain ⟨settled, bridge, last⟩ := replay_settles (s := { away with
      bridge := (fun b => b.addReceivedItem (cascadeMoon "Multi-Moon").evt)^[n] away.bridge
      batches := [⟨[], false⟩] }) reading rfl (by
    intro evt member
    rw [items] at member
    rw [List.eq_of_mem_replicate (show evt ∈ List.replicate n _ from member)]
    rfl)
  refine ⟨settled, last.trans rfl, ?_⟩
  have received : (List.map (BridgeState.moonCredit (apKingdom 1))
      (List.replicate n (cascadeMoon "Multi-Moon").evt)).sum = n * 3 := by
    have worth : BridgeState.moonCredit (apKingdom 1) (cascadeMoon "Multi-Moon").evt = 3 := by
      decide
    rw [List.map_replicate, worth, List.sum_replicate_nat]
  rw [lifetimeReceived, bridge, items]
  exact received

/-- From `2 ^ 31` moons on the count that the Switch reads is below zero. -/
theorem flooded_balance :
    Settled (run (step false) {} (flood 715827883)) ∧
      (run (step false) {} (flood 715827883)).lastReading = some zeroReading ∧
      (run (step false) {} (flood 715827883)).switch.state 1 ≠
        max 0 ((lifetimeReceived (run (step false) {} (flood 715827883)) 1 : ℤ) -
          zeroReading.get 1) := by
  obtain ⟨settled, reading, received⟩ := flood_settled 715827883
  refine ⟨settled, reading, ?_⟩
  have past : (run (step false) {} (flood 715827883)).replay ≠ .outstanding := by
    rw [settled.replay]
    exact fun same => Replay.noConfusion same
  have shown := (run_synced false (flood 715827883)).shown settled.connected past
    (fun batch member => (settled.batches batch member).2) zeroReading reading 1
  rw [Receiver.view_of_arrived applyMsg settled.inFlight, balance, received,
    if_neg fun h => Bool.false_ne_true h.1] at shown
  have wrapped : wireCount (715827883 * 3 - zeroReading.get 1) = 0 := by decide
  have unpaid : zeroReading.get 1 = 0 := by decide
  rw [shown, wrapped, received, unpaid]
  decide

end SmoArchipelago.Bridge.MoonBalance
