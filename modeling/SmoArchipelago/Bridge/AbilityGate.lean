import SmoArchipelago.Library.Receiver
import SmoArchipelago.Bridge.AbilityCoins
import SmoArchipelago.Bridge.EventLoop
import SmoArchipelago.Bridge.Wire
import SmoArchipelago.Switch.ReplayLine

/-! # The ability gate of the Switch

The Connected handler stores whether abilities are gated, receipts raise the counts, and
every change is followed by a push of the whole table. A push with nothing received and the
gate enforced is left out: the Switch is taken to be as it was at boot. Whatever raises in a
handler before its push takes the push with it.

## Implementation notes

A handler is the list of what it has still to do between its awaits, and may be ended by an
exception at any of them: a replay is, where its `checked_replay` is longer than a line. The
table of a Switch outlives its connection and ends with the game. The counts are in the range
of an `int`. -/

namespace SmoArchipelago.Bridge.AbilityGate

open Library Runs Switch ApProtocol
open Switch.Outbound (kInboundLineCap)

/-- What a handler does between two awaits. -/
inductive Job where
  | receive (batch : List AbilityReceipt)
  | push
  deriving DecidableEq

structure State where
  bridge : BridgeState := {}
  abilitysanityEnabled : Bool := true
  /-- The abilities received since the slot was entered. -/
  received : List String := []
  tasks : List (List Job) := []
  /-- The device whose connection is the active one. -/
  active : Option ℕ := none
  switches : ℕ → Receiver AbilityTable AbilityStateMsg := fun _ => { state := {} }

inductive Event where
  | connected (slot : String) (abilitysanity : Bool)
  | receivedItems (batches : List (List AbilityReceipt))
  | resume (k : ℕ)
  /-- An exception ends a handler. -/
  | raises (k : ℕ)
  /-- A connection becomes the active one, with its replay. -/
  | activate (device : ℕ)
  | process (device : ℕ)
  | disconnect (device : ℕ)
  /-- The game of a device that is not active starts again. -/
  | restart (device : ℕ)
  /-- The active device connects again before the end of its old stream is read; it is not
  replayed to. -/
  | reconnect (restarted : Bool)

def State.modifySwitch (s : State) (device : ℕ)
    (f : Receiver AbilityTable AbilityStateMsg → Receiver AbilityTable AbilityStateMsg) : State :=
  { s with switches := Function.update s.switches device (f (s.switches device)) }

theorem switches_modifySwitch (s : State) (device : ℕ)
    (f : Receiver AbilityTable AbilityStateMsg → Receiver AbilityTable AbilityStateMsg) (d : ℕ) :
    (s.modifySwitch device f).switches d =
      if d = device then f (s.switches device) else s.switches d :=
  Function.update_apply _ _ _ _

/-- The Switch's end of an `ability_state` message; a line that overflows the read buffer is lost. -/
def applyMsg (t : AbilityTable) (msg : AbilityStateMsg) : AbilityTable :=
  if (WireMsg.abilityState msg).lineSize < kInboundLineCap then
    (applyAbilityState msg.decoded msg.enforce t).1
  else t

/-- `push_ability_state`; a line that is too long raises. -/
def push (s : State) : State :=
  match abilityStateMsg s.abilitysanityEnabled s.bridge, s.active with
  | some msg, some device =>
      if (encode (.abilityState msg)).isSome then s.modifySwitch device fun r => r.send msg else s
  | _, _ => s

def receive (s : State) (batch : List AbilityReceipt) : State :=
  { s with
    bridge := batch.foldl BridgeState.receive s.bridge
    received := s.received ++ batch.filterMap AbilityReceipt.ability }

def act (s : State) : Job → State
  | .receive batch => receive s batch
  | .push => push s

/-- The receipts after which `_process_received_items` pushes the table. -/
def pushesTable : AbilityReceipt → Bool
  | .item evt => evt.item.kind = ItemKind.ability.value
  | .bonus _ => true

/-- The handler of a ReceivedItems packet. -/
def receivedItemsJobs (batches : List (List AbilityReceipt)) : List Job :=
  batches.map .receive ++
    if batches.any fun batch => batch.any pushesTable then [.push] else []

def connected (s : State) (slot : String) (abilitysanity : Bool) : State :=
  let changed : Bool := SlotChanged s.bridge.slot slot
  { s with
    bridge := { (if changed then s.bridge.clearReceived else s.bridge) with slot := slot }
    received := if changed then [] else s.received
    abilitysanityEnabled := abilitysanity
    tasks := s.tasks ++ [[.push]] }

def step (s : State) : Event → State
  | .connected slot abilitysanity => connected s slot abilitysanity
  | .receivedItems batches => { s with tasks := s.tasks ++ [receivedItemsJobs batches] }
  | .resume k =>
      match s.tasks[k]? with
      | some (job :: rest) => { act s job with tasks := s.tasks.set k rest }
      | some [] | none => s
  | .raises k => { s with tasks := s.tasks.set k [] }
  | .activate device => { s with active := some device, tasks := s.tasks ++ [[.push]] }
  | .process device => s.modifySwitch device (·.process applyMsg)
  | .disconnect device =>
      { s.modifySwitch device (·.lose) with
        active := if s.active = some device then none else s.active }
  | .restart device =>
      if s.active = some device then s else s.modifySwitch device fun _ => { state := {} }
  | .reconnect restarted =>
      match s.active with
      | some device =>
          s.modifySwitch device fun r => if restarted then { state := {} } else r.lose
      | none => s

/-- The handlers have finished and the active Switch has processed its messages. -/
def Settled (s : State) : Prop :=
  (∀ jobs ∈ s.tasks, jobs = []) ∧ ∀ device ∈ s.active, (s.switches device).inFlight = []

instance (s : State) : Decidable (Settled s) :=
  inferInstanceAs (Decidable ((∀ jobs ∈ s.tasks, jobs = []) ∧
    ∀ device ∈ s.active, (s.switches device).inFlight = []))

/-- The table holds these counts under their whole names, and nothing else. -/
def Shows (t : AbilityTable) (counts : Dict String ℕ) : Prop :=
  t.abilityTable.map (fun e => (e.ability.bytes, e.count)) =
    (sortedCounts counts).map fun e => (e.1.toUTF8.data.toList, (e.2 : ℤ))

/-- A Switch has the bridge's view. -/
structure Agrees (counts : Dict String ℕ) (abilitysanityEnabled : Bool) (t : AbilityTable) :
    Prop where
  table : Shows t counts
  gate : t.abilityGateDisabled = !abilitysanityEnabled

def GateAgrees (s : State) : Prop :=
  ∀ device ∈ s.active,
    Agrees s.bridge.getAbilityCounts s.abilitysanityEnabled (s.switches device).state

/-- The counts are those of the slot's own receipts. -/
def CountsOfSlot (s : State) : Prop :=
  ∀ name, s.bridge.getAbilityCounts.getD name 0 = s.received.count name

/-- The names have a place in the table and fit their fields, and their line is read. -/
structure Fits (counts : Dict String ℕ) (enforce : Bool) : Prop where
  room : counts.keys.length ≤ kAbilityTableMax
  names : ∀ name ∈ counts.keys, (wireName name).bytes = name.toUTF8.data.toList
  line : (WireMsg.abilityState ⟨sortedCounts counts, enforce⟩).lineSize < kInboundLineCap

/-- As at boot. -/
def Blank (t : AbilityTable) : Prop := t.abilityTable = [] ∧ t.abilityGateDisabled = false

instance (counts : Dict String ℕ) (enforce : Bool) : Decidable (Fits counts enforce) :=
  decidable_of_iff (counts.keys.length ≤ kAbilityTableMax ∧
      (∀ name ∈ counts.keys, (wireName name).bytes = name.toUTF8.data.toList) ∧
      (WireMsg.abilityState ⟨sortedCounts counts, enforce⟩).lineSize < kInboundLineCap)
    ⟨fun h => ⟨h.1, h.2.1, h.2.2⟩, fun h => ⟨h.room, h.names, h.line⟩⟩

instance (t : AbilityTable) : Decidable (Blank t) := inferInstanceAs (Decidable (_ ∧ _))

instance (counts : Dict String ℕ) (abilitysanityEnabled : Bool) (t : AbilityTable) :
    Decidable (Agrees counts abilitysanityEnabled t) :=
  decidable_of_iff (t.abilityTable.map (fun e => (e.ability.bytes, e.count)) =
      ((sortedCounts counts).map fun e => (e.1.toUTF8.data.toList, (e.2 : ℤ))) ∧
      t.abilityGateDisabled = !abilitysanityEnabled)
    ⟨fun h => ⟨h.1, h.2⟩, fun h => ⟨h.table, h.gate⟩⟩

/-- A push sends a table that fits, or is left out where the active Switch, once it has
processed its messages, is as at boot. A handler is not ended before its push, unless another
push is to come or the active Switch will have the bridge's view anyway. A reconnect without a
replay loses nothing. -/
def Informs (s : State) : Event → Prop
  | .resume k =>
      (s.tasks[k]?.bind List.head?) = some .push →
        Fits s.bridge.getAbilityCounts s.abilitysanityEnabled ∧
          ((abilityStateMsg s.abilitysanityEnabled s.bridge).isNone →
            ∀ device ∈ s.active, Blank ((s.switches device).view applyMsg))
  | .raises k =>
      (∃ jobs ∈ s.tasks[k]?, .push ∈ jobs) →
        (∃ jobs ∈ s.tasks.set k [], .push ∈ jobs) ∨ ∀ device ∈ s.active,
          Agrees s.bridge.getAbilityCounts s.abilitysanityEnabled ((s.switches device).view applyMsg)
  | .reconnect restarted =>
      ∀ device ∈ s.active, restarted = false ∧ (s.switches device).inFlight = []
  | .connected _ _ | .receivedItems _ | .activate _ | .process _ | .disconnect _ | .restart _ =>
      True

instance (s : State) : ∀ e, Decidable (Informs s e)
  | .resume _ => inferInstanceAs (Decidable (_ → _ ∧ (_ → ∀ device ∈ s.active, Blank _)))
  | .raises k => inferInstanceAs (Decidable ((∃ jobs ∈ s.tasks[k]?, .push ∈ jobs) →
      (∃ jobs ∈ s.tasks.set k [], .push ∈ jobs) ∨ ∀ device ∈ s.active,
        Agrees s.bridge.getAbilityCounts s.abilitysanityEnabled ((s.switches device).view applyMsg)))
  | .reconnect _ => inferInstanceAs (Decidable (∀ device ∈ s.active, _ ∧ _))
  | .connected _ _ | .receivedItems _ | .activate _ | .process _ | .disconnect _ | .restart _ =>
      isTrue trivial

/-- A slot is left before its first ability. -/
def LeavesEarly (s : State) : Event → Prop
  | .connected slot _ => SlotChanged s.bridge.slot slot → s.bridge.getAbilityCounts.entries = []
  | .receivedItems _ | .resume _ | .raises _ | .activate _ | .process _ | .disconnect _
  | .restart _ | .reconnect _ => True

instance (s : State) : ∀ e, Decidable (LeavesEarly s e)
  | .connected _ _ => inferInstanceAs (Decidable (_ → _ = _))
  | .receivedItems _ | .resume _ | .raises _ | .activate _ | .process _ | .disconnect _
  | .restart _ | .reconnect _ => isTrue trivial

/-! ## One push -/

theorem applyMsg_fits {counts : Dict String ℕ} {enforce : Bool} (fits : Fits counts enforce)
    (t : AbilityTable) : applyMsg t ⟨sortedCounts counts, enforce⟩ =
      (applyAbilityState (AbilityStateMsg.decoded ⟨sortedCounts counts, enforce⟩) enforce t).1 := by
  rw [applyMsg, if_pos fits.line]

theorem shows_applied {counts : Dict String ℕ} {enforce : Bool} (fits : Fits counts enforce)
    (t : AbilityTable) : Shows (applyMsg t ⟨sortedCounts counts, enforce⟩) counts := by
  have short : (sortedCounts counts).length ≤ kAbilityTableMax := by
    rw [sortedCounts, List.length_insertionSort, ← List.length_map Prod.fst]
    exact fits.room
  have table : (applyMsg t ⟨sortedCounts counts, enforce⟩).abilityTable =
      AbilityCoins.tableOf counts := by
    rw [applyMsg_fits fits]
    exact AbilityCoins.decoded_take counts enforce
  rw [Shows, table, AbilityCoins.tableOf, List.take_of_length_le short, List.map_map]
  apply List.map_congr_left
  intro e member
  have received : e.1 ∈ counts.keys := List.mem_map_of_mem (mem_sortedCounts.1 member)
  exact Prod.ext (fits.names e.1 received) rfl

theorem shows_blank {t : AbilityTable} (blank : t.abilityTable = []) {counts : Dict String ℕ}
    (none_received : counts.entries = []) : Shows t counts := by
  rw [Shows, blank, sortedCounts, none_received]
  rfl

/-- What a push leaves alone. -/
theorem push_frame (s : State) : (push s).bridge = s.bridge ∧ (push s).active = s.active ∧
    (push s).abilitysanityEnabled = s.abilitysanityEnabled ∧ (push s).received = s.received ∧
      (push s).tasks = s.tasks := by
  rw [push]
  split
  · split_ifs <;> exact ⟨rfl, rfl, rfl, rfl, rfl⟩
  · exact ⟨rfl, rfl, rfl, rfl, rfl⟩

/-- After a push that informs, the active Switch will agree. -/
theorem push_agrees {s : State} (fits : Fits s.bridge.getAbilityCounts s.abilitysanityEnabled)
    (left_out : (abilityStateMsg s.abilitysanityEnabled s.bridge).isNone →
      ∀ device ∈ s.active, Blank ((s.switches device).view applyMsg)) {device : ℕ}
    (active : device ∈ s.active) :
    Agrees s.bridge.getAbilityCounts s.abilitysanityEnabled
      (((push s).switches device).view applyMsg) := by
  rw [push, Option.mem_def.1 active]
  cases made : abilityStateMsg s.abilitysanityEnabled s.bridge with
  | none =>
      have blank := left_out (by rw [made]; rfl) device active
      rw [abilityStateMsg] at made
      split_ifs at made with quiet
      constructor
      · exact shows_blank blank.1 quiet.2
      · rw [quiet.1]
        exact blank.2
  | some msg =>
      rw [abilityStateMsg] at made
      split_ifs at made
      obtain rfl := Option.some.inj made
      have encodes : (encode (.abilityState
          ⟨sortedCounts s.bridge.getAbilityCounts, s.abilitysanityEnabled⟩)).isSome = true := by
        rw [encode_isSome, size_toWire]
        exact fits.line.le
      simp only [encodes, if_true]
      rw [switches_modifySwitch, if_pos rfl, Receiver.view_send]
      constructor
      · exact shows_applied fits _
      · rw [applyMsg_fits fits]
        rfl

/-! ## Every step -/

/-- A handler ends with a push or receives no ability. -/
def Shaped (jobs : List Job) : Prop :=
  ∃ batches : List (List AbilityReceipt), jobs = batches.map .receive ++ [.push] ∨
    jobs = batches.map .receive ∧ ∀ batch ∈ batches, batch.filterMap AbilityReceipt.ability = []

/-- Unless a push is still to come, the active Switch will have the bridge's view. -/
structure Synced (s : State) : Prop where
  shape : ∀ jobs ∈ s.tasks, Shaped jobs
  agrees : (∀ jobs ∈ s.tasks, .push ∉ jobs) →
    ∀ device ∈ s.active, Agrees s.bridge.getAbilityCounts s.abilitysanityEnabled
      ((s.switches device).view applyMsg)

theorem Synced.settled {s : State} (h : Synced s) (settled : Settled s) : GateAgrees s := by
  intro device active
  have arrived := settled.2 device active
  rw [← Receiver.view_of_arrived applyMsg arrived]
  apply h.agrees _ device active
  intro jobs member pending
  rw [settled.1 jobs member] at pending
  cases pending

/-- A new handler that is to push. -/
theorem Synced.spawn {s s' : State} (h : Synced s) {jobs : List Job} (pushes : .push ∈ jobs)
    (shaped : Shaped jobs) (tasks : s'.tasks = s.tasks ++ [jobs]) : Synced s' := by
  constructor
  · intro jobs' member
    rw [tasks] at member
    apply (List.mem_append.1 member).elim
    · exact h.shape jobs'
    · intro new
      rw [List.mem_singleton.1 new]
      exact shaped
  · intro none_pending
    have new : jobs ∈ s'.tasks := by
      rw [tasks]
      exact List.mem_append_right _ (List.mem_singleton_self jobs)
    exact absurd pushes (none_pending jobs new)

/-- Nothing that the active Switch is to show has changed. -/
theorem Synced.same {s t : State} (h : Synced s) (tasks : t.tasks = s.tasks)
    (counts : t.bridge.getAbilityCounts = s.bridge.getAbilityCounts)
    (enabled : t.abilitysanityEnabled = s.abilitysanityEnabled)
    (view : ∀ device ∈ t.active, device ∈ s.active ∧
      (t.switches device).view applyMsg = (s.switches device).view applyMsg) : Synced t := by
  constructor
  · rw [tasks]
    exact h.shape
  · intro none_pending device active
    rw [tasks] at none_pending
    obtain ⟨was_active, same⟩ := view device active
    rw [same, counts, enabled]
    exact h.agrees none_pending device was_active

theorem receive_counts_same (s : BridgeState) {batch : List AbilityReceipt}
    (none_here : batch.filterMap AbilityReceipt.ability = []) :
    (batch.foldl BridgeState.receive s).getAbilityCounts = s.getAbilityCounts := by
  induction batch generalizing s with
  | nil => rfl
  | cons r batch ih =>
      rw [List.filterMap_cons] at none_here
      split at none_here
      · next other =>
          have same := AbilityCoins.receive_abilities s r
          rw [other] at same
          rw [List.foldl_cons, ih (s.receive r) none_here]
          exact same
      · cases none_here

theorem shaped_push : Shaped [.push] := ⟨[], .inl rfl⟩

theorem receivedItemsJobs_shaped (batches : List (List AbilityReceipt)) :
    Shaped (receivedItemsJobs batches) := by
  refine ⟨batches, ?_⟩
  rw [receivedItemsJobs]
  split_ifs with some_pushes
  · exact .inl rfl
  · refine .inr ⟨List.append_nil _, fun batch member => ?_⟩
    rw [List.filterMap_eq_nil_iff]
    intro r here
    by_contra ability
    have pushes : pushesTable r = true := by
      cases r with
      | bonus name => rfl
      | item evt =>
          rw [AbilityReceipt.ability] at ability
          split_ifs at ability with kind
          · exact decide_eq_true kind.1
          · exact absurd rfl ability
    exact some_pushes (List.any_eq_true.2 ⟨batch, member, List.any_eq_true.2 ⟨r, here, pushes⟩⟩)

/-- The first job of a handler, and what it leaves. -/
theorem Shaped.cases {job : Job} {rest : List Job} (shaped : Shaped (job :: rest)) :
    job = .push ∧ rest = [] ∨
      ∃ batch, job = .receive batch ∧ Shaped rest ∧
        (.push ∈ rest ∨ batch.filterMap AbilityReceipt.ability = []) := by
  obtain ⟨batches, ends | ⟨same, quiet⟩⟩ := shaped
  · cases batches with
    | nil =>
        obtain ⟨first, last⟩ := List.cons.inj ends
        exact .inl ⟨first, last⟩
    | cons batch batches =>
        obtain ⟨first, later⟩ := List.cons.inj ends
        refine .inr ⟨batch, first, ⟨batches, .inl later⟩, .inl ?_⟩
        rw [later]
        exact List.mem_append_right _ (List.mem_singleton_self _)
  · cases batches with
    | nil => cases same
    | cons batch batches =>
        obtain ⟨first, later⟩ := List.cons.inj same
        refine .inr ⟨batch, first, ⟨batches, .inr ⟨later, ?_⟩⟩, .inr ?_⟩
        · exact fun other member => quiet other (List.mem_cons_of_mem batch member)
        · exact quiet batch List.mem_cons_self

/-- What is listed is still listed, unless it stood where something new stands now. -/
theorem mem_set_or_at {α : Type*} {xs : List α} {z : α} (member : z ∈ xs) (k : ℕ) (y : α) :
    z ∈ xs.set k y ∨ xs[k]? = some z := by
  obtain ⟨j, at_j⟩ := List.mem_iff_getElem?.1 member
  by_cases same : j = k
  · rw [same] at at_j
    exact .inr at_j
  · refine .inl (List.mem_iff_getElem?.2 ⟨j, ?_⟩)
    rw [List.getElem?_set_ne (Ne.symm same)]
    exact at_j

/-- The rest of a handler in place of the whole. -/
theorem shaped_set {tasks : List (List Job)} (shape : ∀ jobs ∈ tasks, Shaped jobs) {k : ℕ}
    {rest : List Job} (shaped : Shaped rest) : ∀ jobs ∈ tasks.set k rest, Shaped jobs := by
  intro jobs member
  apply (List.mem_or_eq_of_mem_set member).elim
  · exact shape jobs
  · rintro rfl
    exact shaped

/-- Where another handler or the rest of this one is to push, nothing is claimed. -/
theorem Synced.resume {s : State} (h : Synced s) {k : ℕ} {job : Job} {rest : List Job}
    (listed : s.tasks[k]? = some (job :: rest)) (good : Informs s (.resume k)) :
    Synced { act s job with tasks := s.tasks.set k rest } := by
  have bound : k < s.tasks.length := (List.getElem?_eq_some_iff.1 listed).1
  have here : rest ∈ s.tasks.set k rest := List.mem_iff_getElem?.2 ⟨k, by simp [bound]⟩
  obtain ⟨rfl, rfl⟩ | ⟨batch, rfl, shaped, ends⟩ :=
    (h.shape _ (List.mem_of_getElem? listed)).cases
  · obtain ⟨fits, left_out⟩ := good (by rw [listed]; rfl)
    obtain ⟨bridge, active, enabled, -, -⟩ := push_frame s
    constructor
    · exact shaped_set h.shape ⟨[], .inr ⟨rfl, nofun⟩⟩
    · intro _ device chosen
      simp only [act] at chosen ⊢
      rw [active] at chosen
      rw [bridge, enabled]
      exact push_agrees fits left_out chosen
  · constructor
    · exact shaped_set h.shape shaped
    · intro none_pending device active
      have quiet := ends.resolve_left (none_pending rest here)
      have pending (jobs : List Job) (member : jobs ∈ s.tasks) : .push ∉ jobs := by
        apply (mem_set_or_at member k rest).elim
        · exact none_pending jobs
        · intro at_k now
          rw [listed] at at_k
          obtain rfl := Option.some.inj at_k
          apply (List.mem_cons.1 now).elim
          · exact Job.noConfusion
          · exact none_pending rest here
      have counts : (act s (.receive batch)).bridge.getAbilityCounts = s.bridge.getAbilityCounts :=
        receive_counts_same s.bridge quiet
      have agrees := h.agrees pending device active
      rw [← counts] at agrees
      exact agrees

/-- The end of a handler leaves another push, or an active Switch that will agree. -/
theorem Synced.raises {s : State} (h : Synced s) {k : ℕ} (good : Informs s (.raises k)) :
    Synced { s with tasks := s.tasks.set k [] } := by
  constructor
  · exact shaped_set h.shape ⟨[], .inr ⟨rfl, nofun⟩⟩
  · intro none_pending device active
    by_cases pushed : ∃ jobs ∈ s.tasks[k]?, .push ∈ jobs
    · apply (good pushed).elim
      · rintro ⟨jobs, member, push⟩
        exact absurd push (none_pending jobs member)
      · exact fun agrees => agrees device active
    · apply h.agrees _ device active
      intro jobs member push
      apply (mem_set_or_at member k []).elim
      · exact fun still => none_pending jobs still push
      · exact fun at_k => pushed ⟨jobs, at_k, push⟩

theorem step_synced (s : State) (e : Event) (h : Synced s) (good : Informs s e) :
    Synced (step s e) := by
  cases e with
  | connected slot abilitysanity => exact h.spawn (List.mem_singleton_self _) shaped_push rfl
  | activate device => exact h.spawn (List.mem_singleton_self _) shaped_push rfl
  | raises k => exact h.raises good
  | receivedItems batches =>
      have shaped := receivedItemsJobs_shaped batches
      constructor
      · intro jobs member
        apply (List.mem_append.1 member).elim
        · exact h.shape jobs
        · intro new
          rw [List.mem_singleton.1 new]
          exact shaped
      · intro none_pending
        exact h.agrees fun jobs member => none_pending jobs (List.mem_append_left _ member)
  | process device =>
      refine h.same (t := step s _) rfl rfl rfl fun d active => ?_
      refine ⟨active, ?_⟩
      simp only [step]
      rw [switches_modifySwitch]
      split_ifs with here
      · rw [Receiver.view_process, here]
      · rfl
  | disconnect device =>
      refine h.same (t := step s _) rfl rfl rfl fun d active => ?_
      simp only [step] at active ⊢
      split_ifs at active with here
      · cases active
      · have other : d ≠ device := by
          rintro rfl
          exact here active
        refine ⟨active, ?_⟩
        rw [switches_modifySwitch, if_neg other]
  | restart device =>
      simp only [step]
      split_ifs with here
      · exact h
      · refine h.same (t := s.modifySwitch device _) rfl rfl rfl fun d active => ?_
        have other : d ≠ device := by
          rintro rfl
          exact here active
        refine ⟨active, ?_⟩
        rw [switches_modifySwitch, if_neg other]
  | reconnect restarted =>
      simp only [step]
      cases active : s.active with
      | none => exact h
      | some device =>
          obtain ⟨rfl, arrived⟩ := good device active
          refine h.same (t := s.modifySwitch device _) rfl rfl rfl fun d here => ?_
          refine ⟨here, ?_⟩
          rw [switches_modifySwitch]
          by_cases same : d = device
          · rw [if_pos same, same]
            exact congrArg _ (Receiver.lose_of_arrived arrived)
          · rw [if_neg same]
  | resume k =>
      simp only [step]
      split
      · next job rest listed => exact h.resume listed good
      · exact h
      · exact h

/-! ## Runs -/

theorem step_countsOfSlot (s : State) (e : Event) (h : CountsOfSlot s) (good : LeavesEarly s e) :
    CountsOfSlot (step s e) := by
  cases e with
  | connected slot abilitysanity =>
      intro name
      simp only [step, connected]
      by_cases changed : SlotChanged s.bridge.slot slot
      · have none_received : s.bridge.getAbilityCounts = .empty := Dict.ext (good changed)
        simp only [changed, decide_true, if_true]
        change s.bridge.getAbilityCounts.getD name 0 = _
        rw [none_received]
        rfl
      · simp only [changed, decide_false]
        exact h name
  | receivedItems batches => exact h
  | resume k =>
      simp only [step]
      split
      · next job rest listed =>
          cases job with
          | receive batch =>
              intro name
              have before := h name
              have counted := AbilityCoins.foldl_receive_getD s.bridge batch name
              simp only [act, receive, BridgeState.getAbilityCounts, List.count_append] at before ⊢
              rw [counted, before]
          | push =>
              obtain ⟨bridge, -, -, received, -⟩ := push_frame s
              intro name
              simp only [act, bridge, received]
              exact h name
      · exact h
      · exact h
  | raises k => exact h
  | activate device => exact h
  | process device => exact h
  | disconnect device => exact h
  | restart device =>
      simp only [step]
      split_ifs
      · exact h
      · exact h
  | reconnect restarted =>
      simp only [step]
      split
      · exact h
      · exact h

/-- A Switch connects, a gated slot is entered and two abilities arrive. The Switch is then chosen
again, and its replay raises. -/
def gatedSlot : List Event :=
  [.activate 0, .resume 0, .connected "Mario" true, .resume 1,
    .receivedItems [[.bonus "Wall Slide"], [.bonus "Progressive Crouch"]], .resume 2, .resume 2,
    .resume 2, .process 0, .activate 0, .raises 3]

/-- A slot without gated abilities is left for one with them. -/
def gateOn : List Event :=
  [.activate 0, .resume 0, .connected "Mario" false, .resume 1, .process 0,
    .connected "Luigi" true, .resume 2]

end SmoArchipelago.Bridge.AbilityGate
