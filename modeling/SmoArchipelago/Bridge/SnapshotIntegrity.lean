import SmoArchipelago.Bridge.Registry
import SmoArchipelago.Bridge.Snapshot

/-! # Integrity of snapshots

All connections feed one accumulator, and only the messages of the active device are
taken. What is handed on at the end of a snapshot is compared with what the connection
that ends it has sent since its own last `state_begin`.

## Implementation notes

`arrivals` notes every snapshot message with its connection and with whether it was taken,
the newest first. No message of a snapshot waits before the accumulator is read, so each
is one step; a connection dispatches messages after its replay. -/

namespace SmoArchipelago.Bridge

open Library Runs

/-- The messages of a snapshot; a `_meta` chunk has its own case. -/
inductive StateMsg where
  | stateBegin
  | stateChunk (stageName : String) (shines : List RawShine)
  | stateMeta (captures : List String) (goalReached : Option Bool)
  | stateEnd

namespace StateMsg

def isBegin : StateMsg → Bool
  | stateBegin => true
  | _ => false

def isChunk : StateMsg → Bool
  | stateChunk _ _ | stateMeta _ _ => true
  | _ => false

/-- The entries that a chunk stands for. -/
def entries : StateMsg → List Entry
  | stateChunk stageName shines => shines.map fun s => .moon stageName s.objectId s.shineUid
  | stateMeta captures _ => (captures.filter (· ≠ "")).map .capture
  | stateBegin | stateEnd => []

def goal : StateMsg → Option Bool
  | stateMeta _ goalReached => goalReached
  | _ => none

end StateMsg

/-- The accumulator after a message of the active device. -/
def Collecting.take (c : Collecting) : StateMsg → Collecting
  | .stateBegin => c.beginSnapshot
  | .stateChunk stageName shines => c.addChunkShines stageName shines
  | .stateMeta captures goalReached => c.addChunkMeta captures goalReached
  | .stateEnd => {}

/-- A snapshot message that came in, and whether its device was the active one. -/
structure Arrival where
  conn : ℕ
  msg : StateMsg
  active : Bool

/-- The connection opens a snapshot of its own. -/
def Arrival.begins (conn : ℕ) (a : Arrival) : Bool := a.conn = conn && a.msg.isBegin

/-- A snapshot that is handed on, with the messages that had come in before its end. -/
structure HandedOn where
  conn : ℕ
  log : List Arrival
  entries : List Entry
  goalReached : Bool

/-- The registry with the accumulator that its connections share. -/
structure SharedSnapshot where
  registry : Registry := {}
  collecting : Collecting := {}
  arrivals : List Arrival := []
  handedOn : List HandedOn := []

namespace SharedSnapshot

/-- A handler dispatches messages when its replay is done. -/
def listening (s : SharedSnapshot) (conn : ℕ) : Bool :=
  match (s.registry.conns conn).phase with
  | .starting [] | .main => true
  | _ => false

def isActive (s : SharedSnapshot) (conn : ℕ) : Bool :=
  s.registry.activeDeviceId = some (s.registry.conns conn).deviceId

/-- `_dispatch_from` on a snapshot message, with `_on_state_end` up to what it hands on. -/
def dispatchFrom (s : SharedSnapshot) (conn : ℕ) (msg : StateMsg) : SharedSnapshot :=
  let s' := { s with arrivals := ⟨conn, msg, s.isActive conn⟩ :: s.arrivals }
  if s.isActive conn then
    { s' with
      collecting := s.collecting.take msg
      handedOn :=
        match msg with
        | .stateEnd => s.handedOn ++ [⟨conn, s.arrivals, s.collecting.entries, s.collecting.goal⟩]
        | _ => s.handedOn }
  else s'

inductive Event where
  | registry (e : Registry.Event)
  | message (conn : ℕ) (msg : StateMsg)

def step (clientVer : String) (s : SharedSnapshot) : Event → SharedSnapshot
  | .registry e => { s with registry := s.registry.step clientVer e }
  | .message conn msg => if s.listening conn then s.dispatchFrom conn msg else s

/-! ## What a connection has sent -/

/-- The messages that came in since the last `state_begin` of a connection. -/
def since (conn : ℕ) (log : List Arrival) : List Arrival :=
  log.takeWhile fun a => ! a.begins conn

/-- That `state_begin` and the messages before it. -/
def opening (conn : ℕ) (log : List Arrival) : List Arrival :=
  log.dropWhile fun a => ! a.begins conn

def ownSince (conn : ℕ) (log : List Arrival) : List Arrival :=
  (since conn log).filter (·.conn = conn)

/-- The entries and the goal flag of the chunks that a connection has sent since its last
`state_begin`; the newest chunk comes first in the log. -/
def sentSince (conn : ℕ) (log : List Arrival) : List Entry × Bool :=
  ((ownSince conn log).reverse.flatMap (·.msg.entries),
    ((ownSince conn log).findSome? (·.msg.goal)).getD false)

/-- Every snapshot that was handed on is what its connection has sent. -/
def Intact (s : SharedSnapshot) : Prop :=
  ∀ h ∈ s.handedOn, (h.entries, h.goalReached) = sentSince h.conn h.log

instance (s : SharedSnapshot) : Decidable (Intact s) :=
  inferInstanceAs (Decidable (∀ h ∈ s.handedOn, (h.entries, h.goalReached) = sentSince h.conn h.log))

/-! ## What the accumulator holds -/

/-- The accumulator after the messages that came in. -/
def collect : List Arrival → Collecting
  | [] => {}
  | a :: log => if a.active then (collect log).take a.msg else collect log

/-- The snapshot of a connection was received as one piece: its `state_begin` was taken, of
its messages since only chunks came and all of them were taken, those of the others
were dropped, and its goal flag is its own or none was left before. -/
structure Whole (conn : ℕ) (log : List Arrival) : Prop where
  opened : (opening conn log).head?.any (·.active) = true
  kept : ∀ a ∈ since conn log,
    if a.conn = conn then a.active = true ∧ a.msg.isChunk = true else a.active = false
  goal : (collect (opening conn log).tail).goal = false ∨
    ∃ a ∈ ownSince conn log, a.msg.goal.isSome = true

instance (conn : ℕ) (log : List Arrival) : Decidable (Whole conn log) :=
  decidable_of_iff
    ((opening conn log).head?.any (·.active) = true ∧
      (∀ a ∈ since conn log,
        if a.conn = conn then a.active = true ∧ a.msg.isChunk = true else a.active = false) ∧
      ((collect (opening conn log).tail).goal = false ∨
        ∃ a ∈ ownSince conn log, a.msg.goal.isSome = true))
    ⟨fun h => ⟨h.1, h.2.1, h.2.2⟩, fun h => ⟨h.opened, h.kept, h.goal⟩⟩

/-- What the chunks of one connection make of the accumulator. -/
theorem take_chunk {c : Collecting} (isOpen : c.active = true) {msg : StateMsg}
    (chunk : msg.isChunk = true) :
    c.take msg = ⟨true, c.entries ++ msg.entries, msg.goal.getD c.goal⟩ := by
  cases msg with
  | stateBegin => exact absurd chunk Bool.false_ne_true
  | stateEnd => exact absurd chunk Bool.false_ne_true
  | stateChunk stageName shines =>
      rw [Collecting.take, Collecting.addChunkShines, if_pos isOpen]
      simp only [StateMsg.entries, StateMsg.goal, Option.getD_none, isOpen]
  | stateMeta captures goalReached =>
      rw [Collecting.take, Collecting.addChunkMeta, if_pos isOpen]
      simp only [StateMsg.entries, StateMsg.goal, isOpen]

/-- The accumulator while only chunks of one connection are taken. -/
theorem collect_append {conn : ℕ} {before : List Arrival} (isOpen : (collect before).active = true)
    {log : List Arrival}
    (kept : ∀ a ∈ log,
      if a.conn = conn then a.active = true ∧ a.msg.isChunk = true else a.active = false) :
    collect (log ++ before) =
      ⟨true,
        (collect before).entries ++
          (log.filter (·.conn = conn)).reverse.flatMap (·.msg.entries),
        ((log.filter (·.conn = conn)).findSome? (·.msg.goal)).getD (collect before).goal⟩ := by
  induction log with
  | nil => simp [← isOpen]
  | cons a log ih =>
      have earlier := ih fun b member => kept b (List.mem_cons_of_mem a member)
      have here := kept a List.mem_cons_self
      by_cases own : a.conn = conn
      · rw [if_pos own] at here
        have first : collect (a :: log ++ before) = (collect (log ++ before)).take a.msg := by
          rw [List.cons_append, collect, if_pos here.1]
        rw [first, earlier, take_chunk rfl here.2, List.filter_cons_of_pos (by simpa using own)]
        simp only [List.reverse_cons, List.flatMap_append, List.flatMap_singleton,
          List.append_assoc, List.findSome?_cons]
        cases a.msg.goal with
        | none => rfl
        | some goalReached => rfl
      · rw [if_neg own] at here
        have first : collect (a :: log ++ before) = collect (log ++ before) := by
          rw [List.cons_append, collect, if_neg (by rw [here]; exact Bool.false_ne_true)]
        rw [first, earlier, List.filter_cons_of_neg (by simpa using own)]

/-- A snapshot that was received as one piece is what its connection has sent. -/
theorem collect_of_whole {conn : ℕ} {log : List Arrival} (h : Whole conn log) :
    ((collect log).entries, (collect log).goal) = sentSince conn log := by
  obtain ⟨opened, kept, goal⟩ := h
  have split : log = since conn log ++ opening conn log := List.takeWhile_append_dropWhile.symm
  cases rest : opening conn log with
  | nil =>
      rw [rest] at opened
      exact absurd opened Bool.false_ne_true
  | cons a before =>
      rw [rest] at opened split goal
      have taken : a.active = true := opened
      have begins : a.begins conn = true := by
        have first := List.head?_dropWhile_not (fun a : Arrival => ! a.begins conn) log
        rw [show log.dropWhile (fun a => ! a.begins conn) = a :: before from rest] at first
        simpa using first
      have isBegin : a.msg.isBegin = true := by
        simp only [Arrival.begins, Bool.and_eq_true] at begins
        exact begins.2
      have fresh : collect (a :: before) = ⟨true, [], (collect before).goal⟩ := by
        rw [collect, if_pos taken]
        cases msg : a.msg with
        | stateBegin => rfl
        | stateChunk _ _ => rw [msg] at isBegin; exact absurd isBegin Bool.false_ne_true
        | stateMeta _ _ => rw [msg] at isBegin; exact absurd isBegin Bool.false_ne_true
        | stateEnd => rw [msg] at isBegin; exact absurd isBegin Bool.false_ne_true
      have held := collect_append (by rw [fresh]) kept
      rw [← split, fresh] at held
      rw [held, sentSince]
      simp only [List.nil_append, ownSince, Prod.mk.injEq, true_and]
      rcases goal with clear | ⟨b, member, some⟩
      · rw [List.tail_cons] at clear
        rw [clear]
      · have found : (List.findSome? (·.msg.goal) (ownSince conn log)).isSome = true := by
          rw [List.findSome?_isSome_iff]
          exact ⟨b, member, some⟩
        rw [ownSince] at found
        obtain ⟨goalReached, is_goal⟩ := Option.isSome_iff_exists.1 found
        rw [is_goal]
        rfl

/-! ## Runs -/

/-- The accumulator holds what came in, at every end as now. -/
structure Collected (s : SharedSnapshot) : Prop where
  collecting : s.collecting = collect s.arrivals
  handedOn : ∀ h ∈ s.handedOn,
    h.entries = (collect h.log).entries ∧ h.goalReached = (collect h.log).goal

/-- A `state_end` that is taken ends a snapshot that was received as one piece. -/
def EndsWhole (s : SharedSnapshot) : Event → Prop
  | .message conn .stateEnd =>
      s.listening conn = true → s.isActive conn = true → Whole conn s.arrivals
  | _ => True

instance (s : SharedSnapshot) : ∀ e, Decidable (EndsWhole s e)
  | .message conn .stateEnd =>
      inferInstanceAs (Decidable (s.listening conn = true → s.isActive conn = true →
        Whole conn s.arrivals))
  | .message _ .stateBegin | .message _ (.stateChunk _ _) | .message _ (.stateMeta _ _)
  | .registry _ => isTrue trivial

/-- What a message does: it is noted, and taken where the device is active; a taken
`state_end` hands on the accumulator. -/
theorem dispatchFrom_cases (s : SharedSnapshot) (conn : ℕ) (msg : StateMsg) :
    (s.dispatchFrom conn msg).arrivals = ⟨conn, msg, s.isActive conn⟩ :: s.arrivals ∧
      (s.dispatchFrom conn msg).collecting =
        (if s.isActive conn then s.collecting.take msg else s.collecting) ∧
      ∀ h ∈ (s.dispatchFrom conn msg).handedOn, h ∈ s.handedOn ∨
        (s.isActive conn = true ∧ msg = .stateEnd ∧
          h = ⟨conn, s.arrivals, s.collecting.entries, s.collecting.goal⟩) := by
  by_cases active : s.isActive conn = true
  · unfold dispatchFrom
    rw [if_pos active, if_pos active]
    refine ⟨rfl, rfl, fun h member => ?_⟩
    cases msg with
    | stateBegin => exact .inl member
    | stateChunk _ _ => exact .inl member
    | stateMeta _ _ => exact .inl member
    | stateEnd =>
        rcases List.mem_append.1 member with earlier | now
        · exact .inl earlier
        · exact .inr ⟨active, rfl, List.mem_singleton.1 now⟩
  · unfold dispatchFrom
    rw [if_neg active, if_neg active]
    exact ⟨rfl, rfl, fun h member => .inl member⟩

theorem dispatchFrom_collected {s : SharedSnapshot} (h : Collected s) (conn : ℕ) (msg : StateMsg) :
    Collected (s.dispatchFrom conn msg) := by
  obtain ⟨arrivals, collecting, handedOn⟩ := s.dispatchFrom_cases conn msg
  constructor
  · rw [arrivals, collecting, h.collecting, collect]
  · intro snap member
    rcases handedOn snap member with earlier | ⟨-, -, rfl⟩
    · exact h.handedOn snap earlier
    · rw [h.collecting]
      exact ⟨rfl, rfl⟩

theorem step_collected (clientVer : String) {s : SharedSnapshot} (h : Collected s) (e : Event) :
    Collected (step clientVer s e) := by
  cases e with
  | registry e => exact ⟨h.collecting, h.handedOn⟩
  | message conn msg =>
      simp only [step]
      split_ifs
      · exact dispatchFrom_collected h conn msg
      · exact h

theorem step_intact (clientVer : String) (s : SharedSnapshot) (e : Event)
    (h : Collected s ∧ Intact s) (good : EndsWhole s e) :
    Collected (step clientVer s e) ∧ Intact (step clientVer s e) := by
  refine ⟨step_collected clientVer h.1 e, ?_⟩
  cases e with
  | registry e => exact h.2
  | message conn msg =>
      simp only [step]
      split_ifs with listening
      · obtain ⟨-, -, handedOn⟩ := s.dispatchFrom_cases conn msg
        intro snap member
        rcases handedOn snap member with earlier | ⟨active, rfl, rfl⟩
        · exact h.2 snap earlier
        · have whole : Whole conn s.arrivals := good listening active
          have held := collect_of_whole whole
          rw [← h.1.collecting] at held
          exact held
      · exact h.2

/-- In a run where every snapshot that is ended was received as one piece, what is handed on
is always what the connection has sent. -/
theorem snapshots_intact (clientVer : String) {es : List Event}
    (h : Along (step clientVer) EndsWhole {} es) : Throughout (step clientVer) Intact {} es := by
  have start : Collected {} ∧ Intact {} := by
    refine ⟨⟨rfl, ?_⟩, ?_⟩
    · exact fun snap member => absurd member List.not_mem_nil
    · exact fun snap member => absurd member List.not_mem_nil
  exact throughout_mono (fun s both => both.2) (guarded_run (step_intact clientVer) start h)

/-- A Switch connects, and its replay is sent. -/
def connects (deviceId peerIp : String) (conn sends : ℕ) : List Event :=
  .registry (.hello deviceId peerIp "") ::
    List.replicate (sends + 1) (.registry (.resume conn))

/-- Two Switches send a snapshot each, the second one after the active device was changed. -/
theorem snapshots_intact_swapped :
    Throughout (step "") Intact {}
      (connects "a" "10.0.0.2" 0 12 ++ connects "b" "10.0.0.3" 1 1 ++
        [.message 0 .stateBegin, .message 0 (.stateChunk "CapWorldHomeStage" [⟨some "obj1", some 7⟩]),
          .message 1 .stateBegin, .message 0 (.stateMeta ["Frog"] (some true)), .message 0 .stateEnd,
          .registry (.setActive (some "b")), .message 1 .stateBegin,
          .message 1 (.stateChunk "SandWorldHomeStage" [⟨some "obj2", none⟩]),
          .message 1 (.stateMeta [] (some false)), .message 1 .stateEnd]) :=
  snapshots_intact "" (by decide +kernel)

/-- The active device is changed while both Switches send their snapshots: the moon of the
first is handed on for the second. -/
theorem snapshots_mixed :
    ¬ Throughout (step "") Intact {}
      (connects "a" "10.0.0.2" 0 12 ++ connects "b" "10.0.0.3" 1 1 ++
        [.message 0 .stateBegin, .message 1 .stateBegin,
          .message 0 (.stateChunk "CapWorldHomeStage" [⟨some "obj1", some 7⟩]),
          .registry (.setActive (some "b")), .message 1 (.stateMeta [] (some false)),
          .message 1 .stateEnd]) := by
  decide +kernel

end SharedSnapshot

end SmoArchipelago.Bridge
