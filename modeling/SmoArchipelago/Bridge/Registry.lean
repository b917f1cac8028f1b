import SmoArchipelago.Library.Dict
import SmoArchipelago.Library.Runs

/-! # The Switch registry

Several Switches may be connected, and one of them is active. The server and the mirror
each keep a registry and an active pointer; connects, refusals, disconnects and manual
swaps update both.

## Implementation notes

A handler runs up to an await, where other tasks may run. A message to a connection is
one step of the task that sends it; the first message of a connection is written when it
is registered, since its lock is free then. The items, the unlocks, the pools and the
palette are each one message of the replay here. A HELLO carries the stripped device id. -/

namespace SmoArchipelago.Bridge

open Library Runs

/-- The messages of `_run_post_hello_replay`. -/
inductive ReplayPart where
  | outstanding
  | checkedReplay
  | items
  | capturesanity
  | talkatooPool
  | shopLabels
  | kingdomGates
  | entranceMap
  | coinGrant
  | abilityState
  | palette
  | apState
  deriving DecidableEq

/-- Sent to the connection of the replay; the others go to the active one. -/
def ReplayPart.direct : ReplayPart → Bool
  | .outstanding | .checkedReplay | .items | .palette | .apState => true
  | .capturesanity | .talkatooPool | .shopLabels | .kingdomGates | .entranceMap | .coinGrant
  | .abilityState => false

def replayParts : List ReplayPart :=
  [.outstanding, .checkedReplay, .items, .capturesanity, .talkatooPool, .shopLabels,
    .kingdomGates, .entranceMap, .coinGrant, .abilityState, .palette, .apState]

/-- A message that a connection receives; replays are numbered. -/
inductive Sent where
  | helloAck (ok : Bool)
  | kick (reason : String)
  | activate
  | replayed (replay : ℕ) (part : ReplayPart)
  deriving DecidableEq

/-- A send that a task has still to make, with its connection. -/
inductive Send where
  | kick (conn : ℕ) (reason : String)
  | activate (conn : ℕ)
  | replay (replay conn : ℕ) (part : ReplayPart)
  deriving DecidableEq

/-- Where `_handle_client` is. -/
inductive Phase where
  /-- The refusal is being sent. -/
  | refusing
  | starting (rest : List Send)
  | main
  /-- The writer is being closed. -/
  | closing
  | finished
  deriving DecidableEq

structure SwitchConn where
  deviceId : String := ""
  peerIp : String := ""
  phase : Phase := .finished
  writerClosed : Bool := true
  received : List Sent := []

/-- The handler is in its post-HELLO replay. -/
def SwitchConn.replaying (c : SwitchConn) : Bool :=
  match c.phase with
  | .starting (.replay _ _ _ :: _) => true
  | _ => false

structure SwitchEntry where
  peerIp : String
  modVer : String

structure Registry where
  connections : Dict String ℕ := .empty
  activeDeviceId : Option String := none
  switches : Dict String SwitchEntry := .empty
  /-- The active pointer of the mirror. -/
  activeSwitch : Option String := none
  conns : ℕ → SwitchConn := fun _ => {}
  accepted : ℕ := 0
  /-- What each `set_active` call has still to send. -/
  activations : List (List Send) := []
  replays : ℕ := 0

namespace Registry

def update (s : Registry) (conn : ℕ) (f : SwitchConn → SwitchConn) : Registry :=
  { s with conns := Function.update s.conns conn (f (s.conns conn)) }

theorem conns_update (s : Registry) (conn : ℕ) (f : SwitchConn → SwitchConn) (c : ℕ) :
    (s.update conn f).conns c = if c = conn then f (s.conns conn) else s.conns c :=
  Function.update_apply _ _ _ _

/-! ## The mirror's half -/

def registerSwitch (s : Registry) (deviceId peerIp modVer : String) : Registry :=
  { s with switches := s.switches.set deviceId ⟨peerIp, modVer⟩ }

def unregisterSwitch (s : Registry) (deviceId : String) : Registry :=
  { s with
    switches := s.switches.erase deviceId
    activeSwitch := if s.activeSwitch = some deviceId then none else s.activeSwitch }

/-- An unknown device is not made active. -/
def setActiveSwitch (s : Registry) (deviceId : Option String) : Registry :=
  if ∀ d ∈ deviceId, d ∈ s.switches.keys then { s with activeSwitch := deviceId } else s

/-! ## Sending -/

/-- A closed writer drops the message. -/
def deliver (s : Registry) (conn : ℕ) (msg : Sent) : Registry :=
  s.update conn fun c => if c.writerClosed then c else { c with received := c.received ++ [msg] }

def activeConn (s : Registry) : Option ℕ := s.activeDeviceId.bind s.connections.get?

/-- Where a send goes, and as which message. -/
def destination (s : Registry) : Send → Option (ℕ × Sent)
  | .kick conn reason => some (conn, .kick reason)
  | .activate conn => some (conn, .activate)
  | .replay replay conn part =>
      (if part.direct then some conn else s.activeConn).map (·, .replayed replay part)

def send (s : Registry) (msg : Send) : Registry :=
  match s.destination msg with
  | some (conn, sent) => s.deliver conn sent
  | none => s

/-- The sends of a new replay. -/
def replaySends (s : Registry) (conn : ℕ) : List Send := replayParts.map (.replay s.replays conn)

/-! ## `set_active` -/

/-- The pointers are set before the first await. -/
def beginActivation (s : Registry) (deviceId : Option String) : Registry :=
  let kicks := s.activeConn.toList.map fun old => Send.kick old "unbound"
  let sends := (deviceId.bind s.connections.get?).toList.flatMap fun new =>
    .activate new :: s.replaySends new
  { ({ s with activeDeviceId := deviceId }.setActiveSwitch deviceId) with
    activations := s.activations ++ [kicks ++ sends]
    replays := s.replays + 1 }

def setActive (s : Registry) (deviceId : Option String) : Registry :=
  if (∃ d ∈ deviceId, d ∉ s.connections.keys) ∨ deviceId = s.activeDeviceId then s
  else s.beginActivation deviceId

/-! ## `_handle_client` -/

/-- `rsplit(".", 1)[-1]`. -/
def lastOctet (peerIp : String) : String :=
  .ofList (peerIp.toList.reverse.takeWhile (· ≠ '.')).reverse

def dashed (peerIp : String) : String :=
  .ofList (peerIp.toList.map fun c => if c = '.' then '-' else c)

/-- An id is free for a peer when it is not registered or registered for that peer. -/
def freeFor (s : Registry) (peerIp deviceId : String) : Bool :=
  match s.connections.get? deviceId with
  | none => true
  | some existing => (s.conns existing).peerIp = peerIp

def resolveDeviceId (s : Registry) (rawId peerIp : String) : String :=
  if s.freeFor peerIp rawId then rawId
  else if s.freeFor peerIp (rawId ++ "-" ++ lastOctet peerIp) then
    rawId ++ "-" ++ lastOctet peerIp
  else if s.freeFor peerIp (rawId ++ "-" ++ dashed peerIp) then rawId ++ "-" ++ dashed peerIp
  else rawId ++ "-" ++ peerIp

/-- A HELLO without an id is named after its peer. -/
def effectiveId (s : Registry) (deviceId peerIp : String) : String :=
  s.resolveDeviceId
    (if deviceId = "" then "sw-" ++ if peerIp = "" then "?" else lastOctet peerIp else deviceId)
    peerIp

/-- `_policy_check_version` refuses a version that differs from the client's. -/
def refuses (clientVer modVer : String) : Bool :=
  clientVer ≠ "" && modVer ≠ "" && modVer ≠ clientVer

/-- The writer of the connection that a reconnect replaces is closed. -/
def closeExisting (s : Registry) (id : String) : Registry :=
  match s.connections.get? id with
  | none => s
  | some existing => s.update existing fun c => { c with writerClosed := true }

/-- Register the new connection in both halves. -/
def register (s : Registry) (id peerIp modVer : String) (c : SwitchConn) : Registry :=
  let s := s.closeExisting id
  { s.registerSwitch id peerIp modVer with
    connections := s.connections.set id s.accepted
    conns := Function.update s.conns s.accepted c
    accepted := s.accepted + 1 }

/-- A connection whose HELLO is answered at once. -/
def newConn (deviceId peerIp : String) (phase : Phase) (ok : Bool) : SwitchConn :=
  { deviceId, peerIp, phase, writerClosed := false, received := [.helloAck ok] }

/-- From the HELLO to the first await: a refusal, the first connection or an inactive one. -/
def hello (clientVer : String) (s : Registry) (deviceId peerIp modVer : String) : Registry :=
  let id := s.effectiveId deviceId peerIp
  if refuses clientVer modVer then s.register id peerIp modVer (newConn id peerIp .refusing false)
  else
    match s.activeDeviceId with
    | none =>
        let s' := s.register id peerIp modVer
          (newConn id peerIp (.starting (s.replaySends s.accepted)) true)
        { ({ s' with activeDeviceId := some id }.setActiveSwitch (some id)) with
          replays := s.replays + 1 }
    | some _ =>
        s.register id peerIp modVer
          (newConn id peerIp (.starting [.kick s.accepted "inactive"]) true)

/-- After the refusal is sent. -/
def finishRefusal (s : Registry) (conn : ℕ) : Registry :=
  let id := (s.conns conn).deviceId
  let s := s.update conn fun c => { c with phase := .finished, writerClosed := true }
  if s.connections.get? id = some conn then
    { s with connections := s.connections.erase id }.unregisterSwitch id
  else s

/-- After the writer is closed: only the registered connection is taken out. -/
def teardown (s : Registry) (conn : ℕ) : Registry :=
  let id := (s.conns conn).deviceId
  let s := s.update conn fun c => { c with phase := .finished }
  if s.connections.get? id = some conn then
    let s := { s with connections := s.connections.erase id }.unregisterSwitch id
    if s.activeDeviceId = some id then
      let s := { s with activeDeviceId := none }.setActiveSwitch none
      match s.connections.keys.head? with
      | some promoted => s.setActive (some promoted)
      | none => s
    else s
  else s

/-- A handler from its await to the next. -/
def resume (s : Registry) (conn : ℕ) : Registry :=
  match (s.conns conn).phase with
  | .refusing => s.finishRefusal conn
  | .starting [] => s.update conn fun c => { c with phase := .main }
  | .starting (msg :: rest) => (s.send msg).update conn fun c => { c with phase := .starting rest }
  | .closing => s.teardown conn
  | .main | .finished => s

inductive Event where
  | hello (deviceId peerIp modVer : String)
  | resume (conn : ℕ)
  /-- The replay of a handler raises, and the task ends. -/
  | raises (conn : ℕ)
  /-- The main loop reads the end of the stream. -/
  | eof (conn : ℕ)
  /-- A write finds the connection reset. -/
  | reset (conn : ℕ)
  | setActive (deviceId : Option String)
  | resumeActivation (k : ℕ)
  | activationRaises (k : ℕ)

def step (clientVer : String) (s : Registry) : Event → Registry
  | .hello deviceId peerIp modVer => s.hello clientVer deviceId peerIp modVer
  | .resume conn => s.resume conn
  | .raises conn =>
      if (s.conns conn).replaying then s.update conn fun c => { c with phase := .finished } else s
  | .eof conn =>
      match (s.conns conn).phase with
      | .main => s.update conn fun c => { c with phase := .closing, writerClosed := true }
      | _ => s
  | .reset conn => s.update conn fun c => { c with writerClosed := true }
  | .setActive deviceId => s.setActive deviceId
  | .resumeActivation k =>
      match s.activations[k]? with
      | some (msg :: rest) => { s.send msg with activations := s.activations.set k rest }
      | some [] | none => s
  | .activationRaises k => { s with activations := s.activations.set k [] }

end Registry

end SmoArchipelago.Bridge
