import SmoArchipelago.Library.Receiver
import SmoArchipelago.Library.Runs
import SmoArchipelago.Bridge.AbilityCoins
import SmoArchipelago.Bridge.ServerPayload
import SmoArchipelago.Switch.ReplayLine
import SmoArchipelago.Switch.Talkatoo

/-! # Talkatoo's pools

The server stores the pools that Talkatoo may draw from and pushes them kingdom by kingdom. A
push first clears the kingdoms that were shipped before and are no longer there; which these
are is remembered once for all Switches, and at the end of every push. Where a replay raises
before its push, the push is lost and nothing is remembered.

## Implementation notes

A push suspends at every send, and the sends to one connection keep the order of their calls.
What the replay to a new Switch sends before its push is left out; it may raise, as where
`checked_replay` is longer than a line. `due` notes that a stored payload still waits for its
push. -/

namespace SmoArchipelago.Bridge.TalkatooPools

open Library Runs Switch ApProtocol
open Switch.Outbound (kInboundLineCap)

/-- Where a push stands; `current` is the `current_kingdoms` of its beginning. -/
inductive Push where
  | waiting
  | disabling
  | clearing (left current : List String)
  | shipping (left : List (String × List String)) (current : List String)
  | done
  deriving DecidableEq

structure State where
  payload : Option TalkatooPayload := none
  everShipped : List String := []
  tasks : List Push := []
  due : Bool := false
  /-- The device whose connection is the active one. -/
  active : Option ℕ := none
  switches : ℕ → Receiver TalkatooState WireMsg := fun _ => { state := {} }

inductive Event where
  | setTalkatooPool (payload : TalkatooPayload)
  | pushTalkatooPool
  /-- A push runs to its next suspension; `order` is the one in which the set of the kingdoms
  to clear happens to list them. -/
  | resume (k : ℕ) (order : List String)
  /-- What a push is part of raises. -/
  | raises (k : ℕ)
  /-- A connection becomes the active one, with its replay, or none does. -/
  | setActive (device : Option ℕ)
  | process (device : ℕ)
  | disconnect (device : ℕ)
  /-- The game of a device that is not active starts again. -/
  | restart (device : ℕ)
  /-- The active device connects again before the end of its old stream is read; it is not
  replayed to. -/
  | reconnect (restarted : Bool)

/-- The Switch's end of a message; a line that overflows the read buffer is lost. -/
def applyMsg (t : TalkatooState) (msg : WireMsg) : TalkatooState :=
  match msg with
  | .talkatooPool enabled kingdom moons =>
      if msg.lineSize < kInboundLineCap then
        applyTalkatooPool t enabled (wireName kingdom)
          ((moons.take kTalkatooMaxMoonsPerKingdom).map wireName)
      else t
  | _ => t

def State.modifySwitch (s : State) (device : ℕ)
    (f : Receiver TalkatooState WireMsg → Receiver TalkatooState WireMsg) : State :=
  { s with switches := Function.update s.switches device (f (s.switches device)) }

theorem switches_modifySwitch (s : State) (device : ℕ)
    (f : Receiver TalkatooState WireMsg → Receiver TalkatooState WireMsg) (d : ℕ) :
    (s.modifySwitch device f).switches d =
      if d = device then f (s.switches device) else s.switches d :=
  Function.update_apply _ _ _ _

/-- A send and the suspension at it; a line that is too long ends the push. -/
def sendThen (s : State) (k device : ℕ) (msg : WireMsg) (next : Push) : State :=
  if (encode msg).isSome then
    { s.modifySwitch device (·.send msg) with tasks := s.tasks.set k next }
  else { s with tasks := s.tasks.set k .done }

/-- The kingdoms are sent one by one; without an active Switch nothing suspends. -/
def ship (s : State) (k : ℕ) (left : List (String × List String)) (current : List String) : State :=
  match left, s.active with
  | e :: rest, some device => sendThen s k device (talkatooKingdom e) (.shipping rest current)
  | _, _ => { s with everShipped := current, tasks := s.tasks.set k .done }

/-- The clears come first; the stored kingdoms are read again after them. -/
def clear (s : State) (k : ℕ) (payload : TalkatooPayload) (left current : List String) : State :=
  match left, s.active with
  | kingdom :: rest, some device => sendThen s k device (talkatooClear kingdom) (.clearing rest current)
  | _, _ => ship s k payload.kingdoms.entries current

/-- The kingdoms to clear, in the order in which the set lists them. -/
def staleIn (order everShipped : List String) (kingdoms : Dict String (List String)) : List String :=
  if order.Perm (talkatooStale everShipped kingdoms) then order
  else talkatooStale everShipped kingdoms

/-- `push_talkatoo_pool` up to its first suspension. -/
def beginPush (s : State) (k : ℕ) (order : List String) (payload : TalkatooPayload) : State :=
  if payload.enabled then
    clear s k payload (staleIn order s.everShipped payload.kingdoms) payload.kingdoms.keys
  else
    match s.active with
    | some device => sendThen s k device talkatooDisabled .disabling
    | none => { s with everShipped := [], tasks := s.tasks.set k .done }

def resume (s : State) (k : ℕ) (order : List String) : State :=
  match s.tasks[k]?, s.payload with
  | some .waiting, some payload => beginPush s k order payload
  | some .waiting, none => { s with tasks := s.tasks.set k .done }
  | some .disabling, _ => { s with everShipped := [], tasks := s.tasks.set k .done }
  | some (.clearing left current), some payload => clear s k payload left current
  | some (.shipping left current), some _ => ship s k left current
  | _, _ => s

def step (s : State) : Event → State
  | .setTalkatooPool payload => { s with payload := some payload, due := true }
  | .pushTalkatooPool => { s with tasks := s.tasks ++ [.waiting], due := false }
  | .resume k order => resume s k order
  | .raises k => { s with tasks := s.tasks.set k .done }
  | .setActive device =>
      if device = s.active then s
      else
        { s with
          active := device
          tasks := if device.isSome then s.tasks ++ [.waiting] else s.tasks }
  | .process device => s.modifySwitch device (·.process applyMsg)
  | .disconnect device =>
      { s.modifySwitch device (·.lose) with
        active := if s.active = some device then none else s.active }
  | .restart device =>
      if s.active = some device then s else s.modifySwitch device fun _ => { state := {} }
  | .reconnect restarted =>
      match s.active with
      | some device =>
          s.modifySwitch device fun r => if restarted then { state := {} } else r.lose
      | none => s

/-- The pushes have finished and the active Switch has processed its messages. -/
def Settled (s : State) : Prop :=
  s.due = false ∧ (∀ task ∈ s.tasks, task = .done) ∧
    ∀ device ∈ s.active, (s.switches device).inFlight = []

instance (s : State) : Decidable (Settled s) :=
  inferInstanceAs (Decidable (s.due = false ∧ (∀ task ∈ s.tasks, task = .done) ∧
    ∀ device ∈ s.active, (s.switches device).inFlight = []))

/-! ## What is to be shown -/

/-- The kingdom of the Switch that the bridge's name stands for. -/
def bitOf (kingdom : String) : Option (Fin 17) := kingdomBitFor (wireName (kingdomApToSwitch kingdom))

/-- A stored list as the Switch's table holds it. -/
def poolOf (moons : List String) : List (CStr kCheckFieldCap) :=
  (moons.take kTalkatooMaxMoonsPerKingdom).map wireName

/-- The pool is the stored one, and empty for a kingdom that the payload leaves out. -/
def PoolRight (p : TalkatooPayload) (bit : Fin 17) (pool : List (CStr kCheckFieldCap)) : Prop :=
  (∀ e ∈ p.kingdoms.entries, bitOf e.1 = some bit → pool = poolOf e.2) ∧
    ((∀ e ∈ p.kingdoms.entries, bitOf e.1 ≠ some bit) → pool = [])

instance (p : TalkatooPayload) (bit : Fin 17) (pool : List (CStr kCheckFieldCap)) :
    Decidable (PoolRight p bit pool) :=
  inferInstanceAs (Decidable ((∀ e ∈ p.kingdoms.entries, bitOf e.1 = some bit → pool = poolOf e.2) ∧
    ((∀ e ∈ p.kingdoms.entries, bitOf e.1 ≠ some bit) → pool = [])))

/-- The Switch's state is the stored payload. -/
def Shows (p : TalkatooPayload) (t : TalkatooState) : Prop :=
  t.talkatooMode = p.enabled ∧
    (p.enabled = true → ∀ bit, PoolRight p bit (t.talkatooPools bit))

instance (p : TalkatooPayload) (t : TalkatooState) : Decidable (Shows p t) :=
  inferInstanceAs (Decidable (_ ∧ (_ → ∀ bit, PoolRight p bit (t.talkatooPools bit))))

def PoolsAgree (s : State) : Prop :=
  ∀ payload ∈ s.payload, ∀ device ∈ s.active, Shows payload (s.switches device).state

instance (s : State) : Decidable (PoolsAgree s) :=
  inferInstanceAs (Decidable (∀ payload ∈ s.payload, ∀ device ∈ s.active, Shows _ _))

/-! ## What a push has still to send -/

/-- A message for a kingdom; a clear carries no moons. -/
abbrev Message := String × List String

def staleMessages (everShipped : List String) (p : TalkatooPayload) : List Message :=
  (talkatooStale everShipped p.kingdoms).map fun kingdom => (kingdom, [])

/-- The messages of a push that has begun, if the payload stays as it is. -/
def Push.messages (p : TalkatooPayload) : Push → List Message
  | .clearing left _ => left.map (fun kingdom => (kingdom, [])) ++ p.kingdoms.entries
  | .shipping left _ => left
  | .waiting | .disabling | .done => []

/-- A message that puts the pool of the kingdom right. -/
def Writes (p : TalkatooPayload) (bit : Fin 17) (m : Message) : Prop :=
  bitOf m.1 = some bit ∧ PoolRight p bit (poolOf m.2)

instance (p : TalkatooPayload) (bit : Fin 17) (m : Message) : Decidable (Writes p bit m) :=
  inferInstanceAs (Decidable (_ ∧ PoolRight p bit (poolOf m.2)))

/-- The line reaches the Switch. -/
def Short (m : Message) : Prop := (talkatooKingdom m).lineSize < kInboundLineCap

instance (m : Message) : Decidable (Short m) := inferInstanceAs (Decidable (_ < _))

/-- Two names of one kingdom have one list. -/
def Consistent (p : TalkatooPayload) : Prop :=
  ∀ e ∈ p.kingdoms.entries, ∀ e' ∈ p.kingdoms.entries,
    (bitOf e.1).isSome → bitOf e.1 = bitOf e'.1 → poolOf e.2 = poolOf e'.2

instance (p : TalkatooPayload) : Decidable (Consistent p) :=
  inferInstanceAs (Decidable (∀ e ∈ p.kingdoms.entries, ∀ e' ∈ p.kingdoms.entries, _ → _ → _ = _))

/-! ## The condition on a step -/

/-- Another push is still to begin. -/
def ToBegin (s : State) (k : ℕ) : Prop := s.due = true ∨ .waiting ∈ s.tasks.eraseIdx k

instance (s : State) (k : ℕ) : Decidable (ToBegin s k) := inferInstanceAs (Decidable (_ ∨ _))

/-- What the other pushes have still to send. -/
def others (s : State) (k : ℕ) (p : TalkatooPayload) : List Message :=
  (s.tasks.eraseIdx k).flatMap (·.messages p)

/-- An enabled push begins: the Switch shows no kingdom that the payload leaves out, unless it
was shipped before or is about to be cleared, and its mode is on or is turned on. -/
structure Begins (everShipped : List String) (p : TalkatooPayload) (t : TalkatooState)
    (rest : List Message) : Prop where
  short : ∀ m ∈ staleMessages everShipped p ++ p.kingdoms.entries, Short m
  mode : t.talkatooMode = true ∨
    ∃ m ∈ staleMessages everShipped p ++ p.kingdoms.entries ++ rest, (bitOf m.1).isSome = true
  stale : ∀ bit, (∀ e ∈ p.kingdoms.entries, bitOf e.1 ≠ some bit) → t.talkatooPools bit ≠ [] →
    (∃ kingdom ∈ everShipped, bitOf kingdom = some bit) ∨ ∃ m ∈ rest, Writes p bit m

instance (everShipped : List String) (p : TalkatooPayload) (t : TalkatooState)
    (rest : List Message) : Decidable (Begins everShipped p t rest) :=
  decidable_of_iff
    ((∀ m ∈ staleMessages everShipped p ++ p.kingdoms.entries, Short m) ∧
      (t.talkatooMode = true ∨
        ∃ m ∈ staleMessages everShipped p ++ p.kingdoms.entries ++ rest, (bitOf m.1).isSome = true) ∧
      ∀ bit, (∀ e ∈ p.kingdoms.entries, bitOf e.1 ≠ some bit) → t.talkatooPools bit ≠ [] →
        (∃ kingdom ∈ everShipped, bitOf kingdom = some bit) ∨ ∃ m ∈ rest, Writes p bit m)
    ⟨fun h => ⟨h.1, h.2.1, h.2.2⟩, fun h => ⟨h.short, h.mode, h.stale⟩⟩

/-- A push sends a message: it agrees with what is stored now, or its kingdom is still to be
written again. -/
structure Sends (p : TalkatooPayload) (m : Message) (rest : List Message) : Prop where
  short : Short m
  agrees : bitOf m.1 = none ∨ p.enabled = true ∧ ∀ bit, bitOf m.1 = some bit →
    PoolRight p bit (poolOf m.2) ∨ ∃ m' ∈ rest, Writes p bit m'

instance (p : TalkatooPayload) (m : Message) (rest : List Message) : Decidable (Sends p m rest) :=
  decidable_of_iff
    (Short m ∧ (bitOf m.1 = none ∨ p.enabled = true ∧ ∀ bit, bitOf m.1 = some bit →
      PoolRight p bit (poolOf m.2) ∨ ∃ m' ∈ rest, Writes p bit m'))
    ⟨fun h => ⟨h.1, h.2⟩, fun h => ⟨h.short, h.agrees⟩⟩

/-- The push goes on in step with the stored payload. -/
def Helps (everShipped : List String) (p : TalkatooPayload) (t : TalkatooState)
    (rest : List Message) : Push → Prop
  | .waiting => p.enabled = true → Begins everShipped p t rest
  | task => ∀ m ∈ (task.messages p).head?, Sends p m ((task.messages p).tail ++ rest)

instance (everShipped : List String) (p : TalkatooPayload) (t : TalkatooState)
    (rest : List Message) : ∀ task, Decidable (Helps everShipped p t rest task)
  | .waiting => inferInstanceAs (Decidable (p.enabled = true → Begins everShipped p t rest))
  | .disabling => inferInstanceAs (Decidable (∀ m ∈ none, Sends p m _))
  | .clearing left current => inferInstanceAs (Decidable
      (∀ m ∈ ((Push.clearing left current).messages p).head?, Sends p m _))
  | .shipping left _ => inferInstanceAs (Decidable (∀ m ∈ left.head?, Sends p m _))
  | .done => inferInstanceAs (Decidable (∀ m ∈ none, Sends p m _))

/-- Every pool is right or still to be put right, and so is the mode. -/
structure Covered (p : TalkatooPayload) (t : TalkatooState) (ms : List Message) : Prop where
  mode : t.talkatooMode = true ∨ ∃ m ∈ ms, (bitOf m.1).isSome = true
  pools : ∀ bit, PoolRight p bit (t.talkatooPools bit) ∨ ∃ m ∈ ms, Writes p bit m

instance (p : TalkatooPayload) (t : TalkatooState) (ms : List Message) :
    Decidable (Covered p t ms) :=
  decidable_of_iff
    ((t.talkatooMode = true ∨ ∃ m ∈ ms, (bitOf m.1).isSome = true) ∧
      ∀ bit, PoolRight p bit (t.talkatooPools bit) ∨ ∃ m ∈ ms, Writes p bit m)
    ⟨fun h => ⟨h.1, h.2⟩, fun h => ⟨h.mode, h.pools⟩⟩

/-- The Switch shows the payload, or will once these messages have been sent. -/
structure Heads (p : TalkatooPayload) (t : TalkatooState) (ms : List Message) : Prop where
  on : p.enabled = true → Covered p t ms
  off : p.enabled = false → t.talkatooMode = false

instance (p : TalkatooPayload) (t : TalkatooState) (ms : List Message) : Decidable (Heads p t ms) :=
  decidable_of_iff ((p.enabled = true → Covered p t ms) ∧ (p.enabled = false → t.talkatooMode = false))
    ⟨fun h => ⟨h.1, h.2⟩, fun h => ⟨h.on, h.off⟩⟩

/-- No push leaves a pool stale or makes one stale, and none is lost where the other pushes do
not put everything right, unless another push is still to begin; and a reconnect without a
replay loses nothing. -/
def Converging (s : State) : Event → Prop
  | .setTalkatooPool payload => Consistent payload
  | .resume k _ => ToBegin s k ∨ ∀ p ∈ s.payload, ∀ device ∈ s.active, ∀ task ∈ s.tasks[k]?,
      Helps s.everShipped p ((s.switches device).view applyMsg) (others s k p) task
  | .raises k => ToBegin s k ∨ ∀ p ∈ s.payload, ∀ device ∈ s.active,
      Heads p ((s.switches device).view applyMsg) (others s k p)
  | .reconnect restarted =>
      ∀ device ∈ s.active, restarted = false ∧ (s.switches device).inFlight = []
  | .pushTalkatooPool | .setActive _ | .process _ | .disconnect _ | .restart _ => True

instance (s : State) : ∀ e, Decidable (Converging s e)
  | .setTalkatooPool payload => inferInstanceAs (Decidable (Consistent payload))
  | .resume k _ => inferInstanceAs (Decidable
      (ToBegin s k ∨ ∀ p ∈ s.payload, ∀ device ∈ s.active, ∀ task ∈ s.tasks[k]?, Helps _ _ _ _ task))
  | .raises k => inferInstanceAs (Decidable
      (ToBegin s k ∨ ∀ p ∈ s.payload, ∀ device ∈ s.active, Heads p _ (others s k p)))
  | .reconnect _ => inferInstanceAs (Decidable (∀ device ∈ s.active, _ ∧ _))
  | .pushTalkatooPool | .setActive _ | .process _ | .disconnect _ | .restart _ => isTrue trivial

/-! ## One message -/

theorem take_poolOf (moons : List String) :
    (poolOf moons).take kTalkatooMaxMoonsPerKingdom = poolOf moons := by
  apply List.take_of_length_le
  rw [poolOf, List.length_map]
  exact List.length_take_le _ moons

theorem applyMsg_kingdom (t : TalkatooState) {m : Message} (short : Short m) :
    applyMsg t (talkatooKingdom m) =
      match bitOf m.1 with
      | none => t
      | some bit => ⟨true, Function.update t.talkatooPools bit (poolOf m.2)⟩ := by
  have arrives : (WireMsg.talkatooPool true (kingdomApToSwitch m.1) m.2).lineSize < kInboundLineCap :=
    short
  rw [talkatooKingdom, applyMsg, if_pos arrives, applyTalkatooPool_enabled]
  change (match bitOf m.1 with
    | none => t
    | some bit => writeTalkatooKingdom t bit (poolOf m.2)) = _
  cases bitOf m.1 with
  | none => rfl
  | some bit =>
      simp only [writeTalkatooKingdom]
      rw [take_poolOf]

theorem applyMsg_disabled (t : TalkatooState) : applyMsg t talkatooDisabled = {} := by
  have arrives : (WireMsg.talkatooPool false "" []).lineSize < kInboundLineCap := by decide
  rw [talkatooDisabled, applyMsg, if_pos arrives]
  rfl

theorem encode_of_short {m : Message} (short : Short m) :
    (encode (talkatooKingdom m)).isSome = true := by
  rw [encode_isSome, size_toWire]
  exact short.le

theorem Covered.mono {p : TalkatooPayload} {t : TalkatooState} {ms ms' : List Message}
    (h : Covered p t ms) (more : ms ⊆ ms') : Covered p t ms' where
  mode := h.mode.imp_right fun ⟨m, member, known⟩ => ⟨m, more member, known⟩
  pools bit := (h.pools bit).imp_right fun ⟨m, member, writes⟩ => ⟨m, more member, writes⟩

/-- A message goes out; its kingdom is right now or is written again. -/
theorem Covered.send {p : TalkatooPayload} {t : TalkatooState} {m : Message} {ms : List Message}
    (h : Covered p t (m :: ms)) (short : Short m)
    (agrees : ∀ bit, bitOf m.1 = some bit →
      PoolRight p bit (poolOf m.2) ∨ ∃ m' ∈ ms, Writes p bit m') :
    Covered p (applyMsg t (talkatooKingdom m)) ms := by
  rw [applyMsg_kingdom t short]
  cases known : bitOf m.1 with
  | none =>
      constructor
      · apply h.mode.imp_right
        rintro ⟨m', member, turns_on⟩
        cases List.mem_cons.1 member with
        | inl first => rw [first, known] at turns_on; cases turns_on
        | inr later => exact ⟨m', later, turns_on⟩
      · intro bit
        apply (h.pools bit).imp_right
        rintro ⟨m', member, writes⟩
        cases List.mem_cons.1 member with
        | inl first =>
            have same := writes.1
            rw [first, known] at same
            cases same
        | inr later => exact ⟨m', later, writes⟩
  | some written =>
      constructor
      · exact .inl rfl
      · intro bit
        by_cases here : bit = written
        · subst here
          dsimp only
          rw [Function.update_self]
          exact agrees bit known
        · dsimp only
          rw [Function.update_of_ne here]
          apply (h.pools bit).imp_right
          rintro ⟨m', member, writes⟩
          cases List.mem_cons.1 member with
          | inl first =>
              have same := writes.1
              rw [first, known] at same
              exact absurd (Option.some.inj same).symm here
          | inr later => exact ⟨m', later, writes⟩

/-- With nothing left to send the Switch shows the payload. -/
theorem Covered.shows {p : TalkatooPayload} {t : TalkatooState} (h : Covered p t [])
    (enabled : p.enabled = true) : Shows p t := by
  constructor
  · rw [enabled]
    exact h.mode.resolve_right fun ⟨_, member, _⟩ => List.not_mem_nil member
  · exact fun _ bit => (h.pools bit).resolve_right fun ⟨_, member, _⟩ => List.not_mem_nil member

/-- A consistent payload's own messages are right. -/
theorem Consistent.writes {p : TalkatooPayload} (consistent : Consistent p) {e : Message}
    (member : e ∈ p.kingdoms.entries) {bit : Fin 17} (known : bitOf e.1 = some bit) :
    Writes p bit e := by
  refine ⟨known, fun e' stored same => ?_, fun absent => absurd known (absent e member)⟩
  apply consistent e member e' stored
  · rw [known]
    rfl
  · rw [known, same]

/-- A clear is right for a kingdom that the payload leaves out. -/
theorem writes_clear {p : TalkatooPayload} {kingdom : String} {bit : Fin 17}
    (known : bitOf kingdom = some bit) (absent : ∀ e ∈ p.kingdoms.entries, bitOf e.1 ≠ some bit) :
    Writes p bit (kingdom, []) :=
  ⟨known, fun e stored same => absurd same (absent e stored), fun _ => rfl⟩

/-- A push that begins well covers every kingdom. -/
theorem Begins.covered {everShipped : List String} {p : TalkatooPayload} {t : TalkatooState}
    {rest : List Message} (h : Begins everShipped p t rest) (consistent : Consistent p) :
    Covered p t (staleMessages everShipped p ++ p.kingdoms.entries ++ rest) where
  mode := h.mode
  pools bit := by
    by_cases stored : ∃ e ∈ p.kingdoms.entries, bitOf e.1 = some bit
    · obtain ⟨e, member, known⟩ := stored
      refine .inr ⟨e, ?_, consistent.writes member known⟩
      exact List.mem_append_left _ (List.mem_append_right _ member)
    · have absent : ∀ e ∈ p.kingdoms.entries, bitOf e.1 ≠ some bit :=
        fun e member known => stored ⟨e, member, known⟩
      by_cases empty : t.talkatooPools bit = []
      · exact .inl ⟨fun e member known => absurd known (absent e member), fun _ => empty⟩
      · cases h.stale bit absent empty with
        | inl shipped =>
            obtain ⟨kingdom, member, known⟩ := shipped
            have dropped : kingdom ∉ p.kingdoms.keys := by
              intro kept
              obtain ⟨e, stored_e, rfl⟩ := List.mem_map.1 kept
              exact absent e stored_e known
            have cleared : (kingdom, []) ∈ staleMessages everShipped p :=
              List.mem_map_of_mem (List.mem_filter.2 ⟨member, decide_eq_true dropped⟩)
            refine .inr ⟨(kingdom, []), ?_, writes_clear known absent⟩
            exact List.mem_append_left _ (List.mem_append_left _ cleared)
        | inr other =>
            obtain ⟨m, member, writes⟩ := other
            exact .inr ⟨m, List.mem_append_right _ member, writes⟩

/-! ## One turn of a push -/

/-- With these messages left a push sends the first, or ends. -/
inductive Turn (s : State) (k device : ℕ) (p : TalkatooPayload) : List Message → State → Prop
  | sends (m : Message) (rest : List Message) (next : Push) : next.messages p = rest →
      next ≠ .waiting →
      Turn s k device p (m :: rest) (sendThen s k device (talkatooKingdom m) next)
  | ends (current : List String) :
      Turn s k device p [] { s with everShipped := current, tasks := s.tasks.set k .done }

theorem ship_turn {s : State} {device : ℕ} (active : s.active = some device) (k : ℕ)
    (p : TalkatooPayload) (left : List Message) (current : List String) :
    Turn s k device p left (ship s k left current) := by
  cases left with
  | nil => exact .ends current
  | cons m rest =>
      have first : ship s k (m :: rest) current =
          sendThen s k device (talkatooKingdom m) (.shipping rest current) := by
        rw [ship.eq_def, active]
      rw [first]
      exact .sends m rest _ rfl Push.noConfusion

theorem clear_turn {s : State} {device : ℕ} (active : s.active = some device) (k : ℕ)
    (p : TalkatooPayload) (left current : List String) :
    Turn s k device p (left.map (fun kingdom => (kingdom, [])) ++ p.kingdoms.entries)
      (clear s k p left current) := by
  cases left with
  | nil => exact ship_turn active k p p.kingdoms.entries current
  | cons kingdom rest =>
      have first : clear s k p (kingdom :: rest) current =
          sendThen s k device (talkatooKingdom (kingdom, [])) (.clearing rest current) := by
        rw [clear.eq_def, active]
        rfl
      rw [first]
      exact .sends (kingdom, []) _ _ rfl Push.noConfusion

theorem ship_inactive {s : State} (inactive : s.active = none) (k : ℕ) (left : List Message)
    (current : List String) :
    ship s k left current = { s with everShipped := current, tasks := s.tasks.set k .done } := by
  rw [ship.eq_def, inactive]
  cases left <;> rfl

theorem clear_inactive {s : State} (inactive : s.active = none) (k : ℕ) (p : TalkatooPayload)
    (left current : List String) :
    clear s k p left current = { s with everShipped := current, tasks := s.tasks.set k .done } := by
  rw [← ship_inactive inactive k p.kingdoms.entries current, clear.eq_def, inactive]
  cases left <;> rfl

theorem mem_staleIn (order everShipped : List String) (kingdoms : Dict String (List String))
    (kingdom : String) :
    kingdom ∈ staleIn order everShipped kingdoms ↔ kingdom ∈ talkatooStale everShipped kingdoms := by
  rw [staleIn]
  split_ifs with listed
  · exact listed.mem_iff
  · exact Iff.rfl

theorem Heads.mono {p : TalkatooPayload} {t : TalkatooState} {ms ms' : List Message}
    (h : Heads p t ms) (more : ms ⊆ ms') : Heads p t ms' :=
  ⟨fun enabled => (h.on enabled).mono more, h.off⟩

theorem Heads.send {p : TalkatooPayload} {t : TalkatooState} {m : Message} {ms : List Message}
    (h : Heads p t (m :: ms)) (sends : Sends p m ms) :
    Heads p (applyMsg t (talkatooKingdom m)) ms := by
  constructor
  · intro enabled
    apply (h.on enabled).send sends.short
    intro bit known
    cases sends.agrees with
    | inl unknown =>
        rw [unknown] at known
        cases known
    | inr right => exact right.2 bit known
  · intro disabled
    cases sends.agrees with
    | inl unknown =>
        rw [applyMsg_kingdom t sends.short, unknown]
        exact h.off disabled
    | inr right =>
        rw [disabled] at right
        cases right.1

/-- The first message of a push that begins agrees with the payload. -/
theorem Begins.sends {everShipped : List String} {p : TalkatooPayload} {t : TalkatooState}
    {others : List Message} (h : Begins everShipped p t others) (enabled : p.enabled = true)
    (consistent : Consistent p) {stale : List String} {m : Message} {rest : List Message}
    (listed : ∀ kingdom, kingdom ∈ stale ↔ kingdom ∈ talkatooStale everShipped p.kingdoms)
    (split : stale.map (fun kingdom => (kingdom, [])) ++ p.kingdoms.entries = m :: rest) :
    Sends p m (rest ++ others) := by
  have first : m ∈ stale.map (fun kingdom => ((kingdom, []) : Message)) ++ p.kingdoms.entries := by
    rw [split]
    exact List.mem_cons_self
  constructor
  · apply h.short
    cases List.mem_append.1 first with
    | inl cleared =>
        obtain ⟨kingdom, member, rfl⟩ := List.mem_map.1 cleared
        exact List.mem_append_left _ (List.mem_map_of_mem ((listed kingdom).1 member))
    | inr stored => exact List.mem_append_right _ stored
  · refine .inr ⟨enabled, fun bit known => ?_⟩
    by_cases stored : ∃ e ∈ p.kingdoms.entries, bitOf e.1 = some bit
    · obtain ⟨e, member, same⟩ := stored
      have writes := consistent.writes member same
      have here : e ∈ m :: rest := split ▸ List.mem_append_right _ member
      cases List.mem_cons.1 here with
      | inl now => exact .inl (now ▸ writes.2)
      | inr later => exact .inr ⟨e, List.mem_append_left _ later, writes⟩
    · have absent : ∀ e ∈ p.kingdoms.entries, bitOf e.1 ≠ some bit :=
        fun e member same => stored ⟨e, member, same⟩
      cases List.mem_append.1 first with
      | inl cleared =>
          obtain ⟨kingdom, -, rfl⟩ := List.mem_map.1 cleared
          exact .inl (writes_clear known absent).2
      | inr member => exact absurd known (absent m member)

/-! ## Every step -/

/-- Unless a push is still to begin, the active Switch is on its way to the payload. -/
structure Synced (s : State) : Prop where
  consistent : ∀ p ∈ s.payload, Consistent p
  heads : s.due = false → .waiting ∉ s.tasks → ∀ p ∈ s.payload, ∀ device ∈ s.active,
    Heads p ((s.switches device).view applyMsg) (s.tasks.flatMap (·.messages p))

theorem Synced.settled {s : State} (h : Synced s) (settled : Settled s) : PoolsAgree s := by
  obtain ⟨pushed, finished, arrived⟩ := settled
  intro p stored device active
  have none_waiting : .waiting ∉ s.tasks := fun member => Push.noConfusion (finished _ member)
  have none_left : s.tasks.flatMap (·.messages p) = [] := by
    rw [List.flatMap_eq_nil_iff]
    intro task member
    rw [finished task member]
    rfl
  have heads := h.heads pushed none_waiting p stored device active
  rw [Receiver.view_of_arrived applyMsg (arrived device active), none_left] at heads
  cases enabled : p.enabled with
  | true => exact (heads.on enabled).shows enabled
  | false =>
      constructor
      · rw [heads.off enabled, enabled]
      · intro on
        rw [enabled] at on
        cases on

theorem perm_eraseIdx {α : Type*} {xs : List α} {k : ℕ} {x : α} (listed : xs[k]? = some x) :
    xs.Perm (x :: xs.eraseIdx k) := by
  obtain ⟨bound, rfl⟩ := List.getElem?_eq_some_iff.1 listed
  exact (List.getElem_cons_eraseIdx_perm bound).symm

theorem perm_set {α : Type*} {xs : List α} {k : ℕ} {x : α} (y : α) (listed : xs[k]? = some x) :
    (xs.set k y).Perm (y :: xs.eraseIdx k) := by
  have bound : k < xs.length := (List.getElem?_eq_some_iff.1 listed).1
  have at_k : (xs.set k y)[k]? = some y := by simp [bound]
  have perm := perm_eraseIdx at_k
  rwa [List.eraseIdx_set_eq] at perm

/-- One push goes on; the rest of what is to be sent stays. -/
theorem Synced.advance {s s' : State} (h : Synced s) {k : ℕ} {task : Push}
    (next : Push) (listed : s.tasks[k]? = some task) (payload : s'.payload = s.payload)
    (due : s'.due = s.due) (active : s'.active = s.active) (tasks : s'.tasks = s.tasks.set k next)
    (heads : ¬ ToBegin s k → ∀ p ∈ s.payload, ∀ device ∈ s.active,
      Heads p ((s'.switches device).view applyMsg) (next.messages p ++ others s k p)) :
    Synced s' := by
  have perm := perm_set next listed
  constructor
  · rw [payload]
    exact h.consistent
  · intro pushed none_waiting p stored device chosen
    rw [payload] at stored
    rw [active] at chosen
    rw [due] at pushed
    rw [tasks] at none_waiting ⊢
    have begun : ¬ ToBegin s k := by
      rintro (waits | member)
      · rw [pushed] at waits
        cases waits
      · exact none_waiting (perm.mem_iff.2 (List.mem_cons_of_mem next member))
    apply (heads begun p stored device chosen).mono
    intro m member
    have flat := (perm.flatMap_right (·.messages p)).mem_iff (a := m)
    rw [flat, List.flatMap_cons]
    exact member

/-- What was to be sent is the rest of this push and of the others. -/
theorem Synced.running {s : State} (h : Synced s) {k : ℕ} {task : Push}
    (listed : s.tasks[k]? = some task) (running : task ≠ .waiting) (begun : ¬ ToBegin s k)
    {p : TalkatooPayload} (stored : p ∈ s.payload) {device : ℕ} (active : device ∈ s.active) :
    Heads p ((s.switches device).view applyMsg) (task.messages p ++ others s k p) := by
  have perm := perm_eraseIdx listed
  have pushed : s.due = false := by
    cases due : s.due with
    | true => exact absurd (.inl due) begun
    | false => rfl
  have none_waiting : .waiting ∉ s.tasks := by
    intro member
    cases List.mem_cons.1 (perm.mem_iff.1 member) with
    | inl here => exact running here.symm
    | inr other => exact begun (.inr other)
  apply (h.heads pushed none_waiting p stored device active).mono
  intro m member
  have flat := (perm.flatMap_right (·.messages p)).mem_iff (a := m)
  rw [flat, List.flatMap_cons] at member
  exact member

theorem Synced.sendThen {s : State} (h : Synced s) {k : ℕ} {task : Push}
    (listed : s.tasks[k]? = some task) {device : ℕ} (active : s.active = some device)
    {msg : WireMsg} {next : Push} (encodes : ¬ ToBegin s k → (encode msg).isSome = true)
    (heads : ¬ ToBegin s k → ∀ p ∈ s.payload,
      Heads p (applyMsg ((s.switches device).view applyMsg) msg) (next.messages p ++ others s k p)) :
    Synced (sendThen s k device msg next) := by
  rw [TalkatooPools.sendThen]
  split_ifs with sent
  · refine h.advance next listed rfl rfl rfl rfl fun begun p stored d chosen => ?_
    obtain rfl : device = d := Option.some.inj (active.symm.trans chosen)
    change Heads p (((s.modifySwitch device (·.send msg)).switches device).view applyMsg) _
    rw [switches_modifySwitch, if_pos rfl, Receiver.view_send]
    exact heads begun p stored
  · refine h.advance .done listed rfl rfl rfl rfl fun begun => ?_
    exact absurd (encodes begun) sent

theorem Synced.turn {s s' : State} (h : Synced s) {k : ℕ} {task : Push}
    (listed : s.tasks[k]? = some task) {p : TalkatooPayload} (stored : s.payload = some p)
    {device : ℕ} (active : s.active = some device) {ms : List Message}
    (turn : Turn s k device p ms s')
    (heads : ¬ ToBegin s k → Heads p ((s.switches device).view applyMsg) (ms ++ others s k p))
    (sends : ¬ ToBegin s k → ∀ m rest, ms = m :: rest → Sends p m (rest ++ others s k p)) :
    Synced s' := by
  cases turn with
  | sends m rest next left running =>
      refine h.sendThen listed active ?_ ?_
      · exact fun begun => encode_of_short (sends begun m rest rfl).short
      · intro begun p' stored'
        obtain rfl : p = p' := Option.some.inj (stored.symm.trans stored')
        rw [left]
        exact (heads begun).send (sends begun m rest rfl)
  | ends current =>
      refine h.advance .done listed rfl rfl rfl rfl fun begun p' stored' d chosen => ?_
      obtain rfl : p = p' := Option.some.inj (stored.symm.trans stored')
      obtain rfl : device = d := Option.some.inj (active.symm.trans chosen)
      exact heads begun

/-- A push that ends without a Switch. -/
theorem Synced.unseen {s : State} (h : Synced s) {k : ℕ} {task : Push}
    (listed : s.tasks[k]? = some task) (everShipped : List String)
    (unseen : s.payload = none ∨ s.active = none ∨ task ≠ .waiting ∧ ∀ p, task.messages p = []) :
    Synced { s with everShipped := everShipped, tasks := s.tasks.set k .done } := by
  refine h.advance .done listed rfl rfl rfl rfl fun begun p stored device active => ?_
  obtain absent | absent | ⟨running, nothing⟩ := unseen
  · rw [absent] at stored
    cases stored
  · rw [absent] at active
    cases active
  · have heads := h.running listed running begun stored active
    rw [nothing] at heads
    exact heads

theorem Synced.beginPush {s : State} (h : Synced s) {k : ℕ} (order : List String)
    (listed : s.tasks[k]? = some .waiting) {p : TalkatooPayload} (stored : s.payload = some p)
    (good : ToBegin s k ∨ ∀ device ∈ s.active, p.enabled = true →
      Begins s.everShipped p ((s.switches device).view applyMsg) (others s k p)) :
    Synced (beginPush s k order p) := by
  have consistent := h.consistent p stored
  rw [TalkatooPools.beginPush]
  split_ifs with enabled
  · cases active : s.active with
    | none =>
        rw [clear_inactive active]
        exact h.unseen listed _ (.inr (.inl active))
    | some device =>
        have begins (begun : ¬ ToBegin s k) := good.resolve_left begun device active enabled
        have same := mem_staleIn order s.everShipped p.kingdoms
        refine h.turn listed stored active (clear_turn active k p _ _) ?_ ?_
        · intro begun
          constructor
          · intro _
            apply ((begins begun).covered consistent).mono
            intro m member
            simp only [List.mem_append, List.mem_map, staleMessages, same] at member ⊢
            exact member
          · intro disabled
            rw [enabled] at disabled
            cases disabled
        · exact fun begun m rest split => (begins begun).sends enabled consistent same split
  · split
    · next device active =>
        refine h.sendThen listed active (fun _ => by decide) fun _ p' stored' => ?_
        obtain rfl : p = p' := Option.some.inj (stored.symm.trans stored')
        rw [applyMsg_disabled]
        exact ⟨fun on => absurd on enabled, fun _ => rfl⟩
    · next inactive => exact h.unseen listed [] (.inr (.inl inactive))

theorem Synced.resume {s : State} (h : Synced s) {k : ℕ} (order : List String)
    (good : Converging s (.resume k order)) : Synced (resume s k order) := by
  simp only [Converging] at good
  rw [TalkatooPools.resume]
  split
  · next p listed stored =>
      apply h.beginPush order listed stored
      exact good.imp_right fun helps device active => helps p stored device active _ listed
  · next listed unset => exact h.unseen listed s.everShipped (.inl unset)
  · next listed => exact h.unseen listed [] (.inr (.inr ⟨Push.noConfusion, fun _ => rfl⟩))
  · next left current p listed stored =>
      cases active : s.active with
      | none =>
          rw [clear_inactive active]
          exact h.unseen listed current (.inr (.inl active))
      | some device =>
          apply h.turn listed stored active (clear_turn active k p left current)
          · exact fun begun => h.running listed Push.noConfusion begun stored active
          · intro begun m rest split
            have helps := good.resolve_left begun p stored device active _ listed
            simp only [Helps, Push.messages, split] at helps
            exact helps m rfl
  · next left current p listed stored =>
      cases active : s.active with
      | none =>
          rw [ship_inactive active]
          exact h.unseen listed current (.inr (.inl active))
      | some device =>
          apply h.turn listed stored active (ship_turn active k p left current)
          · exact fun begun => h.running listed Push.noConfusion begun stored active
          · intro begun m rest split
            have helps := good.resolve_left begun p stored device active _ listed
            simp only [Helps, Push.messages, split] at helps
            exact helps m rfl
  · exact h

/-- A push is lost, and the others put right what it would have. -/
theorem Synced.raises {s : State} (h : Synced s) {k : ℕ} (good : Converging s (.raises k)) :
    Synced { s with tasks := s.tasks.set k .done } := by
  cases listed : s.tasks[k]? with
  | none =>
      have beyond : s.tasks.length ≤ k := List.getElem?_eq_none_iff.1 listed
      rw [List.set_eq_of_length_le beyond]
      exact h
  | some task =>
      refine h.advance .done listed rfl rfl rfl rfl fun begun p stored device active => ?_
      exact good.resolve_left begun p stored device active

/-- The active Switch stays the same or is given up, and what it is to show does. -/
theorem Synced.same {s t : State} (h : Synced s) (payload : t.payload = s.payload)
    (tasks : t.tasks = s.tasks) (due : t.due = s.due)
    (view : ∀ device ∈ t.active, device ∈ s.active ∧
      (t.switches device).view applyMsg = (s.switches device).view applyMsg) : Synced t := by
  constructor
  · rw [payload]
    exact h.consistent
  · intro pushed none_waiting p stored device active
    rw [payload] at stored
    rw [tasks] at none_waiting ⊢
    rw [due] at pushed
    obtain ⟨was_active, same⟩ := view device active
    rw [same]
    exact h.heads pushed none_waiting p stored device was_active

theorem step_synced (s : State) (e : Event) (h : Synced s) (good : Converging s e) :
    Synced (step s e) := by
  cases e with
  | setTalkatooPool payload =>
      constructor
      · rintro p ⟨⟩
        exact good
      · exact fun pushed => Bool.noConfusion pushed
  | pushTalkatooPool =>
      constructor
      · exact h.consistent
      · intro _ none_waiting
        exact absurd (List.mem_append_right _ (List.mem_singleton_self _)) none_waiting
  | resume k order => exact h.resume order good
  | raises k => exact h.raises good
  | setActive device =>
      simp only [step]
      by_cases same : device = s.active
      · rw [if_pos same]
        exact h
      · rw [if_neg same]
        constructor
        · exact h.consistent
        · intro _ none_waiting p _ d active
          obtain rfl : device = some d := active
          exact absurd (List.mem_append_right _ (List.mem_singleton_self _)) none_waiting
  | process device =>
      refine h.same (t := step s _) rfl rfl rfl fun d active => ⟨active, ?_⟩
      simp only [step]
      rw [switches_modifySwitch]
      split_ifs with here
      · rw [Receiver.view_process, here]
      · rfl
  | disconnect device =>
      refine h.same (t := step s _) rfl rfl rfl fun d active => ?_
      simp only [step] at active ⊢
      split_ifs at active with here
      · cases active
      · have other : d ≠ device := by
          rintro rfl
          exact here active
        refine ⟨active, ?_⟩
        rw [switches_modifySwitch, if_neg other]
  | restart device =>
      simp only [step]
      split_ifs with here
      · exact h
      · refine h.same (t := s.modifySwitch device _) rfl rfl rfl fun d active => ?_
        have other : d ≠ device := by
          rintro rfl
          exact here active
        refine ⟨active, ?_⟩
        rw [switches_modifySwitch, if_neg other]
  | reconnect restarted =>
      simp only [step]
      cases active : s.active with
      | none => exact h
      | some device =>
          obtain ⟨rfl, arrived⟩ := good device active
          refine h.same (t := s.modifySwitch device _) rfl rfl rfl fun d here => ⟨here, ?_⟩
          rw [switches_modifySwitch]
          by_cases same : d = device
          · rw [if_pos same, same]
            exact congrArg _ (Receiver.lose_of_arrived arrived)
          · rw [if_neg same]

/-! ## Runs -/

/-- A server that has just started, among Switches that need not have. -/
def start (switches : ℕ → TalkatooState) : State where
  switches device := { state := switches device }

/-- Along converging steps the active Switch shows the stored payload whenever all is settled,
whatever the Switches showed at the start. -/
theorem talkatoo_pools_converge (switches : ℕ → TalkatooState) (events : List Event)
    (good : Along step Converging (start switches) events) :
    Throughout step (fun s => Settled s → PoolsAgree s) (start switches) events := by
  have synced : Synced (start switches) := ⟨nofun, fun _ _ => nofun⟩
  exact throughout_mono (fun s h settled => h.settled settled) (guarded_run step_synced synced good)

def sandPool : TalkatooPayload := ⟨true, (Dict.empty.set "Cap" ["Frog-Jumping"]).set "Sand" ["Ice Cave"]⟩

/-- A Switch connects, and the pools are stored and pushed. -/
def firstPools : List Event :=
  [.setActive (some 0), .resume 0 [], .setTalkatooPool sandPool, .pushTalkatooPool, .resume 1 [],
    .resume 1 [], .resume 1 [], .process 0, .process 0]

/-- The Switch comes back, and its replay raises. -/
def lostReplay : List Event := firstPools ++ [.disconnect 0, .setActive (some 0), .raises 2]

theorem talkatoo_pools_converge_lostReplay :
    Throughout step (fun s => Settled s → PoolsAgree s) (start fun _ => {}) lostReplay :=
  talkatoo_pools_converge (fun _ => {}) lostReplay (by decide +kernel)

/-- Sand's last moon has left its window. -/
def sandDone : TalkatooPayload := ⟨true, Dict.empty.set "Cap" ["Frog-Jumping"]⟩

/-- Another Switch gets the next payload, and the first one comes back. -/
def swappedPools : List Event :=
  firstPools ++ [.setActive (some 1), .resume 2 [], .resume 2 [], .resume 2 [],
    .setTalkatooPool sandDone, .pushTalkatooPool, .resume 3 [], .resume 3 [], .resume 3 [],
    .setActive (some 0), .resume 4 [], .resume 4 [], .process 0]

/-- Sand was cleared on the other Switch only, and is no longer remembered as shipped. -/
theorem swapped_pools_stale :
    Settled (run step (start fun _ => {}) swappedPools) ∧
      ¬ PoolsAgree (run step (start fun _ => {}) swappedPools) := by
  decide +kernel

end SmoArchipelago.Bridge.TalkatooPools
