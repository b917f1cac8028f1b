import SmoArchipelago.Bridge.RegistryConsistency

/-! # The replay to the active connection

A connection becomes active as the first one, by a swap or by a promotion, and is then
replayed to. A reconnect of the active device registers a connection that is active at
once and is told that it is inactive.

## Implementation notes

Replays are numbered, so the messages of one replay can be told from those of another that
is still under way. What a connection is owed is stated of its log and of the programs of
the tasks. -/

namespace SmoArchipelago.Bridge

open Library Runs

def Sent.isActivation : Sent → Bool
  | .kick _ | .activate => true
  | .helloAck _ | .replayed _ _ => false

/-- The message of a send, as its connection receives it. -/
def Send.sent : Send → Sent
  | .kick _ reason => .kick reason
  | .activate _ => .activate
  | .replay r _ part => .replayed r part

/-- A send of the replay with this number. -/
def Send.Mentions (replay : ℕ) : Send → Prop
  | .replay r _ _ => r = replay
  | .kick _ _ | .activate _ => False

namespace Registry

/-- The sends that a task has still to make: a handler's or a `set_active` call's. -/
def program (s : Registry) : ℕ ⊕ ℕ → List Send
  | .inl conn =>
      match (s.conns conn).phase with
      | .starting rest => rest
      | _ => []
  | .inr k => (s.activations[k]?).getD []

/-- The messages of one replay in a log. -/
def partsOf (replay : ℕ) (log : List Sent) : List ReplayPart :=
  log.filterMap fun
    | .replayed r part => if r = replay then some part else none
    | _ => none

def lastActivation (log : List Sent) : Option Sent := (log.filter Sent.isActivation).getLast?

/-- Every handler and every `set_active` call has come to the end of its sends. -/
def AllSent (s : Registry) : Prop :=
  (∀ c < s.accepted, s.program (.inl c) = []) ∧ ∀ sends ∈ s.activations, sends = []

instance (s : Registry) : Decidable (AllSent s) :=
  inferInstanceAs (Decidable ((∀ c < s.accepted, _ = _) ∧ ∀ sends ∈ s.activations, sends = []))

/-- The connection of the active device has its acknowledgement and one whole replay, and
was not told last that it is inactive. -/
def ActiveReplayed (s : Registry) : Prop :=
  ∀ d ∈ s.activeDeviceId, ∀ c ∈ s.connections.get? d, (s.conns c).writerClosed = false →
    (s.conns c).received.head? = some (.helloAck true) ∧
      (∃ replay, partsOf replay (s.conns c).received = replayParts) ∧
        lastActivation (s.conns c).received ≠ some (.kick "inactive")

/-- Versions are accepted and nothing raises; the active device does not reconnect while
its old connection is registered, and the connection of the active device is not told that
it is inactive unless its activation is still to come. -/
def Replays (clientVer : String) (s : Registry) : Event → Prop
  | .hello deviceId peerIp modVer =>
      refuses clientVer modVer = false ∧
        s.activeDeviceId ≠ some (s.effectiveId deviceId peerIp)
  | .resume conn =>
      (s.conns conn).phase = .starting [.kick conn "inactive"] → s.activeConn = some conn →
        ∃ sends ∈ s.activations, .activate conn ∈ sends
  | .raises _ | .activationRaises _ => False
  | .eof _ | .reset _ | .setActive _ | .resumeActivation _ => True

instance (clientVer : String) (s : Registry) : ∀ e, Decidable (Replays clientVer s e)
  | .hello _ _ _ => inferInstanceAs (Decidable (_ = _ ∧ _ ≠ _))
  | .resume conn =>
      inferInstanceAs (Decidable (_ → _ → ∃ sends ∈ s.activations, Send.activate conn ∈ sends))
  | .raises _ | .activationRaises _ => isFalse id
  | .eof _ | .reset _ | .setActive _ | .resumeActivation _ => isTrue trivial

/-! ## What a connection is owed -/

variable {log : List Sent} {program : ℕ ⊕ ℕ → List Send} {c : ℕ}

/-- A whole replay has arrived. -/
structure Complete (log : List Sent) (program : ℕ ⊕ ℕ → List Send) (replay : ℕ) : Prop where
  parts : partsOf replay log = replayParts
  ended : ∀ t, ∀ m ∈ program t, ¬ m.Mentions replay

/-- One task has still to send the rest of a replay, perhaps after other messages. -/
structure InProgress (log : List Sent) (program : ℕ ⊕ ℕ → List Send) (c : ℕ) (t : ℕ ⊕ ℕ)
    (replay : ℕ) (pre : List Send) (rest : List ReplayPart) : Prop where
  parts : partsOf replay log ++ rest = replayParts
  here : program t = pre ++ rest.map (.replay replay c)
  some_left : rest ≠ []
  before : ∀ m ∈ pre, ∀ r, ¬ m.Mentions r
  alone : ∀ t' ≠ t, ∀ m ∈ program t', ¬ m.Mentions replay

structure Served (log : List Sent) (program : ℕ ⊕ ℕ → List Send) (c : ℕ) : Prop where
  last : (∃ t, .activate c ∈ program t) ∨ lastActivation log ≠ some (.kick "inactive")
  progress : (∃ r, Complete log program r) ∨ ∃ t r pre rest, InProgress log program c t r pre rest

theorem partsOf_snoc (replay : ℕ) (log : List Sent) (msg : Sent) :
    partsOf replay (log ++ [msg]) = partsOf replay log ++ partsOf replay [msg] :=
  List.filterMap_append

theorem lastActivation_snoc (log : List Sent) (msg : Sent) :
    lastActivation (log ++ [msg]) = if msg.isActivation then some msg else lastActivation log := by
  rw [lastActivation, List.filter_append]
  by_cases activation : msg.isActivation = true
  · rw [if_pos activation, List.filter_cons_of_pos activation, List.filter_nil, List.getLast?_concat]
  · rw [if_neg activation, List.filter_cons_of_neg activation, List.filter_nil, List.append_nil]
    rfl

theorem partsOf_other {replay : ℕ} {m : Send} (other : ¬ m.Mentions replay) :
    partsOf replay [m.sent] = [] := by
  cases m with
  | kick conn reason => rfl
  | activate conn => rfl
  | replay r conn part =>
      have differ : ¬ r = replay := other
      simp [partsOf, Send.sent, differ]

/-- What a send may leave in a log. -/
def Logged (log log' : List Sent) (m : Send) : Prop := log' = log ∨ log' = log ++ [m.sent]

theorem Logged.partsOf_eq {log' : List Sent} {m : Send} (h : Logged log log' m) {replay : ℕ}
    (other : ¬ m.Mentions replay) : partsOf replay log' = partsOf replay log := by
  apply h.elim
  · exact congrArg _
  · intro sent
    rw [sent, partsOf_snoc, partsOf_other other, List.append_nil]

theorem Logged.last {log' : List Sent} {m : Send} (h : Logged log log' m)
    (kind : m.sent ≠ .kick "inactive") (last : lastActivation log ≠ some (.kick "inactive")) :
    lastActivation log' ≠ some (.kick "inactive") := by
  apply h.elim
  · intro same
    rw [same]
    exact last
  · intro sent
    rw [sent, lastActivation_snoc]
    split_ifs
    · exact fun inactive => kind (Option.some.inj inactive)
    · exact last

/-- The pending activation stays pending, or is the send. -/
theorem activate_pending {t : ℕ ⊕ ℕ} {m : Send} {more : List Send} (head : program t = m :: more)
    (pending : ∃ t, .activate c ∈ program t) :
    (∃ t', .activate c ∈ Function.update program t more t') ∨ m = .activate c := by
  obtain ⟨t', member⟩ := pending
  by_cases same : t' = t
  · rw [same, head] at member
    apply (List.mem_cons.1 member).elim
    · exact fun now => .inr now.symm
    · intro later
      refine .inl ⟨t, ?_⟩
      rw [Function.update_self]
      exact later
  · refine .inl ⟨t', ?_⟩
    rw [Function.update_of_ne same]
    exact member

/-- A send of a task; a connection may be told that it is inactive before its activation. -/
theorem Served.send (h : Served log program c) {t : ℕ ⊕ ℕ} {m : Send} {more : List Send}
    (head : program t = m :: more) {log' : List Sent} (logged : Logged log log' m)
    (own : ∀ r part, m = .replay r c part → log' = log ++ [m.sent])
    (activates : m = .activate c → log' = log ++ [m.sent])
    (kind : log' ≠ log → m.sent = .kick "inactive" → ∃ t, .activate c ∈ program t) :
    Served log' (Function.update program t more) c := by
  have fewer : ∀ t', ∀ m' ∈ Function.update program t more t', m' ∈ program t' := by
    intro t' m' member
    rw [Function.update_apply] at member
    split_ifs at member with same
    · rw [same, head]
      exact List.mem_cons_of_mem m member
    · exact member
  constructor
  · by_cases pending : ∃ t, .activate c ∈ program t
    · apply (activate_pending head pending).imp_right
      intro now
      have activation : (Send.activate c).sent.isActivation = true := rfl
      rw [activates now, now, lastActivation_snoc, if_pos activation]
      exact fun same => Sent.noConfusion (Option.some.inj same)
    · have last := h.last.resolve_left pending
      right
      by_cases same : log' = log
      · rw [same]
        exact last
      · exact logged.last (fun inactive => pending (kind same inactive)) last
  · obtain ⟨r, whole⟩ | ⟨t₀, r, pre, rest, busy⟩ := h.progress
    · refine .inl ⟨r, ?_, fun t' m' member => whole.ended t' m' (fewer t' m' member)⟩
      have other : ¬ m.Mentions r := whole.ended t m (head ▸ List.mem_cons_self)
      rw [logged.partsOf_eq other]
      exact whole.parts
    · have alone : ∀ t' ≠ t₀, ∀ m' ∈ Function.update program t more t', ¬ m'.Mentions r :=
        fun t' differ m' member => busy.alone t' differ m' (fewer t' m' member)
      by_cases same : t = t₀
      · subst same
        have here := head.symm.trans busy.here
        cases pre with
        | cons first pre =>
            obtain ⟨rfl, tail⟩ := List.cons.inj here
            refine .inr ⟨t, r, pre, rest, ?_, ?_, busy.some_left, ?_, alone⟩
            · rw [logged.partsOf_eq (busy.before m List.mem_cons_self r)]
              exact busy.parts
            · rw [Function.update_self, tail]
              rfl
            · exact fun m' member => busy.before m' (List.mem_cons_of_mem m member)
        | nil =>
            cases rest with
            | nil => exact absurd rfl busy.some_left
            | cons part rest =>
                obtain ⟨rfl, tail⟩ := List.cons.inj here
                have sent := own r part rfl
                have parts : partsOf r log' ++ rest = replayParts := by
                  rw [sent, partsOf_snoc, ← busy.parts, List.append_assoc]
                  simp [partsOf, Send.sent]
                by_cases done : rest = []
                · refine .inl ⟨r, ?_, ?_⟩
                  · rw [← parts, done, List.append_nil]
                  · intro t' m' member
                    by_cases this_task : t' = t
                    · rw [this_task, Function.update_self, tail, done] at member
                      cases member
                    · exact alone t' this_task m' member
                · refine .inr ⟨t, r, [], rest, parts, ?_, done, nofun, alone⟩
                  rw [Function.update_self, tail]
                  rfl
      · refine .inr ⟨t₀, r, pre, rest, ?_, ?_, busy.some_left, busy.before, alone⟩
        · have other : ¬ m.Mentions r := busy.alone t same m (head ▸ List.mem_cons_self)
          rw [logged.partsOf_eq other]
          exact busy.parts
        · rw [Function.update_of_ne (Ne.symm same)]
          exact busy.here

/-- A task without sends takes up some that belong to no replay. -/
theorem Served.new_task (h : Served log program c) {t : ℕ ⊕ ℕ} {sends : List Send}
    (idle : program t = []) (apart : ∀ m ∈ sends, ∀ r, ¬ m.Mentions r) :
    Served log (Function.update program t sends) c := by
  have kept (t' : ℕ ⊕ ℕ) (m : Send) (member : m ∈ program t') :
      m ∈ Function.update program t sends t' := by
    by_cases same : t' = t
    · rw [same, idle] at member
      cases member
    · rw [Function.update_of_ne same]
      exact member
  have quiet {r : ℕ} (t' : ℕ ⊕ ℕ) (ended : ∀ m ∈ program t', ¬ m.Mentions r) :
      ∀ m ∈ Function.update program t sends t', ¬ m.Mentions r := by
    intro m member
    rw [Function.update_apply] at member
    split_ifs at member
    · exact apart m member r
    · exact ended m member
  constructor
  · exact h.last.imp_left fun ⟨t', member⟩ => ⟨t', kept t' _ member⟩
  · obtain ⟨r, whole⟩ | ⟨t₀, r, pre, rest, busy⟩ := h.progress
    · exact .inl ⟨r, whole.parts, fun t' => quiet t' (whole.ended t')⟩
    · refine .inr ⟨t₀, r, pre, rest, busy.parts, ?_, busy.some_left, busy.before,
        fun t' differ => quiet t' (busy.alone t' differ)⟩
      have other : t₀ ≠ t := by
        rintro rfl
        have ended := busy.here.symm.trans idle
        exact busy.some_left (List.map_eq_nil_iff.1 (List.append_eq_nil_iff.1 ended).2)
      rw [Function.update_of_ne other]
      exact busy.here

/-! ## The states of a run -/

structure Orderly (s : Registry) : Prop where
  paired : Paired s
  fresh : ∀ c, s.accepted ≤ c → (s.conns c).phase = .finished
  accepted : ∀ c, (s.conns c).phase ≠ .refusing
  acknowledged : ∀ c < s.accepted, (s.conns c).received.head? = some (.helloAck true)
  numbered : ∀ t, ∀ m ∈ s.program t, ∀ r, m.Mentions r → r < s.replays
  logged : ∀ c r, s.replays ≤ r → partsOf r (s.conns c).received = []
  kicks : ∀ t c, .kick c "inactive" ∈ s.program t →
    t = .inl c ∧ s.program t = [.kick c "inactive"]
  served : ∀ d ∈ s.activeDeviceId, ∀ c ∈ s.connections.get? d, (s.conns c).writerClosed = false →
    Served (s.conns c).received s.program c

theorem Orderly.allSent {s : Registry} (h : Orderly s) (sent : AllSent s) (t : ℕ ⊕ ℕ) :
    s.program t = [] := by
  cases t with
  | inl c =>
      by_cases known : c < s.accepted
      · exact sent.1 c known
      · simp only [Registry.program, h.fresh c (Nat.not_lt.1 known)]
  | inr k =>
      simp only [Registry.program]
      cases listed : s.activations[k]? with
      | none => rfl
      | some sends => exact sent.2 sends (List.mem_of_getElem? listed)

/-- With everything sent, what is owed has arrived. -/
theorem Orderly.activeReplayed {s : Registry} (h : Orderly s) (sent : AllSent s) :
    ActiveReplayed s := by
  intro d active c here isOpen
  have known := (h.paired.conn d c here).1
  refine ⟨h.acknowledged c known, ?_⟩
  have served := h.served d active c here isOpen
  have last := served.last.resolve_left fun ⟨t, pending⟩ => by
    rw [h.allSent sent t] at pending
    cases pending
  obtain ⟨r, whole⟩ | ⟨t, r, pre, rest, busy⟩ := served.progress
  · exact ⟨⟨r, whole.parts⟩, last⟩
  · have ended := busy.here.symm.trans (h.allSent sent t)
    have none_left := (List.append_eq_nil_iff.1 ended).2
    exact absurd (List.map_eq_nil_iff.1 none_left) busy.some_left

/-- A task makes its next send. -/
structure Sends (s s' : Registry) (t : ℕ ⊕ ℕ) (m : Send) (more : List Send) : Prop where
  head : s.program t = m :: more
  program : s'.program = Function.update s.program t more
  connections : s'.connections = s.connections
  activeDeviceId : s'.activeDeviceId = s.activeDeviceId
  accepted : s'.accepted = s.accepted
  replays : s'.replays = s.replays
  writerClosed : ∀ c, (s'.conns c).writerClosed = (s.conns c).writerClosed
  log : ∀ c, Logged (s.conns c).received (s'.conns c).received m
  arrives : ∀ c, s.destination m = some (c, m.sent) → (s.conns c).writerClosed = false →
    (s'.conns c).received = (s.conns c).received ++ [m.sent]
  reaches : ∀ c, (s'.conns c).received ≠ (s.conns c).received →
    s.destination m = some (c, m.sent)

theorem Sends.served {s s' : Registry} {t : ℕ ⊕ ℕ} {m : Send} {more : List Send}
    (h : Orderly s) (sends : Sends s s' t m more)
    (good : ∀ c, m = .kick c "inactive" → s.activeConn = some c →
      ∃ t, .activate c ∈ s.program t) {d : String} (active : d ∈ s.activeDeviceId)
    {c : ℕ} (here : c ∈ s.connections.get? d) (isOpen : (s.conns c).writerClosed = false) :
    Served (s'.conns c).received s'.program c := by
  have served := h.served d active c here isOpen
  have target : s.activeConn = some c := by
    rw [activeConn, Option.mem_def.1 active]
    exact here
  rw [sends.program]
  apply served.send sends.head (sends.log c)
  · rintro r part rfl
    apply sends.arrives c _ isOpen
    rw [destination]
    split_ifs
    · rfl
    · rw [target]
      rfl
  · rintro rfl
    exact sends.arrives c rfl isOpen
  · intro changed inactive
    have reached := sends.reaches c changed
    cases m with
    | kick conn reason =>
        obtain ⟨rfl, -⟩ := Prod.mk.inj (Option.some.inj reached)
        exact good conn (congrArg _ (Sent.kick.inj inactive)) target
    | activate conn => cases inactive
    | replay r conn part => cases inactive

theorem Sends.orderly {s s' : Registry} {t : ℕ ⊕ ℕ} {m : Send} {more : List Send}
    (h : Orderly s) (sends : Sends s s' t m more)
    (good : ∀ c, m = .kick c "inactive" → s.activeConn = some c →
      ∃ t, .activate c ∈ s.program t) (paired : Paired s')
    (fresh : ∀ c, s.accepted ≤ c → (s'.conns c).phase = .finished)
    (accepted : ∀ c, (s'.conns c).phase ≠ .refusing) : Orderly s' := by
  have fewer : ∀ t', ∀ m' ∈ s'.program t', m' ∈ s.program t' := by
    intro t' m' member
    rw [sends.program, Function.update_apply] at member
    split_ifs at member with same
    · rw [same, sends.head]
      exact List.mem_cons_of_mem m member
    · exact member
  constructor
  · exact paired
  · rw [sends.accepted]
    exact fresh
  · exact accepted
  · intro c known
    rw [sends.accepted] at known
    have first := h.acknowledged c known
    apply (sends.log c).elim
    · intro same
      rw [same]
      exact first
    · intro sent
      rw [sent, List.head?_append, first]
      rfl
  · rw [sends.replays]
    exact fun t' m' member => h.numbered t' m' (fewer t' m' member)
  · intro c r beyond
    rw [sends.replays] at beyond
    have other : ¬ m.Mentions r := by
      intro mentions
      have below := h.numbered t m (sends.head ▸ List.mem_cons_self) r mentions
      exact absurd below (Nat.not_lt.2 beyond)
    rw [(sends.log c).partsOf_eq other]
    exact h.logged c r beyond
  · intro t' c member
    obtain ⟨own, only⟩ := h.kicks t' c (fewer t' _ member)
    refine ⟨own, ?_⟩
    rw [sends.program, Function.update_apply] at member ⊢
    split_ifs at member ⊢ with same
    · rw [same, sends.head] at only
      obtain ⟨-, none_left⟩ := List.cons.inj only
      rw [none_left] at member
      cases member
    · exact only
  · intro d active c here isOpen
    rw [sends.activeDeviceId] at active
    rw [sends.connections] at here
    rw [sends.writerClosed] at isOpen
    exact sends.served h good active here isOpen

/-- What a delivery changes: the log of an open connection. -/
theorem deliver_conn (s : Registry) (conn : ℕ) (msg : Sent) (c : ℕ) :
    ((s.deliver conn msg).conns c).writerClosed = (s.conns c).writerClosed ∧
      ((s.deliver conn msg).conns c).received =
        if c = conn ∧ (s.conns c).writerClosed = false then (s.conns c).received ++ [msg]
        else (s.conns c).received := by
  rw [deliver, conns_update]
  by_cases same : c = conn
  · subst same
    rw [if_pos rfl]
    cases closed : (s.conns c).writerClosed <;> simp [closed]
  · rw [if_neg same, if_neg fun h => same h.1]
    exact ⟨rfl, rfl⟩

theorem destination_sent {s : Registry} {m : Send} {conn : ℕ} {msg : Sent}
    (h : s.destination m = some (conn, msg)) : msg = m.sent := by
  cases m with
  | kick c reason => exact (Prod.mk.inj (Option.some.inj h)).2.symm
  | activate c => exact (Prod.mk.inj (Option.some.inj h)).2.symm
  | replay r c part =>
      obtain ⟨target, -, same⟩ := Option.map_eq_some_iff.1 h
      exact (Prod.mk.inj same).2.symm

theorem send_conn (s : Registry) (m : Send) (c : ℕ) :
    ((s.send m).conns c).writerClosed = (s.conns c).writerClosed ∧
      ((s.send m).conns c).received =
        if s.destination m = some (c, m.sent) ∧ (s.conns c).writerClosed = false then
          (s.conns c).received ++ [m.sent]
        else (s.conns c).received := by
  rw [send]
  cases dest : s.destination m with
  | none => simp
  | some target =>
      obtain ⟨conn, msg⟩ := target
      obtain rfl := destination_sent dest
      obtain ⟨closed, received⟩ := deliver_conn s conn m.sent c
      refine ⟨closed, received.trans ?_⟩
      simp [eq_comm (a := conn)]

theorem send_frame (s : Registry) (m : Send) :
    (s.send m).activations = s.activations ∧ (s.send m).replays = s.replays := by
  rw [send]
  split <;> exact ⟨rfl, rfl⟩

theorem program_of_same {s' s : Registry} (same : SameRegistry s' s)
    (activations : s'.activations = s.activations) : s'.program = s.program := by
  funext t
  cases t with
  | inl conn => simp only [Registry.program, same.phase]
  | inr k => simp only [Registry.program, activations]

/-- The registry after a send, whatever its task then does. -/
theorem send_sends {s s' : Registry} {t : ℕ ⊕ ℕ} {m : Send} {more : List Send}
    (head : s.program t = m :: more) (program : s'.program = Function.update s.program t more)
    (connections : s'.connections = s.connections) (active : s'.activeDeviceId = s.activeDeviceId)
    (accepted : s'.accepted = s.accepted) (replays : s'.replays = s.replays)
    (conn : ∀ c, (s'.conns c).writerClosed = ((s.send m).conns c).writerClosed ∧
      (s'.conns c).received = ((s.send m).conns c).received) : Sends s s' t m more := by
  constructor
  · exact head
  · exact program
  · exact connections
  · exact active
  · exact accepted
  · exact replays
  · exact fun c => (conn c).1.trans (send_conn s m c).1
  · intro c
    rw [(conn c).2, (send_conn s m c).2]
    split_ifs
    · exact .inr rfl
    · exact .inl rfl
  · intro c dest isOpen
    rw [(conn c).2, (send_conn s m c).2, if_pos ⟨dest, isOpen⟩]
  · intro c changed
    rw [(conn c).2, (send_conn s m c).2] at changed
    split_ifs at changed with reached
    · exact reached.1
    · exact absurd rfl changed

theorem program_update_starting (s : Registry) (conn : ℕ) (rest : List Send) :
    (s.update conn fun c => { c with phase := .starting rest }).program =
      Function.update s.program (.inl conn) rest := by
  funext t
  cases t with
  | inl c =>
      simp only [Registry.program, conns_update, Function.update_apply, Sum.inl.injEq]
      split_ifs <;> rfl
  | inr k =>
      rw [Function.update_of_ne Sum.inr_ne_inl]
      rfl

/-- Nothing that a connection is owed has changed. -/
theorem Orderly.of_same_program {s s' : Registry} (h : Orderly s) (paired : Paired s')
    (program : s'.program = s.program) (accepted : s'.accepted = s.accepted)
    (replays : s'.replays = s.replays)
    (phase : ∀ c, (s'.conns c).phase = .finished ∨ (s'.conns c).phase = (s.conns c).phase ∨
      c < s.accepted ∧ (s'.conns c).phase ≠ .refusing)
    (received : ∀ c, (s'.conns c).received = (s.conns c).received)
    (served : ∀ d ∈ s'.activeDeviceId, ∀ c ∈ s'.connections.get? d,
      (s'.conns c).writerClosed = false → Served (s.conns c).received s.program c) : Orderly s' := by
  constructor
  · exact paired
  · intro c beyond
    rw [accepted] at beyond
    obtain ended | same | ⟨known, -⟩ := phase c
    · exact ended
    · rw [same]
      exact h.fresh c beyond
    · exact absurd known (Nat.not_lt.2 beyond)
  · intro c
    obtain ended | same | ⟨-, other⟩ := phase c
    · rw [ended]
      exact Phase.noConfusion
    · rw [same]
      exact h.accepted c
    · exact other
  · intro c known
    rw [accepted] at known
    rw [received]
    exact h.acknowledged c known
  · rw [program, replays]
    exact h.numbered
  · intro c r
    rw [received, replays]
    exact h.logged c r
  · rw [program]
    exact h.kicks
  · intro d active c here isOpen
    rw [received, program]
    exact served d active c here isOpen

/-! ## Becoming active -/

/-- A task takes up a new replay. -/
theorem served_begin (t : ℕ ⊕ ℕ) (replay : ℕ) (pre : List Send) (fresh : partsOf replay log = [])
    (here : program t = pre ++ replayParts.map (.replay replay c))
    (before : ∀ m ∈ pre, ∀ r, ¬ m.Mentions r)
    (alone : ∀ t' ≠ t, ∀ m ∈ program t', ¬ m.Mentions replay)
    (last : (∃ t, .activate c ∈ program t) ∨ lastActivation log ≠ some (.kick "inactive")) :
    Served log program c := by
  refine ⟨last, .inr ⟨t, replay, pre, replayParts, ?_, here, by decide, before, alone⟩⟩
  rw [fresh, List.nil_append]

theorem setActiveSwitch_eq (s : Registry) (deviceId : Option String) :
    ∃ pointer, s.setActiveSwitch deviceId = { s with activeSwitch := pointer } := by
  rw [setActiveSwitch]
  split_ifs
  · exact ⟨_, rfl⟩
  · exact ⟨s.activeSwitch, rfl⟩

theorem beginActivation_frame (s : Registry) (deviceId : Option String) :
    (s.beginActivation deviceId).conns = s.conns ∧
      (s.beginActivation deviceId).connections = s.connections ∧
        (s.beginActivation deviceId).switches = s.switches ∧
          (s.beginActivation deviceId).activeDeviceId = deviceId ∧
            (s.beginActivation deviceId).accepted = s.accepted := by
  obtain ⟨pointer, same⟩ := setActiveSwitch_eq { s with activeDeviceId := deviceId } deviceId
  simp only [beginActivation, same, and_self]

theorem beginActivation_program (s : Registry) (deviceId : Option String) (t : ℕ ⊕ ℕ) :
    (s.beginActivation deviceId).program t =
      if t = .inr s.activations.length then
        (s.activeConn.toList.map fun old => Send.kick old "unbound") ++
          (deviceId.bind s.connections.get?).toList.flatMap fun new =>
            .activate new :: s.replaySends new
      else s.program t := by
  cases t with
  | inl conn =>
      rw [if_neg Sum.inl_ne_inr]
      simp only [Registry.program, (beginActivation_frame s deviceId).1]
  | inr k =>
      simp only [Registry.program, beginActivation, setActiveSwitch, Sum.inr.injEq]
      rw [List.getElem?_append]
      split_ifs with before this_one this_one
      · omega
      · rfl
      · rw [this_one, Nat.sub_self]
        rfl
      · have beyond : s.activations.length ≤ k := Nat.not_lt.1 before
        rw [List.getElem?_eq_none_iff.2 beyond, List.getElem?_eq_none_iff.2]
        · simp only [List.length_singleton]
          omega

theorem beginActivation_orderly {s : Registry} (h : Orderly s) (deviceId : Option String) :
    Orderly (s.beginActivation deviceId) := by
  obtain ⟨conns, connections, switches, active, accepted⟩ := beginActivation_frame s deviceId
  have replays : (s.beginActivation deviceId).replays = s.replays + 1 := rfl
  constructor
  · constructor
    · rw [connections, switches]
      exact h.paired.keys
    · rw [connections, conns, accepted]
      exact h.paired.conn
  · rw [conns, accepted]
    exact h.fresh
  · rw [conns]
    exact h.accepted
  · rw [conns, accepted]
    exact h.acknowledged
  · intro t m member r mentions
    rw [replays]
    rw [beginActivation_program] at member
    split_ifs at member
    · apply (List.mem_append.1 member).elim
      · intro kick
        obtain ⟨old, -, rfl⟩ := List.mem_map.1 kick
        cases mentions
      · intro start
        obtain ⟨new, -, listed⟩ := List.mem_flatMap.1 start
        apply (List.mem_cons.1 listed).elim
        · rintro rfl
          cases mentions
        · intro replay
          obtain ⟨part, -, rfl⟩ := List.mem_map.1 replay
          cases mentions
          exact Nat.lt_succ_self _
    · exact (h.numbered t m member r mentions).trans (Nat.lt_succ_self _)
  · intro c r beyond
    rw [conns]
    rw [replays] at beyond
    exact h.logged c r ((Nat.le_succ _).trans beyond)
  · intro t c member
    rw [beginActivation_program] at member ⊢
    split_ifs at member ⊢
    · apply (List.mem_append.1 member).elim
      · intro kick
        obtain ⟨old, -, same⟩ := List.mem_map.1 kick
        have reason := (Send.kick.inj same).2
        exact absurd reason (by decide)
      · intro start
        obtain ⟨new, -, listed⟩ := List.mem_flatMap.1 start
        apply (List.mem_cons.1 listed).elim
        · exact Send.noConfusion
        · intro replay
          obtain ⟨part, -, same⟩ := List.mem_map.1 replay
          exact Send.noConfusion same
    · exact h.kicks t c member
  · intro d chosen c here isOpen
    rw [active] at chosen
    rw [connections] at here
    rw [conns]
    have sends : (s.beginActivation deviceId).program (.inr s.activations.length) =
        ((s.activeConn.toList.map fun old => Send.kick old "unbound") ++ [.activate c]) ++
          replayParts.map (.replay s.replays c) := by
      rw [beginActivation_program, if_pos rfl, Option.mem_def.1 chosen, Option.bind_some,
        Option.mem_def.1 here, Option.toList_some, List.flatMap_singleton, List.append_assoc]
      rfl
    apply served_begin _ _ _ (h.logged c s.replays le_rfl) sends
    · intro m member r mentions
      apply (List.mem_append.1 member).elim
      · intro kick
        obtain ⟨old, -, rfl⟩ := List.mem_map.1 kick
        exact mentions
      · intro first
        rw [List.mem_singleton.1 first] at mentions
        exact mentions
    · intro t other m member mentions
      rw [beginActivation_program, if_neg other] at member
      exact absurd (h.numbered t m member _ mentions) (lt_irrefl _)
    · refine .inl ⟨.inr s.activations.length, ?_⟩
      rw [sends]
      exact List.mem_append_left _ (List.mem_append_right _ (List.mem_singleton_self _))

theorem setActive_orderly {s : Registry} (h : Orderly s) (deviceId : Option String) :
    Orderly (s.setActive deviceId) := by
  rw [setActive]
  split_ifs
  · exact h
  · exact beginActivation_orderly h deviceId

/-! ## A new connection -/

theorem closeExisting_frame (s : Registry) (id : String) :
    (s.closeExisting id).activations = s.activations ∧
      (s.closeExisting id).replays = s.replays ∧
        ∀ c, ((s.closeExisting id).conns c).received = (s.conns c).received ∧
          (((s.closeExisting id).conns c).writerClosed = false →
            (s.conns c).writerClosed = false) := by
  simp only [closeExisting]
  split
  · exact ⟨rfl, rfl, fun _ => ⟨rfl, fun isOpen => isOpen⟩⟩
  · refine ⟨rfl, rfl, fun c => ?_⟩
    rw [conns_update]
    split_ifs with same
    · rw [same]
      exact ⟨rfl, fun isOpen => isOpen.elim⟩
    · exact ⟨rfl, fun isOpen => isOpen⟩

theorem register_frame (s : Registry) (id peerIp modVer : String) (c : SwitchConn) :
    (s.register id peerIp modVer c).activations = s.activations ∧
      (s.register id peerIp modVer c).replays = s.replays ∧
        (s.register id peerIp modVer c).accepted = s.accepted + 1 ∧
          ∀ conn ≠ s.accepted,
            ((s.register id peerIp modVer c).conns conn).received = (s.conns conn).received ∧
              (((s.register id peerIp modVer c).conns conn).writerClosed = false →
                (s.conns conn).writerClosed = false) := by
  obtain ⟨activations, replays, conns⟩ := closeExisting_frame s id
  have accepted := (closeExisting_same s id).accepted
  refine ⟨activations, replays, congrArg (· + 1) accepted, fun conn other => ?_⟩
  simp only [register, registerSwitch, accepted]
  rw [Function.update_of_ne other]
  exact conns conn

theorem register_program (s : Registry) (id peerIp modVer : String) {c : SwitchConn}
    {sends : List Send} (phase : c.phase = .starting sends) :
    (s.register id peerIp modVer c).program = Function.update s.program (.inl s.accepted) sends := by
  obtain ⟨new, old⟩ := register_conns s id peerIp modVer c
  funext t
  cases t with
  | inl conn =>
      rw [Function.update_apply]
      simp only [Sum.inl.injEq]
      split_ifs with same
      · simp only [Registry.program, same, new, phase]
      · simp only [Registry.program, old conn same]
  | inr k =>
      rw [Function.update_of_ne Sum.inr_ne_inl]
      simp only [Registry.program, (register_frame s id peerIp modVer c).1]

theorem Orderly.idle {s : Registry} (h : Orderly s) : s.program (.inl s.accepted) = [] := by
  simp only [Registry.program, h.fresh s.accepted le_rfl]

/-- A registered connection, with what its handler is to send and what the active
connection is then owed. -/
theorem Orderly.join {s s' : Registry} (h : Orderly s) (id peerIp modVer : String)
    {sends : List Send} (paired : Paired s')
    (conns : s'.conns = (s.register id peerIp modVer
      (newConn id peerIp (.starting sends) true)).conns)
    (accepted : s'.accepted = s.accepted + 1) (replays : s.replays ≤ s'.replays)
    (program : s'.program = Function.update s.program (.inl s.accepted) sends)
    (numbered : ∀ m ∈ sends, ∀ r, m.Mentions r → r < s'.replays)
    (kicks : ∀ c, .kick c "inactive" ∈ sends → c = s.accepted ∧ sends = [.kick c "inactive"])
    (served : ∀ d ∈ s'.activeDeviceId, ∀ c ∈ s'.connections.get? d,
      (s'.conns c).writerClosed = false → Served (s'.conns c).received s'.program c) :
    Orderly s' := by
  obtain ⟨new, old⟩ := register_conns s id peerIp modVer (newConn id peerIp (.starting sends) true)
  obtain ⟨-, -, -, frame⟩ :=
    register_frame s id peerIp modVer (newConn id peerIp (.starting sends) true)
  constructor
  · exact paired
  · intro c beyond
    rw [accepted] at beyond
    have other : c ≠ s.accepted := by omega
    rw [conns, old c other]
    exact h.fresh c (by omega)
  · intro c
    rw [conns]
    by_cases same : c = s.accepted
    · rw [same, new]
      exact Phase.noConfusion
    · rw [old c same]
      exact h.accepted c
  · intro c known
    rw [conns]
    by_cases same : c = s.accepted
    · rw [same, new]
      rfl
    · rw [(frame c same).1]
      exact h.acknowledged c (by omega)
  · intro t m member r mentions
    rw [program, Function.update_apply] at member
    split_ifs at member
    · exact numbered m member r mentions
    · exact (h.numbered t m member r mentions).trans_le replays
  · intro c r beyond
    rw [conns]
    by_cases same : c = s.accepted
    · rw [same, new]
      rfl
    · rw [(frame c same).1]
      exact h.logged c r (replays.trans beyond)
  · intro t c member
    rw [program, Function.update_apply] at member ⊢
    split_ifs at member ⊢ with same
    · obtain ⟨own, only⟩ := kicks c member
      exact ⟨same.trans (congrArg Sum.inl own.symm), only⟩
    · exact h.kicks t c member
  · exact served

/-- The first connection becomes active and is replayed to by its own handler. -/
theorem Orderly.first {s : Registry} (h : Orderly s) (id peerIp modVer : String) :
    Orderly { ({ s.register id peerIp modVer
        (newConn id peerIp (.starting (s.replaySends s.accepted)) true) with
      activeDeviceId := some id }.setActiveSwitch (some id)) with replays := s.replays + 1 } := by
  obtain ⟨pointer, same⟩ := setActiveSwitch_eq { s.register id peerIp modVer
    (newConn id peerIp (.starting (s.replaySends s.accepted)) true) with
      activeDeviceId := some id } (some id)
  rw [same]
  obtain ⟨-, -, accepted, -⟩ := register_frame s id peerIp modVer
    (newConn id peerIp (.starting (s.replaySends s.accepted)) true)
  have paired := register_paired h.paired id peerIp modVer
    (c := newConn id peerIp (.starting (s.replaySends s.accepted)) true) rfl Phase.noConfusion
  have program := register_program s id peerIp modVer
    (c := newConn id peerIp (.starting (s.replaySends s.accepted)) true) rfl
  apply h.join id peerIp modVer
  · exact ⟨paired.keys, paired.conn⟩
  · rfl
  · exact accepted
  · exact Nat.le_succ _
  · exact program
  · intro m member r mentions
    obtain ⟨part, -, rfl⟩ := List.mem_map.1 member
    cases mentions
    exact Nat.lt_succ_self _
  · intro conn member
    obtain ⟨part, -, kick⟩ := List.mem_map.1 member
    exact Send.noConfusion kick
  · intro d chosen conn here isOpen
    obtain rfl := Option.some.inj chosen
    have registered := (register_get? s id peerIp modVer
      (newConn id peerIp (.starting (s.replaySends s.accepted)) true) id).symm.trans here
    rw [if_pos rfl] at registered
    obtain rfl := Option.some.inj registered
    have first := (register_conns s id peerIp modVer
      (newConn id peerIp (.starting (s.replaySends s.accepted)) true)).1
    simp only [first]
    apply served_begin (.inl s.accepted) s.replays []
    · rfl
    · exact (congrFun program _).trans (Function.update_self ..)
    · exact nofun
    · intro t other m member mentions
      have member := (congrFun program t).subst (motive := (m ∈ ·)) member
      rw [Function.update_of_ne other] at member
      exact absurd (h.numbered t m member _ mentions) (lt_irrefl _)
    · exact .inr nofun

theorem hello_orderly {s : Registry} (h : Orderly s) {clientVer deviceId peerIp modVer : String}
    (good : Replays clientVer s (.hello deviceId peerIp modVer)) :
    Orderly (s.hello clientVer deviceId peerIp modVer) := by
  obtain ⟨version, other_active⟩ := good
  have accepts : ¬ refuses clientVer modVer = true := by
    rw [version]
    exact Bool.false_ne_true
  rw [hello]
  generalize s.effectiveId deviceId peerIp = id at other_active
  rw [if_neg accepts]
  cases active : s.activeDeviceId with
  | none =>
      exact h.first id peerIp modVer
  | some a =>
      let c := newConn id peerIp (.starting [.kick s.accepted "inactive"]) true
      obtain ⟨activations, replays, accepted, frame⟩ := register_frame s id peerIp modVer c
      have program := register_program s id peerIp modVer (c := c) rfl
      apply h.join id peerIp modVer
      · exact register_paired h.paired id peerIp modVer (c := c) rfl Phase.noConfusion
      · rfl
      · exact accepted
      · exact replays.ge
      · exact program
      · intro m member r mentions
        rw [List.mem_singleton.1 member] at mentions
        cases mentions
      · intro conn member
        obtain ⟨rfl, -⟩ := Send.kick.inj (List.mem_singleton.1 member)
        exact ⟨rfl, rfl⟩
      · intro d chosen conn here isOpen
        rw [(register_pointers s id peerIp modVer c).1] at chosen
        rw [register_get?] at here
        have other : d ≠ id := by
          rintro rfl
          exact other_active chosen
        rw [if_neg other] at here
        have known := (h.paired.conn d conn here).1.ne
        rw [program, (frame conn known).1]
        apply (h.served d chosen conn here ((frame conn known).2 isOpen)).new_task h.idle
        intro m member r mentions
        rw [List.mem_singleton.1 member] at mentions
        cases mentions

/-! ## Every step -/

theorem program_update_idle {s : Registry} {conn : ℕ} {f : SwitchConn → SwitchConn}
    (idle : s.program (.inl conn) = [])
    (after : ∀ rest, (f (s.conns conn)).phase = .starting rest → rest = []) :
    (s.update conn f).program = s.program := by
  funext t
  cases t with
  | inl c =>
      by_cases same : c = conn
      · rw [same, idle]
        simp only [Registry.program, conns_update, if_true]
        split
        · next rest phase => exact after rest phase
        · rfl
      · simp only [Registry.program, conns_update, if_neg same]
  | inr k => rfl

/-- A change of a connection that sends nothing and opens no writer. -/
theorem Orderly.update {s : Registry} (h : Orderly s) {conn : ℕ} {f : SwitchConn → SwitchConn}
    (program : (s.update conn f).program = s.program) (paired : Paired (s.update conn f))
    (phase : (f (s.conns conn)).phase = .finished ∨
      (f (s.conns conn)).phase = (s.conns conn).phase ∨
        conn < s.accepted ∧ (f (s.conns conn)).phase ≠ .refusing)
    (received : (f (s.conns conn)).received = (s.conns conn).received)
    (writer : (f (s.conns conn)).writerClosed = false → (s.conns conn).writerClosed = false) :
    Orderly (s.update conn f) := by
  have logs (c : ℕ) : ((s.update conn f).conns c).received = (s.conns c).received := by
    rw [conns_update]
    split_ifs with same
    · rw [received, same]
    · rfl
  apply h.of_same_program paired program rfl rfl
  · intro c
    rw [conns_update]
    split_ifs with same
    · rw [same]
      exact phase
    · exact .inr (.inl rfl)
  · exact logs
  · intro d active c here isOpen
    apply h.served d active c here
    rw [conns_update] at isOpen
    split_ifs at isOpen with same
    · rw [same]
      exact writer isOpen
    · exact isOpen

/-- A connection whose handler still runs has been accepted. -/
theorem Orderly.known {s : Registry} (h : Orderly s) {conn : ℕ}
    (running : (s.conns conn).phase ≠ .finished) : conn < s.accepted := by
  by_contra beyond
  exact running (h.fresh conn (Nat.not_lt.1 beyond))

/-- The entry of a finished handler is taken out. -/
theorem Orderly.erase {s : Registry} (h : Orderly s) {conn : ℕ} {id : String}
    (here : s.connections.get? id = some conn)
    (program : (s.update conn fun c => { c with phase := .finished }).program = s.program) :
    Orderly ({ s.update conn fun c => { c with phase := .finished } with
      connections := s.connections.erase id }.unregisterSwitch id) := by
  have frame (c : ℕ) : ((s.update conn fun c => { c with phase := .finished }).conns c).received =
        (s.conns c).received ∧
      ((s.update conn fun c => { c with phase := .finished }).conns c).writerClosed =
        (s.conns c).writerClosed := by
    rw [conns_update]
    split_ifs with same
    · rw [same]
      exact ⟨rfl, rfl⟩
    · exact ⟨rfl, rfl⟩
  have paired := erase_paired h.paired (fun c => { c with phase := .finished }) here
  apply h.of_same_program paired (funext fun t => congrFun program t) rfl rfl
  · intro c
    simp only [unregisterSwitch, conns_update]
    split_ifs
    · exact .inl rfl
    · exact .inr (.inl rfl)
  · exact fun c => (frame c).1
  · intro d active c there isOpen
    simp only [unregisterSwitch, Option.mem_def, Dict.get?_erase] at there
    split_ifs at there
    exact h.served d active c there ((frame c).2.symm.trans isOpen)

theorem Orderly.unbind {s : Registry} (h : Orderly s) (pointer : Option String) :
    Orderly { s with activeDeviceId := none, activeSwitch := pointer } :=
  h.of_same_program ⟨h.paired.keys, h.paired.conn⟩ rfl rfl rfl (fun _ => .inr (.inl rfl))
    (fun _ => rfl) nofun

theorem teardown_orderly {s : Registry} (h : Orderly s) {conn : ℕ}
    (closing : (s.conns conn).phase = .closing) : Orderly (s.teardown conn) := by
  have idle : s.program (.inl conn) = [] := by
    simp only [Registry.program, closing]
  have program : (s.update conn fun c => { c with phase := .finished }).program = s.program :=
    program_update_idle idle nofun
  rw [teardown]
  dsimp only
  split_ifs with here active
  · have erased := h.erase here program
    obtain ⟨pointer, same⟩ := setActiveSwitch_eq
      { ({ s.update conn fun c => { c with phase := .finished } with
          connections := s.connections.erase (s.conns conn).deviceId }.unregisterSwitch
            (s.conns conn).deviceId) with activeDeviceId := none } none
    have unbound := erased.unbind pointer
    rw [← same] at unbound
    split
    · exact setActive_orderly unbound _
    · exact unbound
  · exact h.erase here program
  · apply h.update program
    · exact h.paired.update conn rfl fun registered => absurd registered here
    · exact .inl rfl
    · rfl
    · exact id

theorem pending_of_mem {s : Registry} {sends : List Send} (member : sends ∈ s.activations)
    {m : Send} (listed : m ∈ sends) : ∃ t, m ∈ s.program t := by
  obtain ⟨k, at_k⟩ := List.mem_iff_getElem?.1 member
  refine ⟨.inr k, ?_⟩
  simp only [Registry.program, at_k, Option.getD_some]
  exact listed

theorem program_set_activation {s s' : Registry} (same : s'.activations = s.activations) {k : ℕ}
    {sends : List Send} (listed : s.activations[k]? = some sends) (rest : List Send) :
    { s' with activations := s.activations.set k rest }.program =
      Function.update s'.program (.inr k) rest := by
  have bound : k < s.activations.length := (List.getElem?_eq_some_iff.1 listed).1
  funext t
  cases t with
  | inl c =>
      rw [Function.update_of_ne Sum.inl_ne_inr]
      rfl
  | inr j =>
      rw [Function.update_apply]
      simp only [Registry.program, List.getElem?_set, same, Sum.inr.injEq, bound, if_true]
      by_cases here : j = k
      · rw [if_pos here, if_pos here.symm, Option.getD_some]
      · rw [if_neg here, if_neg (Ne.symm here)]

theorem step_orderly (clientVer : String) (s : Registry) (e : Event) (h : Orderly s)
    (good : Replays clientVer s e) : Orderly (step clientVer s e) := by
  cases e with
  | hello deviceId peerIp modVer => exact hello_orderly h good
  | resume conn =>
      simp only [step, resume]
      cases phase : (s.conns conn).phase with
      | refusing => exact absurd phase (h.accepted conn)
      | closing => exact teardown_orderly h phase
      | main => exact h
      | finished => exact h
      | starting rest =>
          have running : (s.conns conn).phase ≠ .finished := by
            rw [phase]
            exact Phase.noConfusion
          have sends : s.program (.inl conn) = rest := by
            simp only [Registry.program, phase]
          cases rest with
          | nil =>
              apply h.update
              · exact program_update_idle sends fun _ => Phase.noConfusion
              · exact h.paired.update conn rfl fun _ => Phase.noConfusion
              · exact .inr (.inr ⟨h.known running, Phase.noConfusion⟩)
              · rfl
              · exact id
          | cons msg rest =>
              have same := send_same s msg
              have kept := program_of_same same (send_frame s msg).1
              have next : Sends s ((s.send msg).update conn fun c =>
                  { c with phase := .starting rest }) (.inl conn) msg rest := by
                apply send_sends sends
                · rw [program_update_starting, kept]
                · exact same.connections
                · exact same.activeDeviceId
                · exact same.accepted
                · exact (send_frame s msg).2
                · intro c
                  rw [conns_update]
                  split_ifs with this_one
                  · rw [this_one]
                    exact ⟨rfl, rfl⟩
                  · exact ⟨rfl, rfl⟩
              apply next.orderly h
              · rintro c rfl active
                obtain ⟨own, only⟩ := h.kicks (.inl conn) c (sends ▸ List.mem_cons_self)
                obtain rfl := Sum.inl.inj own
                have last := sends.symm.trans only
                obtain ⟨queue, member, listed⟩ := good (phase.trans (congrArg _ last)) active
                exact pending_of_mem member listed
              · apply (same.paired h.paired).update
                · rfl
                · exact fun _ => Phase.noConfusion
              · intro c beyond
                have other : c ≠ conn := ((h.known running).trans_le beyond).ne'
                rw [conns_update, if_neg other, same.phase]
                exact h.fresh c beyond
              · intro c
                rw [conns_update]
                split_ifs
                · exact Phase.noConfusion
                · rw [same.phase]
                  exact h.accepted c
  | raises conn => exact good.elim
  | eof conn =>
      simp only [step]
      split
      · next phase =>
          have idle : s.program (.inl conn) = [] := by
            simp only [Registry.program, phase]
          have running : (s.conns conn).phase ≠ .finished := by
            rw [phase]
            exact Phase.noConfusion
          apply h.update
          · exact program_update_idle idle fun _ => Phase.noConfusion
          · exact h.paired.update conn rfl fun _ => Phase.noConfusion
          · exact .inr (.inr ⟨h.known running, Phase.noConfusion⟩)
          · rfl
          · exact fun isOpen => Bool.noConfusion isOpen
      · exact h
  | reset conn =>
      have same := update_same s conn (f := fun c => { c with writerClosed := true })
        (fun _ => rfl) fun _ => rfl
      apply h.update (program_of_same same rfl) (same.paired h.paired)
      · exact .inr (.inl rfl)
      · rfl
      · exact fun isOpen => Bool.noConfusion isOpen
  | setActive deviceId => exact setActive_orderly h deviceId
  | resumeActivation k =>
      simp only [step]
      split
      · next msg rest listed =>
          have same := send_same s msg
          have kept := program_of_same same (send_frame s msg).1
          have sends : s.program (.inr k) = msg :: rest := by
            simp only [Registry.program, listed, Option.getD_some]
          have next : Sends s { s.send msg with activations := s.activations.set k rest }
              (.inr k) msg rest := by
            apply send_sends sends
            · rw [← kept]
              exact program_set_activation (send_frame s msg).1 listed rest
            · exact same.connections
            · exact same.activeDeviceId
            · exact same.accepted
            · exact (send_frame s msg).2
            · exact fun _ => ⟨rfl, rfl⟩
          apply next.orderly h
          · rintro c rfl -
            have own := (h.kicks (.inr k) c (sends ▸ List.mem_cons_self)).1
            exact absurd own Sum.inr_ne_inl
          · exact ⟨(same.paired h.paired).keys, (same.paired h.paired).conn⟩
          · intro c beyond
            rw [same.phase]
            exact h.fresh c beyond
          · intro c
            rw [same.phase]
            exact h.accepted c
      · exact h
      · exact h
  | activationRaises k => exact good.elim

/-- Along such steps the active connection has its whole replay whenever nothing is left to
send. -/
theorem active_replayed (clientVer : String) (events : List Event)
    (good : Along (step clientVer) (Replays clientVer) {} events) :
    Throughout (step clientVer) (fun s => AllSent s → ActiveReplayed s) {} events := by
  have start : Orderly {} := by
    have idle (t : ℕ ⊕ ℕ) : Registry.program {} t = [] := by
      cases t <;> rfl
    constructor
    · exact ⟨fun _ => Iff.rfl, nofun⟩
    · exact fun _ _ => rfl
    · exact fun _ => Phase.noConfusion
    · exact nofun
    · intro t m member
      rw [idle] at member
      cases member
    · exact fun _ _ _ => rfl
    · intro t c member
      rw [idle] at member
      cases member
    · exact nofun
  exact throughout_mono (fun s h sent => h.activeReplayed sent)
    (guarded_run (step_orderly clientVer) start good)

set_option maxRecDepth 4000 in
theorem active_replayed_twoSwitches :
    Throughout (step "1.2") (fun s => AllSent s → ActiveReplayed s) {} twoSwitches :=
  active_replayed "1.2" twoSwitches (by decide)

/-- The active Switch reconnects before the end of its old stream is read. -/
def activeReconnect : List Event :=
  [.hello "mario" "10.0.0.5" "1.2"] ++ List.replicate 13 (.resume 0) ++
    [.hello "mario" "10.0.0.5" "1.2", .resume 1, .resume 1, .eof 0, .resume 0]

/-- The new connection is the active one, was told that it is inactive and got no replay. -/
theorem reconnect_not_replayed :
    AllSent (run (step "1.2") {} activeReconnect) ∧
      ¬ ActiveReplayed (run (step "1.2") {} activeReconnect) := by
  have active : (run (step "1.2") {} activeReconnect).activeDeviceId = some "mario" := by decide +kernel
  have here : (run (step "1.2") {} activeReconnect).connections.get? "mario" = some 1 := by decide +kernel
  have isOpen : ((run (step "1.2") {} activeReconnect).conns 1).writerClosed = false := by decide +kernel
  have log : ((run (step "1.2") {} activeReconnect).conns 1).received =
      [.helloAck true, .kick "inactive"] := by decide +kernel
  constructor
  · decide +kernel
  · intro replayed
    obtain ⟨-, -, last⟩ := replayed "mario" active 1 here isOpen
    rw [log] at last
    exact last rfl

end Registry

end SmoArchipelago.Bridge
