import SmoArchipelago.Bridge.Registry

/-! # Consistency of the two registries

Between its HELLO and its main loop a handler has registered its connection but not yet
settled it. Outside of these times the two registries and their active pointers agree. -/

namespace SmoArchipelago.Bridge.Registry

open Library Runs

/-- No registered connection's handler is still on the way to its main loop. -/
def Quiet (s : Registry) : Prop :=
  ∀ d c, s.connections.get? d = some c →
    (s.conns c).phase ≠ .refusing ∧ ∀ rest, (s.conns c).phase ≠ .starting rest

structure Consistent (s : Registry) : Prop where
  active : ∀ d ∈ s.activeDeviceId, d ∈ s.connections.keys
  agree : s.activeSwitch = s.activeDeviceId
  keys : ∀ d, d ∈ s.switches.keys ↔ d ∈ s.connections.keys
  running : ∀ d c, s.connections.get? d = some c → (s.conns c).phase ≠ .finished
  some_active : s.connections.keys ≠ [] → s.activeDeviceId ≠ none

/-- A refusal does not take out the active device, no replay of a registered connection
raises, and the active device is not unbound. -/
def Settles (s : Registry) : Event → Prop
  | .resume conn =>
      (s.conns conn).phase = .refusing →
        s.connections.get? (s.conns conn).deviceId = some conn →
          s.activeDeviceId ≠ some (s.conns conn).deviceId
  | .raises conn =>
      (s.conns conn).replaying = true → s.connections.get? (s.conns conn).deviceId ≠ some conn
  | .setActive deviceId => deviceId = none → s.activeDeviceId = none
  | .hello _ _ _ | .eof _ | .reset _ | .resumeActivation _ | .activationRaises _ => True

instance (s : Registry) : ∀ e, Decidable (Settles s e)
  | .resume _ => inferInstanceAs (Decidable (_ = _ → _ = _ → _ ≠ _))
  | .raises _ => inferInstanceAs (Decidable (_ = _ → _ ≠ _))
  | .setActive _ => inferInstanceAs (Decidable (_ = _ → _ = _))
  | .hello _ _ _ | .eof _ | .reset _ | .resumeActivation _ | .activationRaises _ => isTrue trivial

/-- The two registries hold the same running connections under their own ids. -/
structure Paired (s : Registry) : Prop where
  keys : ∀ d, d ∈ s.switches.keys ↔ d ∈ s.connections.keys
  conn : ∀ d c, s.connections.get? d = some c →
    c < s.accepted ∧ (s.conns c).deviceId = d ∧ (s.conns c).phase ≠ .finished

/-- What holds in every state; only a refused connection may be there with none active. -/
structure Invariant (s : Registry) : Prop where
  paired : Paired s
  active : ∀ d ∈ s.activeDeviceId, d ∈ s.connections.keys
  agree : s.activeSwitch = s.activeDeviceId
  some_active : ∀ d c, s.connections.get? d = some c → (s.conns c).phase ≠ .refusing →
    s.activeDeviceId ≠ none

theorem Invariant.consistent {s : Registry} (h : Invariant s) (quiet : Quiet s) : Consistent s := by
  constructor
  · exact h.active
  · exact h.agree
  · exact h.paired.keys
  · exact fun d c here => (h.paired.conn d c here).2.2
  · intro some_left
    obtain ⟨d, member⟩ := List.exists_mem_of_ne_nil _ some_left
    obtain ⟨c, here⟩ := Dict.mem_keys_iff.1 member
    exact h.some_active d c here (quiet d c here).1

/-- Nothing that the invariant reads has changed. -/
structure SameRegistry (s' s : Registry) : Prop where
  connections : s'.connections = s.connections
  activeDeviceId : s'.activeDeviceId = s.activeDeviceId
  switches : s'.switches = s.switches
  activeSwitch : s'.activeSwitch = s.activeSwitch
  accepted : s'.accepted = s.accepted
  deviceId : ∀ c, (s'.conns c).deviceId = (s.conns c).deviceId
  phase : ∀ c, (s'.conns c).phase = (s.conns c).phase

theorem SameRegistry.refl (s : Registry) : SameRegistry s s :=
  ⟨rfl, rfl, rfl, rfl, rfl, fun _ => rfl, fun _ => rfl⟩

theorem SameRegistry.paired {s' s : Registry} (same : SameRegistry s' s) (h : Paired s) :
    Paired s' := by
  constructor
  · intro d
    rw [same.switches, same.connections]
    exact h.keys d
  · intro d c here
    rw [same.connections] at here
    rw [same.accepted, same.deviceId, same.phase]
    exact h.conn d c here

theorem SameRegistry.invariant {s' s : Registry} (same : SameRegistry s' s) (h : Invariant s) :
    Invariant s' := by
  constructor
  · exact same.paired h.paired
  · rw [same.activeDeviceId, same.connections]
    exact h.active
  · rw [same.activeSwitch, same.activeDeviceId]
    exact h.agree
  · intro d c here
    rw [same.connections] at here
    rw [same.phase, same.activeDeviceId]
    exact h.some_active d c here

theorem Invariant.activations {s : Registry} (h : Invariant s) (tasks : List (List Send)) :
    Invariant { s with activations := tasks } :=
  ⟨⟨h.paired.keys, h.paired.conn⟩, h.active, h.agree, h.some_active⟩

/-- A change of a connection that keeps its id and its phase. -/
theorem update_same (s : Registry) (conn : ℕ) {f : SwitchConn → SwitchConn}
    (id : ∀ c, (f c).deviceId = c.deviceId) (phase : ∀ c, (f c).phase = c.phase) :
    SameRegistry (s.update conn f) s := by
  refine ⟨rfl, rfl, rfl, rfl, rfl, fun c => ?_, fun c => ?_⟩
  · rw [conns_update]
    split_ifs with here
    · rw [id, here]
    · rfl
  · rw [conns_update]
    split_ifs with here
    · rw [phase, here]
    · rfl

theorem deliver_same (s : Registry) (conn : ℕ) (msg : Sent) :
    SameRegistry (s.deliver conn msg) s := by
  apply update_same
  · intro c
    split_ifs <;> rfl
  · intro c
    split_ifs <;> rfl

theorem send_same (s : Registry) (msg : Send) : SameRegistry (s.send msg) s := by
  rw [send]
  split
  · exact deliver_same s _ _
  · exact SameRegistry.refl s

theorem closeExisting_same (s : Registry) (id : String) : SameRegistry (s.closeExisting id) s := by
  simp only [closeExisting]
  split
  · exact SameRegistry.refl s
  · exact update_same s _ (fun _ => rfl) fun _ => rfl

/-- A change of phase that does not end a registered handler. -/
theorem Paired.update {s : Registry} (h : Paired s) (conn : ℕ) {f : SwitchConn → SwitchConn}
    (id : (f (s.conns conn)).deviceId = (s.conns conn).deviceId)
    (running : s.connections.get? (s.conns conn).deviceId = some conn →
      (f (s.conns conn)).phase ≠ .finished) : Paired (s.update conn f) := by
  constructor
  · exact h.keys
  · intro d c here
    obtain ⟨known, name, phase⟩ := h.conn d c here
    rw [conns_update]
    split_ifs with same
    · subst same
      refine ⟨known, id.trans name, running ?_⟩
      rw [name]
      exact here
    · exact ⟨known, name, phase⟩

/-- Nor a refusal, unless it is over. -/
theorem Invariant.update {s : Registry} (h : Invariant s) (conn : ℕ) {f : SwitchConn → SwitchConn}
    (id : (f (s.conns conn)).deviceId = (s.conns conn).deviceId)
    (running : s.connections.get? (s.conns conn).deviceId = some conn →
      (f (s.conns conn)).phase ≠ .finished)
    (settled : (s.conns conn).phase = .refusing → (f (s.conns conn)).phase = .finished) :
    Invariant (s.update conn f) := by
  constructor
  · exact h.paired.update conn id running
  · exact h.active
  · exact h.agree
  · intro d c here
    rw [conns_update]
    split_ifs with same
    · subst same
      intro other
      apply h.some_active d c here
      intro refusing
      apply running _ (settled refusing)
      rw [(h.paired.conn d c here).2.1]
      exact here
    · exact h.some_active d c here

theorem setActiveSwitch_of_known {s : Registry} {deviceId : Option String}
    (known : ∀ d ∈ deviceId, d ∈ s.switches.keys) :
    s.setActiveSwitch deviceId = { s with activeSwitch := deviceId } :=
  if_pos known

/-- Both pointers move to a registered device or to none. -/
theorem beginActivation_invariant {s : Registry} (h : Paired s) {deviceId : Option String}
    (known : ∀ d ∈ deviceId, d ∈ s.connections.keys)
    (some_active : ∀ d c, s.connections.get? d = some c → (s.conns c).phase ≠ .refusing →
      deviceId ≠ none) : Invariant (s.beginActivation deviceId) := by
  have known' : ∀ d ∈ deviceId, d ∈ { s with activeDeviceId := deviceId }.switches.keys :=
    fun d here => (h.keys d).2 (known d here)
  rw [beginActivation, setActiveSwitch_of_known known']
  exact ⟨⟨h.keys, h.conn⟩, known, rfl, some_active⟩

theorem setActive_invariant {s : Registry} (h : Invariant s) (deviceId : Option String)
    (bound : deviceId = none → s.activeDeviceId = none) : Invariant (s.setActive deviceId) := by
  rw [setActive]
  split_ifs with refused
  · exact h
  · apply beginActivation_invariant h.paired
    · intro d here
      by_contra unknown
      exact refused (.inl ⟨d, here, unknown⟩)
    · intro _ _ _ _ none_asked
      exact refused (.inr (none_asked.trans (bound none_asked).symm))

/-- The new connection takes its place in both registries. -/
theorem register_paired {s : Registry} (h : Paired s) (id peerIp modVer : String) {c : SwitchConn}
    (name : c.deviceId = id) (running : c.phase ≠ .finished) :
    Paired (s.register id peerIp modVer c) := by
  have same := closeExisting_same s id
  constructor
  · intro d
    simp only [register, registerSwitch, Dict.mem_keys_set, same.switches, same.connections, h.keys]
  · intro d conn here
    simp only [register, registerSwitch, Dict.get?_set, same.connections, same.accepted] at here ⊢
    rw [Function.update_apply]
    by_cases replaced : d = id
    · rw [if_pos replaced] at here
      obtain rfl := Option.some.inj here
      rw [if_pos rfl]
      exact ⟨Nat.lt_succ_self _, name.trans replaced.symm, running⟩
    · rw [if_neg replaced] at here
      obtain ⟨known, name, phase⟩ := h.conn d conn here
      rw [if_neg known.ne, same.deviceId, same.phase]
      exact ⟨known.trans (Nat.lt_succ_self _), name, phase⟩

theorem register_get? (s : Registry) (id peerIp modVer : String) (c : SwitchConn) (d : String) :
    (s.register id peerIp modVer c).connections.get? d =
      if d = id then some s.accepted else s.connections.get? d := by
  have same := closeExisting_same s id
  simp only [register, registerSwitch, Dict.get?_set, same.connections, same.accepted]

theorem register_conns (s : Registry) (id peerIp modVer : String) (c : SwitchConn) :
    (s.register id peerIp modVer c).conns s.accepted = c ∧
      ∀ conn, conn ≠ s.accepted →
        ((s.register id peerIp modVer c).conns conn).phase = (s.conns conn).phase := by
  have same := closeExisting_same s id
  simp only [register, registerSwitch, same.accepted]
  constructor
  · exact Function.update_self _ _ _
  · intro conn other
    rw [Function.update_of_ne other, same.phase]

theorem register_pointers (s : Registry) (id peerIp modVer : String) (c : SwitchConn) :
    (s.register id peerIp modVer c).activeDeviceId = s.activeDeviceId ∧
      (s.register id peerIp modVer c).activeSwitch = s.activeSwitch :=
  ⟨(closeExisting_same s id).activeDeviceId, (closeExisting_same s id).activeSwitch⟩

theorem register_invariant {s : Registry} (h : Invariant s) (id peerIp modVer : String)
    {c : SwitchConn} (name : c.deviceId = id) (running : c.phase ≠ .finished)
    (settled : c.phase ≠ .refusing → s.activeDeviceId ≠ none) :
    Invariant (s.register id peerIp modVer c) := by
  obtain ⟨active, activeSwitch⟩ := register_pointers s id peerIp modVer c
  obtain ⟨new, old⟩ := register_conns s id peerIp modVer c
  constructor
  · exact register_paired h.paired id peerIp modVer name running
  · intro d here
    rw [active] at here
    rw [Dict.mem_keys_iff, register_get?]
    split_ifs with replaced
    · exact ⟨_, rfl⟩
    · exact Dict.mem_keys_iff.1 (h.active d here)
  · rw [active, activeSwitch]
    exact h.agree
  · intro d conn here phase
    rw [active]
    rw [register_get?] at here
    split_ifs at here with replaced
    · obtain rfl := Option.some.inj here
      rw [new] at phase
      exact settled phase
    · have known := (h.paired.conn d conn here).1
      rw [old conn known.ne] at phase
      exact h.some_active d conn here phase

theorem hello_invariant {s : Registry} (h : Invariant s) (clientVer deviceId peerIp modVer : String) :
    Invariant (s.hello clientVer deviceId peerIp modVer) := by
  rw [hello]
  generalize s.effectiveId deviceId peerIp = id
  by_cases refused : refuses clientVer modVer = true
  · rw [if_pos refused]
    exact register_invariant h _ _ _ rfl Phase.noConfusion fun refusing => absurd rfl refusing
  · rw [if_neg refused]
    cases active : s.activeDeviceId with
    | none =>
        have paired := register_paired h.paired id peerIp modVer
          (c := newConn id peerIp (.starting (s.replaySends s.accepted)) true) rfl Phase.noConfusion
        have here : id ∈ (s.register id peerIp modVer
            (newConn id peerIp (.starting (s.replaySends s.accepted)) true)).connections.keys := by
          rw [Dict.mem_keys_iff, register_get?, if_pos rfl]
          exact ⟨_, rfl⟩
        simp only
        rw [setActiveSwitch_of_known]
        · refine ⟨⟨paired.keys, paired.conn⟩, ?_, rfl, ?_⟩
          · intro d same
            rw [← Option.some.inj same]
            exact here
          · exact fun _ _ _ _ => Option.some_ne_none _
        · intro d same
          rw [← Option.some.inj same]
          exact (paired.keys _).2 here
    | some other =>
        have settled : s.activeDeviceId ≠ none := active ▸ Option.some_ne_none other
        exact register_invariant h id peerIp modVer
          (c := newConn id peerIp (.starting [.kick s.accepted "inactive"]) true) rfl
          Phase.noConfusion fun _ => settled

/-- Taking out the entry of a finished handler. -/
theorem erase_paired {s : Registry} (h : Paired s) {conn : ℕ} (f : SwitchConn → SwitchConn)
    {id : String} (here : s.connections.get? id = some conn) :
    Paired ({ s.update conn f with connections := s.connections.erase id }.unregisterSwitch id) := by
  constructor
  · intro d
    simp only [unregisterSwitch, update, Dict.mem_keys_erase, h.keys]
  · intro d c there
    simp only [unregisterSwitch, Dict.get?_erase] at there
    split_ifs at there with same
    obtain ⟨known, id_eq, phase⟩ := h.conn d c there
    have other : c ≠ conn := by
      rintro rfl
      apply same
      rw [← id_eq, (h.conn id c here).2.1]
    refine ⟨known, ?_, ?_⟩
    · change ((s.update conn f).conns c).deviceId = d
      rw [conns_update, if_neg other]
      exact id_eq
    · change ((s.update conn f).conns c).phase ≠ .finished
      rw [conns_update, if_neg other]
      exact phase

/-- The entry of a device that is not active leaves the pointers alone. -/
theorem erase_invariant {s : Registry} (h : Invariant s) {conn : ℕ} (f : SwitchConn → SwitchConn)
    {id : String} (here : s.connections.get? id = some conn)
    (inactive : s.activeDeviceId ≠ some id) :
    Invariant ({ s.update conn f with
      connections := s.connections.erase id }.unregisterSwitch id) := by
  constructor
  · exact erase_paired h.paired f here
  · intro d active
    apply (Dict.mem_keys_erase _ _ _).2
    constructor
    · rintro rfl
      exact inactive active
    · exact h.active d active
  · have kept : s.activeSwitch ≠ some id := h.agree ▸ inactive
    exact (if_neg kept).trans h.agree
  · intro d c there phase
    simp only [unregisterSwitch, Dict.get?_erase] at there
    split_ifs at there with same
    have other : c ≠ conn := by
      rintro rfl
      apply same
      rw [← (h.paired.conn d c there).2.1, (h.paired.conn id c here).2.1]
    apply h.some_active d c there
    change ((s.update conn f).conns c).phase ≠ .refusing at phase
    rw [conns_update, if_neg other] at phase
    exact phase

theorem finishRefusal_invariant {s : Registry} (h : Invariant s) {conn : ℕ}
    (refusing : (s.conns conn).phase = .refusing) (good : Settles s (.resume conn)) :
    Invariant (s.finishRefusal conn) := by
  rw [finishRefusal]
  split_ifs with here
  · exact erase_invariant h _ here (good refusing here)
  · apply h.update
    · rfl
    · exact fun registered => absurd registered here
    · exact fun _ => rfl

theorem teardown_invariant {s : Registry} (h : Invariant s) (conn : ℕ) :
    Invariant (s.teardown conn) := by
  rw [teardown]
  dsimp only
  split_ifs with here active
  · have paired := erase_paired h.paired (fun c => { c with phase := .finished }) here
    rw [setActiveSwitch_of_known (by simp)]
    split
    · next promoted first =>
        have member := List.mem_of_mem_head? first
        rw [setActive, if_neg]
        · apply beginActivation_invariant
          · exact ⟨paired.keys, paired.conn⟩
          · intro d same
            rw [← Option.some.inj same]
            exact member
          · exact fun _ _ _ _ => Option.some_ne_none _
        · rintro (⟨d, same, unknown⟩ | none_active)
          · rw [← Option.some.inj same] at unknown
            exact unknown member
          · exact Option.some_ne_none _ none_active
    · next none_left =>
        refine ⟨⟨paired.keys, paired.conn⟩, ?_, rfl, ?_⟩
        · intro d same
          cases same
        · intro d c there _
          have member := Dict.mem_keys_iff.2 ⟨c, there⟩
          rw [List.head?_eq_none_iff.1 none_left] at member
          cases member
  · exact erase_invariant h _ here active
  · apply h.update
    · rfl
    · exact fun registered => absurd registered here
    · exact fun _ => rfl

theorem step_invariant (clientVer : String) (s : Registry) (e : Event) (h : Invariant s)
    (good : Settles s e) : Invariant (step clientVer s e) := by
  cases e with
  | hello deviceId peerIp modVer => exact hello_invariant h clientVer deviceId peerIp modVer
  | resume conn =>
      simp only [step, resume]
      cases phase : (s.conns conn).phase with
      | refusing => exact finishRefusal_invariant h phase good
      | closing => exact teardown_invariant h conn
      | main => exact h
      | finished => exact h
      | starting rest =>
          cases rest with
          | nil =>
              apply h.update
              · rfl
              · exact fun _ => Phase.noConfusion
              · rw [phase]
                exact Phase.noConfusion
          | cons msg rest =>
              have same := send_same s msg
              apply (same.invariant h).update
              · rfl
              · exact fun _ => Phase.noConfusion
              · rw [same.phase, phase]
                exact Phase.noConfusion
  | raises conn =>
      simp only [step]
      split_ifs with replaying
      · apply h.update
        · rfl
        · exact fun registered => absurd registered (good replaying)
        · exact fun _ => rfl
      · exact h
  | eof conn =>
      simp only [step]
      split
      · next phase =>
          apply h.update
          · rfl
          · exact fun _ => Phase.noConfusion
          · rw [phase]
            exact Phase.noConfusion
      · exact h
  | reset conn =>
      have same : SameRegistry (step clientVer s (.reset conn)) s :=
        update_same s conn (f := fun c => { c with writerClosed := true }) (fun _ => rfl) fun _ => rfl
      exact same.invariant h
  | setActive deviceId => exact setActive_invariant h deviceId good
  | resumeActivation k =>
      simp only [step]
      split
      · next msg rest _ => exact ((send_same s msg).invariant h).activations _
      · exact h
      · exact h
  | activationRaises k => exact h.activations _

/-- Two Switches connect, the second is made active and then drops. -/
def twoSwitches : List Event :=
  [.hello "mario" "10.0.0.5" "1.2"] ++ List.replicate 13 (.resume 0) ++
    [.hello "luigi" "10.0.0.6" "1.2", .resume 1, .resume 1, .setActive (some "luigi")] ++
    List.replicate 14 (.resumeActivation 0) ++ [.eof 1, .resume 1]

/-- The active Switch reconnects with another version before its old socket is read. -/
def refusedReconnect : List Event :=
  [.hello "mario" "10.0.0.5" "1.2"] ++ List.replicate 13 (.resume 0) ++
    [.hello "mario" "10.0.0.5" "1.3", .resume 1]

end SmoArchipelago.Bridge.Registry
