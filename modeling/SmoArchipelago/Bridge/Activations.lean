import SmoArchipelago.Bridge.ActivationReplay

/-! # Who becomes active, and who still awaits its balances

A step makes at most one device active: the first that says HELLO, the one swapped in or the
one promoted. A device hears of balances while it is active, and also later, as long as a
replay to it has its first message still to send. -/

namespace SmoArchipelago.Bridge

open Library Runs

/-- The connection to which a send carries balances. -/
def Send.outstandingTo : Send → Option ℕ
  | .replay _ conn .outstanding => some conn
  | _ => none

namespace Registry

/-- The device that a step makes active. -/
def activated (clientVer : String) (s : Registry) : Event → Option String
  | .hello deviceId peerIp modVer =>
      if refuses clientVer modVer = false ∧ s.activeDeviceId = none then
        some (s.effectiveId deviceId peerIp)
      else none
  | .setActive deviceId =>
      deviceId.filter fun d => d ∈ s.connections.keys ∧ deviceId ≠ s.activeDeviceId
  | .resume conn =>
      let id := (s.conns conn).deviceId
      if (s.conns conn).phase = .closing ∧ s.connections.get? id = some conn ∧
          s.activeDeviceId = some id then
        (s.connections.erase id).keys.head?
      else none
  | .raises _ | .eof _ | .reset _ | .resumeActivation _ | .activationRaises _ => none

/-- The devices to which a replay has still to send its balances. -/
def awaiting (s : Registry) : List String :=
  ((List.range s.accepted).flatMap (fun c => s.program (.inl c)) ++ s.activations.flatten).filterMap
    fun m => m.outstandingTo.map fun conn => (s.conns conn).deviceId

/-- What holds of the names in every state. -/
structure Named (s : Registry) : Prop where
  conn : ∀ d c, s.connections.get? d = some c → c < s.accepted ∧ (s.conns c).deviceId = d
  idle : ∀ c, s.accepted ≤ c → s.program (.inl c) = []
  known : ∀ t, ∀ m ∈ s.program t, ∀ c ∈ m.outstandingTo, c < s.accepted

theorem named_start : Named {} := by
  constructor
  · exact nofun
  · exact fun _ _ => rfl
  · intro t m member
    cases t <;> cases member

theorem Named.mem_awaiting {s : Registry} (h : Named s) {d : String} :
    d ∈ s.awaiting ↔
      ∃ t, ∃ m ∈ s.program t, ∃ c ∈ m.outstandingTo, (s.conns c).deviceId = d := by
  simp only [awaiting, List.mem_filterMap, List.mem_append, List.mem_flatMap, List.mem_range,
    Option.map_eq_some_iff]
  constructor
  · rintro ⟨m, ⟨c, -, here⟩ | here, conn, to_conn, rfl⟩
    · exact ⟨.inl c, m, here, conn, to_conn, rfl⟩
    · obtain ⟨sends, member, listed⟩ := List.mem_flatten.1 here
      obtain ⟨k, bound, rfl⟩ := List.getElem_of_mem member
      refine ⟨.inr k, m, ?_, conn, to_conn, rfl⟩
      simp only [program, List.getElem?_eq_getElem bound]
      exact listed
  · rintro ⟨t, m, here, conn, to_conn, rfl⟩
    refine ⟨m, ?_, conn, to_conn, rfl⟩
    cases t with
    | inl c =>
        left
        refine ⟨c, ?_, here⟩
        by_contra beyond
        rw [h.idle c (Nat.not_lt.1 beyond)] at here
        cases here
    | inr k =>
        right
        simp only [program] at here
        cases found : s.activations[k]? with
        | none =>
            rw [found] at here
            cases here
        | some sends =>
            rw [found] at here
            exact List.mem_flatten.2 ⟨sends, List.mem_of_getElem? found, here⟩

/-- A device that balances are or will be sent to. -/
def Listens (s : Registry) (d : String) : Prop := d ∈ s.activeDeviceId ∨ d ∈ s.awaiting

/-- A step after which no device listens that did not, except the one it makes active. -/
structure Evolves (a : Option String) (s s' : Registry) : Prop where
  named : Named s'
  device : ∀ c < s.accepted, (s'.conns c).deviceId = (s.conns c).deviceId
  accepted : s.accepted ≤ s'.accepted
  active : ∀ d ∈ s'.activeDeviceId, d ∈ s.activeDeviceId ∨ d ∈ a
  sends : ∀ t, ∀ m ∈ s'.program t, ∀ c ∈ m.outstandingTo,
    (∃ t', m ∈ s.program t') ∨ (s'.conns c).deviceId ∈ a

theorem Evolves.refl {s : Registry} (h : Named s) (a : Option String) : Evolves a s s :=
  ⟨h, fun _ _ => rfl, le_rfl, fun _ => .inl, fun t _ member _ _ => .inl ⟨t, member⟩⟩

theorem Evolves.trans {a : Option String} {s s' s'' : Registry} (first : Evolves none s s')
    (second : Evolves a s' s'') : Evolves a s s'' := by
  constructor
  · exact second.named
  · exact fun c known =>
      (second.device c (known.trans_le first.accepted)).trans (first.device c known)
  · exact first.accepted.trans second.accepted
  · intro d here
    cases second.active d here with
    | inl before => exact .inl ((first.active d before).resolve_right nofun)
    | inr new => exact .inr new
  · intro t m member c to_conn
    cases second.sends t m member c to_conn with
    | inl before =>
        obtain ⟨t', here⟩ := before
        exact .inl ((first.sends t' m here c to_conn).resolve_right nofun)
    | inr new => exact .inr new

theorem Evolves.listens {a : Option String} {s s' : Registry} (h : Named s) (step : Evolves a s s')
    {d : String} (listens : s'.Listens d) : s.Listens d ∨ d ∈ a := by
  cases listens with
  | inl active => exact (step.active d active).imp_left .inl
  | inr later =>
      obtain ⟨t, m, member, c, to_conn, rfl⟩ := step.named.mem_awaiting.1 later
      cases step.sends t m member c to_conn with
      | inl before =>
          obtain ⟨t', here⟩ := before
          have same := step.device c (h.known t' m here c to_conn)
          exact .inl (.inr (h.mem_awaiting.2 ⟨t', m, here, c, to_conn, same.symm⟩))
      | inr new => exact .inr new

/-- A step that names, activates and starts nothing. -/
theorem Evolves.of_less {s s' : Registry} (h : Named s)
    (connections : ∀ d c, s'.connections.get? d = some c → s.connections.get? d = some c)
    (accepted : s'.accepted = s.accepted) (device : ∀ c, (s'.conns c).deviceId = (s.conns c).deviceId)
    (active : ∀ d ∈ s'.activeDeviceId, d ∈ s.activeDeviceId)
    (program : ∀ t, ∀ m ∈ s'.program t, m ∈ s.program t) : Evolves none s s' := by
  constructor
  · constructor
    · intro d c here
      rw [accepted, device]
      exact h.conn d c (connections d c here)
    · intro c beyond
      rw [accepted] at beyond
      apply List.eq_nil_iff_forall_not_mem.2
      intro m member
      have before := program (.inl c) m member
      rw [h.idle c beyond] at before
      cases before
    · intro t m member c to_conn
      rw [accepted]
      exact h.known t m (program t m member) c to_conn
  · exact fun c _ => device c
  · exact accepted.ge
  · exact fun d here => .inl (active d here)
  · exact fun t m member c _ => .inl ⟨t, program t m member⟩

/-- A handler that goes on, perhaps after a send. -/
theorem evolves_phase {s s' : Registry} (h : Named s) (same : SameRegistry s' s)
    (activations : s'.activations = s.activations) (conn : ℕ) {f : SwitchConn → SwitchConn}
    (id : (f (s'.conns conn)).deviceId = (s'.conns conn).deviceId)
    (program : ∀ rest, (f (s'.conns conn)).phase = .starting rest →
      ∀ m ∈ rest, m ∈ s.program (.inl conn)) : Evolves none s (s'.update conn f) := by
  have before := program_of_same same activations
  apply Evolves.of_less h
  · intro d c here
    rw [← same.connections]
    exact here
  · exact same.accepted
  · intro c
    rw [conns_update]
    split_ifs with here
    · rw [id, same.deviceId, here]
    · exact same.deviceId c
  · intro d here
    rw [← same.activeDeviceId]
    exact here
  · intro t m member
    cases t with
    | inl c =>
        by_cases here : c = conn
        · simp only [Registry.program, conns_update, here, if_true] at member
          split at member
          · next rest phase =>
              rw [here]
              exact program rest phase m member
          · cases member
        · simp only [Registry.program, conns_update, if_neg here] at member
          rw [← before]
          exact member
    | inr k =>
        rw [← before]
        exact member

theorem evolves_register {s : Registry} (h : Named s) (id peerIp modVer : String) {c : SwitchConn}
    (name : c.deviceId = id) {a : Option String}
    (sends : ∀ rest, c.phase = .starting rest → ∀ m ∈ rest, ∀ conn ∈ m.outstandingTo,
      conn = s.accepted ∧ id ∈ a) : Evolves a s (s.register id peerIp modVer c) := by
  obtain ⟨new, old⟩ := register_conns s id peerIp modVer c
  obtain ⟨activations, -, accepted, -⟩ := register_frame s id peerIp modVer c
  have device : ∀ conn < s.accepted,
      ((s.register id peerIp modVer c).conns conn).deviceId = (s.conns conn).deviceId := by
    intro conn known
    have same := closeExisting_same s id
    simp only [register, registerSwitch, same.accepted]
    rw [Function.update_of_ne known.ne, same.deviceId]
  have program : ∀ t, ∀ m ∈ (s.register id peerIp modVer c).program t, ∀ conn ∈ m.outstandingTo,
      m ∈ s.program t ∨ conn = s.accepted ∧ id ∈ a := by
    intro t m member conn to_conn
    cases t with
    | inl other =>
        by_cases here : other = s.accepted
        · simp only [Registry.program, here, new] at member
          split at member
          · next rest phase => exact .inr (sends rest phase m member conn to_conn)
          · cases member
        · simp only [Registry.program, old other here] at member
          exact .inl member
    | inr k =>
        simp only [Registry.program, activations] at member
        exact .inl member
  constructor
  · constructor
    · intro d conn here
      rw [register_get?] at here
      rw [accepted]
      split_ifs at here with same
      · obtain rfl := Option.some.inj here
        rw [new]
        exact ⟨Nat.lt_succ_self _, name.trans same.symm⟩
      · obtain ⟨known, named⟩ := h.conn d conn here
        exact ⟨known.trans (Nat.lt_succ_self _), (device conn known).trans named⟩
    · intro conn beyond
      rw [accepted] at beyond
      have other : conn ≠ s.accepted := by omega
      simp only [Registry.program, old conn other]
      exact h.idle conn (by omega)
    · intro t m member conn to_conn
      rw [accepted]
      cases program t m member conn to_conn with
      | inl before => exact (h.known t m before conn to_conn).trans (Nat.lt_succ_self _)
      | inr fresh =>
          rw [fresh.1]
          exact Nat.lt_succ_self _
  · exact device
  · rw [accepted]
    exact Nat.le_succ _
  · intro d here
    rw [(register_pointers s id peerIp modVer c).1] at here
    exact .inl here
  · intro t m member conn to_conn
    cases program t m member conn to_conn with
    | inl before => exact .inl ⟨t, before⟩
    | inr fresh =>
        rw [fresh.1, new, name]
        exact .inr fresh.2

theorem evolves_setActive {s : Registry} (h : Named s) {deviceId : Option String} {a : Option String}
    (covers : ∀ d ∈ deviceId, d ∈ s.connections.keys → deviceId ≠ s.activeDeviceId → d ∈ a) :
    Evolves a s (s.setActive deviceId) := by
  rw [setActive]
  split_ifs with refused
  · exact Evolves.refl h a
  · obtain ⟨conns, connections, -, active, accepted⟩ := beginActivation_frame s deviceId
    have chosen : ∀ d ∈ deviceId, d ∈ a := by
      intro d here
      apply covers d here
      · by_contra unknown
        exact refused (.inl ⟨d, here, unknown⟩)
      · exact fun same => refused (.inr same)
    have program : ∀ t, ∀ m ∈ (s.beginActivation deviceId).program t, ∀ conn ∈ m.outstandingTo,
        m ∈ s.program t ∨ conn < s.accepted ∧ (s.conns conn).deviceId ∈ a := by
      intro t m member conn to_conn
      rw [beginActivation_program] at member
      split_ifs at member
      · apply Or.inr
        cases List.mem_append.1 member with
        | inl kick =>
            obtain ⟨old, -, rfl⟩ := List.mem_map.1 kick
            cases to_conn
        | inr start =>
            obtain ⟨new, here, listed⟩ := List.mem_flatMap.1 start
            obtain ⟨d, asked, registered⟩ := Option.bind_eq_some_iff.1 (Option.mem_toList.1 here)
            have to_new : conn = new := by
              cases List.mem_cons.1 listed with
              | inl first =>
                  rw [first] at to_conn
                  cases to_conn
              | inr replay =>
                  obtain ⟨part, -, rfl⟩ := List.mem_map.1 replay
                  cases part <;> cases to_conn
                  rfl
            obtain ⟨known, named⟩ := h.conn d new registered
            rw [to_new, named]
            exact ⟨known, chosen d asked⟩
      · exact .inl member
    constructor
    · constructor
      · rw [connections, conns, accepted]
        exact h.conn
      · intro c beyond
        rw [accepted] at beyond
        rw [beginActivation_program, if_neg Sum.inl_ne_inr]
        exact h.idle c beyond
      · intro t m member conn to_conn
        rw [accepted]
        cases program t m member conn to_conn with
        | inl before => exact h.known t m before conn to_conn
        | inr fresh => exact fresh.1
    · exact fun c _ => by rw [conns]
    · exact accepted.ge
    · intro d here
      rw [active] at here
      exact .inr (chosen d here)
    · intro t m member conn to_conn
      rw [conns]
      cases program t m member conn to_conn with
      | inl before => exact .inl ⟨t, before⟩
      | inr fresh => exact .inr fresh.2

theorem evolves_hello {s : Registry} (h : Named s) (clientVer deviceId peerIp modVer : String) :
    Evolves (activated clientVer s (.hello deviceId peerIp modVer)) s
      (s.hello clientVer deviceId peerIp modVer) := by
  rw [hello, activated]
  generalize s.effectiveId deviceId peerIp = id
  by_cases refused : refuses clientVer modVer = true
  · rw [if_pos refused]
    apply evolves_register h id peerIp modVer (c := newConn id peerIp .refusing false) rfl
    intro rest phase
    cases phase
  · rw [if_neg refused]
    cases active : s.activeDeviceId with
    | some a =>
        apply evolves_register h id peerIp modVer
          (c := newConn id peerIp (.starting [.kick s.accepted "inactive"]) true) rfl
        intro rest phase m member conn to_conn
        cases phase
        rw [List.mem_singleton.1 member] at to_conn
        cases to_conn
    | none =>
        rw [if_pos ⟨Bool.eq_false_iff.2 refused, rfl⟩]
        have registered := evolves_register h id peerIp modVer (a := some id)
          (c := newConn id peerIp (.starting (s.replaySends s.accepted)) true) rfl (by
            intro rest phase m member conn to_conn
            cases phase
            obtain ⟨part, -, rfl⟩ := List.mem_map.1 member
            cases part <;> cases to_conn
            exact ⟨rfl, rfl⟩)
        obtain ⟨pointer, same⟩ := setActiveSwitch_eq { s.register id peerIp modVer
          (newConn id peerIp (.starting (s.replaySends s.accepted)) true) with
            activeDeviceId := some id } (some id)
        simp only [same]
        exact ⟨⟨registered.named.conn, registered.named.idle, registered.named.known⟩,
          registered.device, registered.accepted, fun _ => .inr, registered.sends⟩

theorem evolves_finish {s : Registry} (h : Named s) (conn : ℕ) {f : SwitchConn → SwitchConn}
    (id : (f (s.conns conn)).deviceId = (s.conns conn).deviceId)
    (phase : (f (s.conns conn)).phase = .finished) : Evolves none s (s.update conn f) := by
  apply evolves_phase h (SameRegistry.refl s) rfl conn id
  intro rest starting
  rw [phase] at starting
  cases starting

/-- The entry of a handler that has ended is taken out. -/
theorem evolves_erase {s : Registry} (h : Named s) (id : String) :
    Evolves none s ({ s with connections := s.connections.erase id }.unregisterSwitch id) := by
  apply Evolves.of_less h
  · intro d c here
    simp only [unregisterSwitch, Dict.get?_erase] at here
    split_ifs at here
    exact here
  · rfl
  · exact fun _ => rfl
  · exact fun _ here => here
  · intro t m member
    cases t <;> exact member

theorem evolves_unbind {s : Registry} (h : Named s) :
    Evolves none s ({ s with activeDeviceId := none }.setActiveSwitch none) := by
  obtain ⟨pointer, same⟩ := setActiveSwitch_eq { s with activeDeviceId := none } none
  rw [same]
  apply Evolves.of_less h
  · exact fun _ _ here => here
  · rfl
  · exact fun _ => rfl
  · exact nofun
  · intro t m member
    cases t <;> exact member

theorem connections_setActiveSwitch (s : Registry) (deviceId : Option String) :
    (s.setActiveSwitch deviceId).connections = s.connections := by
  obtain ⟨pointer, same⟩ := setActiveSwitch_eq s deviceId
  rw [same]

theorem evolves_teardown {s : Registry} (h : Named s) {conn : ℕ} {a : Option String}
    (promotes : s.connections.get? (s.conns conn).deviceId = some conn →
      s.activeDeviceId = some (s.conns conn).deviceId →
        (s.connections.erase (s.conns conn).deviceId).keys.head? = a) :
    Evolves a s (s.teardown conn) := by
  rw [teardown]
  dsimp only
  have ended := evolves_finish h conn (f := fun c => { c with phase := .finished }) rfl rfl
  split_ifs with here active
  · have erased := ended.trans (evolves_erase ended.named (s.conns conn).deviceId)
    have unbound := erased.trans (evolves_unbind erased.named)
    have next := promotes here active
    split
    · next promoted first =>
        apply unbound.trans
        apply evolves_setActive unbound.named
        intro d asked _ _
        rw [connections_setActiveSwitch] at first
        rw [← next]
        exact first.trans asked
    · exact unbound.trans (Evolves.refl unbound.named a)
  · have erased := ended.trans (evolves_erase ended.named (s.conns conn).deviceId)
    exact erased.trans (Evolves.refl erased.named a)
  · exact ended.trans (Evolves.refl ended.named a)

theorem evolves_finishRefusal {s : Registry} (h : Named s) (conn : ℕ) :
    Evolves none s (s.finishRefusal conn) := by
  rw [finishRefusal]
  have ended := evolves_finish h conn
    (f := fun c => { c with phase := .finished, writerClosed := true }) rfl rfl
  split_ifs
  · exact ended.trans (evolves_erase ended.named (s.conns conn).deviceId)
  · exact ended

theorem evolves_resume {s : Registry} (h : Named s) (clientVer : String) (conn : ℕ) :
    Evolves (activated clientVer s (.resume conn)) s (s.resume conn) := by
  have weaken {s' : Registry} (step : Evolves none s s') {a : Option String} : Evolves a s s' :=
    step.trans (Evolves.refl step.named a)
  rw [resume]
  cases phase : (s.conns conn).phase with
  | refusing => exact weaken (evolves_finishRefusal h conn)
  | main => exact Evolves.refl h _
  | finished => exact Evolves.refl h _
  | closing =>
      apply evolves_teardown h
      intro here active
      rw [activated]
      exact (if_pos ⟨phase, here, active⟩).symm
  | starting rest =>
      cases rest with
      | nil =>
          apply weaken
          apply evolves_phase h (SameRegistry.refl s) rfl conn rfl
          intro rest starting
          cases starting
      | cons msg rest =>
          apply weaken
          have same := send_same s msg
          apply evolves_phase h same (send_frame s msg).1 conn rfl
          intro rest' starting m member
          cases starting
          simp only [Registry.program, phase]
          exact List.mem_cons_of_mem _ member

/-- A `set_active` call that goes on, perhaps after a send. -/
theorem evolves_activation {s s' : Registry} (h : Named s) (same : SameRegistry s' s) (k : ℕ)
    {rest : List Send}
    (less : ∀ m ∈ rest, m ∈ s.program (.inr k)) :
    Evolves none s { s' with activations := s.activations.set k rest } := by
  apply Evolves.of_less h
  · intro d c here
    rw [← same.connections]
    exact here
  · exact same.accepted
  · exact same.deviceId
  · intro d here
    rw [← same.activeDeviceId]
    exact here
  · intro t m member
    cases t with
    | inl c =>
        simp only [Registry.program, same.phase] at member
        exact member
    | inr j =>
        simp only [Registry.program, List.getElem?_set] at member
        split_ifs at member with this_one within
        · rw [← this_one]
          exact less m member
        · cases member
        · exact member

/-- No device listens after a step that did not before, except the one it makes active. -/
theorem step_evolves (clientVer : String) {s : Registry} (h : Named s) (e : Event) :
    Evolves (activated clientVer s e) s (step clientVer s e) := by
  cases e with
  | hello deviceId peerIp modVer => exact evolves_hello h clientVer deviceId peerIp modVer
  | resume conn => exact evolves_resume h clientVer conn
  | raises conn =>
      simp only [step]
      split_ifs
      · exact evolves_finish h conn rfl rfl
      · exact Evolves.refl h _
  | eof conn =>
      simp only [step]
      split
      · apply evolves_phase h (SameRegistry.refl s) rfl conn rfl
        intro rest starting
        cases starting
      · exact Evolves.refl h _
  | reset conn =>
      apply evolves_phase h (SameRegistry.refl s) rfl conn (f := fun c => { c with writerClosed := true }) rfl
      intro rest starting m member
      simp only [Registry.program]
      rw [show (s.conns conn).phase = .starting rest from starting]
      exact member
  | setActive deviceId =>
      apply evolves_setActive h
      intro d asked known other
      rw [activated, Option.mem_def, Option.filter_eq_some_iff]
      exact ⟨asked, decide_eq_true ⟨known, other⟩⟩
  | resumeActivation k =>
      simp only [step]
      split
      · next msg rest here =>
          have same := send_same s msg
          apply evolves_activation h same k
          intro m member
          simp only [Registry.program, here]
          exact List.mem_cons_of_mem _ member
      · exact Evolves.refl h _
      · exact Evolves.refl h _
  | activationRaises k =>
      exact evolves_activation h (SameRegistry.refl s) k fun m member =>
        absurd member List.not_mem_nil

end Registry

end SmoArchipelago.Bridge
