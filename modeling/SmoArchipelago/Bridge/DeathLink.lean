import SmoArchipelago.Switch.DeathLink

/-! # DeathLink between consoles

Every slot has a console, a client on the PC and the lines in flight between them. The client
bounces a death of its own console to the server, which sends it to whatever slots are tagged, and
passes on a death that comes in unless it is its own.

## Implementation notes

Steps of different slots and of the two directions of a connection come in any order. The server
may send a bounce to any slots, its sender among them; whether the client library passes a bounce
on is up to the step, and any line in flight can be lost. `bounced` and `injected` are history. -/

namespace SmoArchipelago.Bridge.DeathLink

open Library Runs Switch Switch.DeathLink

/-- The data of a bounced death, its time in milliseconds. -/
structure Bounce where
  timeMs : ℤ
  source : String
  cause : String
  deriving DecidableEq

/-- What a client knows of deaths. -/
structure Client where
  auth : String
  deathlinkEnabled : Bool
  deathCount : ℕ

namespace Client

/-- Mario died: the tally goes up, and with DeathLink on a bounce is sent. -/
def reportDeath (c : Client) (tsMs wallMs : ℤ) : Client × Option Bounce :=
  let c := { c with deathCount := c.deathCount + 1 }
  if !c.deathlinkEnabled then (c, none)
  else (c, some ⟨if tsMs ≠ 0 then tsMs else wallMs, c.auth, "Mario died."⟩)

/-- A death came in: the line for the console, unless it is its own death. -/
def onDeathlink (c : Client) (data : Bounce) : Option Downlink :=
  if !c.deathlinkEnabled then none
  else if data.source ≠ "" ∧ data.source = c.auth then none
  else some (.kill data.source data.cause)

end Client

/-- A slot: its console, its client and what is under way between them and from the server. -/
structure Node where
  console : Console
  client : Client
  toBridge : List Line
  toSwitch : List Downlink
  inbox : List Bounce
  bounced : ℕ
  injected : ℕ

def Node.start (auth : String) (clock : ℤ) : Node where
  console := DeathLink.start clock
  client := ⟨auth, false, 0⟩
  toBridge := []
  toSwitch := []
  inbox := []
  bounced := 0
  injected := 0

namespace Node

/-- A thread of the console takes a step. -/
def frame (n : Node) (e : Switch.DeathLink.Event) : Node :=
  let r := Switch.DeathLink.step n.console e
  { n with console := r.1, toBridge := n.toBridge ++ r.2 }

/-- The client reads a line; a death of an active console may go to the server. -/
def read (n : Node) (active : Bool) (wallMs : ℤ) : Node × Option Bounce :=
  match n.toBridge with
  | [] => (n, none)
  | .goal :: rest => ({ n with toBridge := rest }, none)
  | .death tsMs :: rest =>
      if active then
        let r := n.client.reportDeath tsMs wallMs
        ({ n with toBridge := rest, client := r.1, bounced := n.bounced + if r.2.isSome then 1 else 0 },
          r.2)
      else ({ n with toBridge := rest }, none)

/-- The client gets a bounce, which its library passes on or not, and sends what it makes of it
if a console is attached. -/
def bounce (n : Node) (passes attached : Bool) : Node :=
  match n.inbox with
  | [] => n
  | data :: rest =>
      { n with
        inbox := rest
        toSwitch := n.toSwitch ++
          if passes && attached then (n.client.onDeathlink data).toList else [] }

def deliver (n : Node) : Node :=
  match n.toSwitch with
  | [] => n
  | line :: rest => { n with toSwitch := rest, console := n.console.handleLine line }

/-- The slot data says whether DeathLink is on, and the console is told. -/
def slotData (n : Node) (enabled : Bool) : Node :=
  { n with
    client := { n.client with deathlinkEnabled := enabled }
    toSwitch := n.toSwitch ++ [.helloAck true enabled] }

/-- The answer to a HELLO, which may refuse the console. -/
def hello (n : Node) (ok : Bool) : Node :=
  { n with toSwitch := n.toSwitch ++ [.helloAck ok n.client.deathlinkEnabled] }

/-- The command that makes up a death. -/
def inject (n : Node) (source cause : String) : Node :=
  { n with toSwitch := n.toSwitch ++ [.kill source cause], injected := n.injected + 1 }

def arrive (n : Node) (bounces : List Bounce) : Node := { n with inbox := n.inbox ++ bounces }

/-- Lines in flight that are lost. -/
def lose (n : Node) (up down bounces : ℕ) : Node :=
  { n with
    toBridge := n.toBridge.eraseIdx up
    toSwitch := n.toSwitch.eraseIdx down
    inbox := n.inbox.eraseIdx bounces }

end Node

inductive Action where
  | frame (e : Switch.DeathLink.Event)
  | bounce (passes attached : Bool)
  | deliver
  | slotData (enabled : Bool)
  | hello (ok : Bool)
  | inject (source cause : String)
  | lose (up down bounces : ℕ)

/-- What a slot does that no other slot sees. -/
def Node.act (n : Node) : Action → Node
  | .frame e => n.frame e
  | .bounce passes attached => n.bounce passes attached
  | .deliver => n.deliver
  | .slotData enabled => n.slotData enabled
  | .hello ok => n.hello ok
  | .inject source cause => n.inject source cause
  | .lose up down bounces => n.lose up down bounces

inductive Event (ι : Type) where
  | act (p : ι) (a : Action)
  /-- The client of a slot reads a line, and the server sends a bounce on to the recipients. -/
  | read (p : ι) (active : Bool) (wallMs : ℤ) (recipients : List ι)

variable {ι : Type} [DecidableEq ι]

def broadcast (s : ι → Node) (recipients : List ι) (bounces : List Bounce) : ι → Node :=
  fun q => if q ∈ recipients then (s q).arrive bounces else s q

def step (s : ι → Node) : Event ι → ι → Node
  | .act p a => Function.update s p ((s p).act a)
  | .read p active wallMs recipients =>
      let r := (s p).read active wallMs
      broadcast (Function.update s p r.1) recipients r.2.toList

/-! ## One slot -/

/-- A bounce of some other slot. -/
def foreign (auth : String) (b : Bounce) : Bool := b.source ≠ auth

/-- Of the slot's deaths no more went out than happened, and of the others' bounces no more came
in than were sent. -/
structure Node.Held (auth : String) (others : ℕ) (n : Node) : Prop where
  name : n.client.auth = auth
  clocked : Clocked n.console
  reported : Reported n.console
  sent : n.bounced + n.toBridge.countP Line.isDeath ≤ n.console.sentDeaths
  received : n.console.accepted + n.toSwitch.countP Downlink.isKill +
    n.inbox.countP (foreign auth) ≤ n.injected + others

namespace Node

variable {auth : String} {others : ℕ} {n : Node}

theorem held_start (auth : String) {clock : ℤ} (running : 0 < clock) :
    (Node.start auth clock).Held auth 0 where
  name := rfl
  clocked := start_clocked running
  reported := start_reported clock
  sent := le_rfl
  received := le_rfl

theorem Held.mono (h : n.Held auth others) {more : ℕ} (le : others ≤ more) : n.Held auth more :=
  ⟨h.name, h.clocked, h.reported, h.sent, h.received.trans (Nat.add_le_add_left le _)⟩

theorem Held.frame (h : n.Held auth others) (e : Switch.DeathLink.Event) :
    (n.frame e).Held auth others where
  name := h.name
  clocked := step_clocked h.clocked e
  reported := step_reported h.reported e
  sent := by
    have more := step_sent n.console e
    have before := h.sent
    change n.bounced + (n.toBridge ++ (Switch.DeathLink.step n.console e).2).countP _ ≤
      (Switch.DeathLink.step n.console e).1.sentDeaths
    rw [List.countP_append]
    omega
  received := by
    have fewer := step_accepted n.console e
    have before := h.received
    change (Switch.DeathLink.step n.console e).1.accepted + _ + _ ≤ _
    change _ + n.toSwitch.countP _ + n.inbox.countP _ ≤ n.injected + others
    omega

/-- A bounce that the client passes on is foreign. -/
theorem countP_onDeathlink (named : auth ≠ "") {c : Client} (name : c.auth = auth) (data : Bounce) :
    (c.onDeathlink data).toList.countP Downlink.isKill ≤ if foreign auth data then 1 else 0 := by
  by_cases other : foreign auth data = true
  · rw [if_pos other]
    unfold Client.onDeathlink
    split_ifs
    · exact Nat.zero_le _
    · exact Nat.zero_le _
    · exact le_rfl
  · have source : data.source = auth := by simpa [foreign] using other
    have own : data.source ≠ "" ∧ data.source = c.auth :=
      ⟨source.trans_ne named, source.trans name.symm⟩
    have dropped : c.onDeathlink data = none := by
      unfold Client.onDeathlink
      rw [if_pos own, ite_self]
    rw [dropped]
    exact Nat.zero_le _

theorem Held.bounce (named : auth ≠ "") (h : n.Held auth others) (passes attached : Bool) :
    (n.bounce passes attached).Held auth others := by
  unfold Node.bounce
  split
  · exact h
  · rename_i data rest inbox
    have before := h.received
    rw [inbox, List.countP_cons] at before
    have made : (if passes && attached then (n.client.onDeathlink data).toList else []).countP
        Downlink.isKill ≤ if foreign auth data then 1 else 0 := by
      cases passes && attached with
      | true => exact countP_onDeathlink named h.name data
      | false => exact Nat.zero_le _
    refine ⟨h.name, h.clocked, h.reported, h.sent, ?_⟩
    change n.console.accepted + (n.toSwitch ++ _).countP _ + rest.countP _ ≤ n.injected + others
    rw [List.countP_append]
    omega

theorem Held.deliver (h : n.Held auth others) : n.deliver.Held auth others := by
  unfold Node.deliver
  split
  · exact h
  · rename_i line rest queue
    have before := h.received
    rw [queue, List.countP_cons] at before
    have taken := accepted_handleLine n.console line
    refine ⟨h.name, h.clocked.handleLine line, h.reported.handleLine line, ?_, ?_⟩
    · change _ ≤ (n.console.handleLine line).sentDeaths
      rw [sentDeaths_handleLine]
      exact h.sent
    · change (n.console.handleLine line).accepted + rest.countP _ + n.inbox.countP _ ≤
        n.injected + others
      omega

/-- Lines to the console that kill nobody. -/
theorem Held.tell (h : n.Held auth others) (c : Client) (name : c.auth = auth) (ok enabled : Bool) :
    Held auth others { n with client := c, toSwitch := n.toSwitch ++ [.helloAck ok enabled] } := by
  refine ⟨name, h.clocked, h.reported, h.sent, ?_⟩
  change n.console.accepted + (n.toSwitch ++ _).countP _ + n.inbox.countP _ ≤ n.injected + others
  rw [List.countP_append]
  exact h.received

theorem Held.inject (h : n.Held auth others) (source cause : String) :
    (n.inject source cause).Held auth others := by
  have before := h.received
  refine ⟨h.name, h.clocked, h.reported, h.sent, ?_⟩
  change n.console.accepted + (n.toSwitch ++ [Downlink.kill source cause]).countP _ +
    n.inbox.countP _ ≤ n.injected + 1 + others
  have one : [Downlink.kill source cause].countP Downlink.isKill = 1 := rfl
  rw [List.countP_append, one]
  omega

theorem Held.lose (h : n.Held auth others) (up down bounces : ℕ) :
    (n.lose up down bounces).Held auth others := by
  have ups := (List.eraseIdx_sublist n.toBridge up).countP_le (p := Line.isDeath)
  have downs := (List.eraseIdx_sublist n.toSwitch down).countP_le (p := Downlink.isKill)
  have left := (List.eraseIdx_sublist n.inbox bounces).countP_le (p := foreign auth)
  have sent := h.sent
  have received := h.received
  refine ⟨h.name, h.clocked, h.reported, ?_, ?_⟩
  · change n.bounced + (n.toBridge.eraseIdx up).countP _ ≤ n.console.sentDeaths
    omega
  · change n.console.accepted + (n.toSwitch.eraseIdx down).countP _ +
      (n.inbox.eraseIdx bounces).countP _ ≤ n.injected + others
    omega

theorem Held.act (named : auth ≠ "") (h : n.Held auth others) (a : Action) :
    (n.act a).Held auth others := by
  cases a with
  | frame e => exact h.frame e
  | bounce passes attached => exact h.bounce named passes attached
  | deliver => exact h.deliver
  | slotData enabled => exact h.tell { n.client with deathlinkEnabled := enabled } h.name true enabled
  | hello ok => exact h.tell n.client h.name ok n.client.deathlinkEnabled
  | inject source cause => exact h.inject source cause
  | lose up down bounces => exact h.lose up down bounces

theorem bounced_act (n : Node) (a : Action) : (n.act a).bounced = n.bounced := by
  cases a with
  | bounce passes attached =>
      change (n.bounce passes attached).bounced = _
      unfold Node.bounce
      split <;> rfl
  | deliver =>
      change n.deliver.bounced = _
      unfold Node.deliver
      split <;> rfl
  | frame e => rfl
  | slotData enabled => rfl
  | hello ok => rfl
  | inject source cause => rfl
  | lose up down bounces => rfl

theorem auth_reportDeath (c : Client) (tsMs wallMs : ℤ) : (c.reportDeath tsMs wallMs).1.auth = c.auth := by
  cases on : c.deathlinkEnabled <;> simp [Client.reportDeath, on]

/-- A bounce carries the name of the slot that it is from. -/
theorem source_reportDeath {c : Client} {tsMs wallMs : ℤ} {b : Bounce}
    (sent : b ∈ (c.reportDeath tsMs wallMs).2.toList) : b.source = c.auth := by
  cases on : c.deathlinkEnabled with
  | false => simp [Client.reportDeath, on] at sent
  | true =>
      simp only [Client.reportDeath, on, Bool.not_true, Bool.false_eq_true, ↓reduceIte,
        Option.mem_toList, Option.some.injEq] at sent
      exact (congrArg Bounce.source sent).symm

/-- Reading a line keeps the slot's bounds; a bounce carries its name and is counted. -/
theorem Held.read (h : n.Held auth others) (active : Bool) (wallMs : ℤ) :
    (n.read active wallMs).1.Held auth others ∧
      (n.read active wallMs).1.bounced = n.bounced + (n.read active wallMs).2.toList.length ∧
      ∀ b ∈ (n.read active wallMs).2.toList, b.source = auth := by
  have before := h.sent
  unfold Node.read
  split
  · exact ⟨h, rfl, fun b member => absurd member List.not_mem_nil⟩
  · rename_i rest queue
    rw [queue] at before
    exact ⟨⟨h.name, h.clocked, h.reported, before, h.received⟩, rfl,
      fun b member => absurd member List.not_mem_nil⟩
  · rename_i tsMs rest queue
    have death : (Line.death tsMs).isDeath = true := rfl
    rw [queue, List.countP_cons, if_pos death] at before
    split_ifs
    · have name : (n.client.reportDeath tsMs wallMs).1.auth = auth :=
        (auth_reportDeath _ _ _).trans h.name
      refine ⟨⟨name, h.clocked, h.reported, ?_, h.received⟩, ?_, ?_⟩
      · change n.bounced + (if _ then 1 else 0) + rest.countP _ ≤ n.console.sentDeaths
        split_ifs <;> omega
      · change n.bounced + (if (n.client.reportDeath tsMs wallMs).2.isSome then 1 else 0) = _
        cases (n.client.reportDeath tsMs wallMs).2 <;> rfl
      · exact fun b member => (source_reportDeath member).trans h.name
    · refine ⟨⟨h.name, h.clocked, h.reported, ?_, h.received⟩, rfl,
        fun b member => absurd member List.not_mem_nil⟩
      change n.bounced + rest.countP _ ≤ n.console.sentDeaths
      omega

/-- What comes in is accounted for by bounces of others. -/
theorem Held.arrive (h : n.Held auth others) (bounces : List Bounce) :
    (n.arrive bounces).Held auth (others + bounces.countP (foreign auth)) := by
  have before := h.received
  refine ⟨h.name, h.clocked, h.reported, h.sent, ?_⟩
  change n.console.accepted + n.toSwitch.countP _ + (n.inbox ++ bounces).countP _ ≤ _
  rw [List.countP_append]
  change _ ≤ n.injected + _
  omega

end Node

/-! ## All slots -/

theorem bounced_broadcast (s : ι → Node) (recipients : List ι) (bounces : List Bounce) (q : ι) :
    (broadcast s recipients bounces q).bounced = (s q).bounced := by
  unfold broadcast
  split_ifs <;> rfl

section Network

variable [Fintype ι]

/-- How often the other slots have sent a bounce. -/
def others (s : ι → Node) (p : ι) : ℕ := ∑ q ∈ Finset.univ.erase p, (s q).bounced

def Accounted (auth : ι → String) (s : ι → Node) : Prop :=
  ∀ p, (s p).Held (auth p) (others s p)

theorem others_congr {s s' : ι → Node} (same : ∀ q, (s' q).bounced = (s q).bounced) (p : ι) :
    others s' p = others s p :=
  Finset.sum_congr rfl fun q _ => same q

theorem step_accounted {auth : ι → String} (named : ∀ p, auth p ≠ "") {s : ι → Node}
    (h : Accounted auth s) (e : Event ι) : Accounted auth (step s e) := by
  cases e with
  | act p a =>
      intro q
      have same (r : ι) : (step s (.act p a) r).bounced = (s r).bounced := by
        change (Function.update s p _ r).bounced = _
        by_cases here : r = p
        · subst here
          rw [Function.update_self, Node.bounced_act]
        · rw [Function.update_of_ne here]
      rw [others_congr same]
      change (Function.update s p _ q).Held _ _
      by_cases here : q = p
      · subst here
        rw [Function.update_self]
        exact (h q).act (named q) a
      · rw [Function.update_of_ne here]
        exact h q
  | read p active wallMs recipients =>
      intro q
      obtain ⟨held, counted, own⟩ := (h p).read active wallMs
      set r := (s p).read active wallMs with r_eq
      have after (t : ι) : (step s (.read p active wallMs recipients) t).bounced =
          (s t).bounced + if t = p then r.2.toList.length else 0 := by
        change (broadcast (Function.update s p r.1) recipients r.2.toList t).bounced = _
        rw [bounced_broadcast]
        by_cases here : t = p
        · subst here
          rw [Function.update_self, if_pos rfl, counted]
        · rw [Function.update_of_ne here, if_neg here]
          rfl
      have total : others (step s (.read p active wallMs recipients)) q =
          others s q + if q = p then 0 else r.2.toList.length := by
        unfold others
        simp only [after, Finset.sum_add_distrib, Finset.sum_ite_eq', Finset.mem_erase,
          Finset.mem_univ, and_true]
        congr 1
        by_cases here : q = p
        · rw [if_pos here, if_neg fun apart => apart here.symm]
        · rw [if_neg here, if_pos fun same => here same.symm]
      have updated : (Function.update s p r.1 q).Held (auth q) (others s q) := by
        by_cases here : q = p
        · subst here
          rw [Function.update_self]
          exact held
        · rw [Function.update_of_ne here]
          exact h q
      have foreign_le : r.2.toList.countP (foreign (auth q)) ≤ if q = p then 0 else r.2.toList.length := by
        split_ifs with here
        · subst here
          rw [Nat.le_zero, List.countP_eq_zero]
          intro b member
          simp [foreign, own b member]
        · exact List.countP_le_length
      rw [total]
      change (broadcast (Function.update s p r.1) recipients r.2.toList q).Held _ _
      unfold broadcast
      by_cases reached : q ∈ recipients
      · rw [if_pos reached]
        exact (updated.arrive _).mono (Nat.add_le_add_left foreign_le _)
      · rw [if_neg reached]
        exact updated.mono (Nat.le_add_right _ _)

theorem run_accounted {auth : ι → String} (named : ∀ p, auth p ≠ "") {clock : ι → ℤ}
    (running : ∀ p, 0 < clock p) (events : List (Event ι)) :
    Accounted auth (run step (fun p => Node.start (auth p) (clock p)) events) := by
  apply invariant_run fun s e => step_accounted named (s := s) (e := e)
  intro p
  exact (Node.held_start (auth p) (running p)).mono (Nat.zero_le _)

/-- In every run, however the slots' steps interleave and whatever is lost, a slot sends at most
one bounce for each of Mario's own deaths; the kills that its module causes are no more than the
other slots' own deaths and the commands that made one up, each comes fifteen seconds or more
after every death before it; and a death whose flag is set is in the ring, just sent, or was
dropped by a full ring. -/
theorem deathlink_bounded (auth : ι → String) (named : ∀ p, auth p ≠ "") (clock : ι → ℤ)
    (running : ∀ p, 0 < clock p) (events : List (Event ι)) (p : ι) :
    let s := run step (fun p => Node.start (auth p) (clock p)) events
    (s p).bounced ≤ (s p).console.organic ∧
      (s p).console.kills ≤ (s p).injected + ∑ q ∈ Finset.univ.erase p, (s q).console.organic ∧
      AtEach Apart (s p).console.deaths ∧
      ((s p).console.deathPendingSend = true → (s p).console.dropped = true ∨
        (s p).console.clearDue = true ∨ ∃ e ∈ (s p).console.outboundStatus.waiting, e.death = true) := by
  intro s
  have held : Accounted auth s := run_accounted named running events
  have own (q : ι) : (s q).bounced ≤ (s q).console.organic := by
    have sent := (held q).sent
    have reported := (held q).reported.sent_le
    omega
  have all : others s p ≤ ∑ q ∈ Finset.univ.erase p, (s q).console.organic :=
    Finset.sum_le_sum fun q _ => own q
  have received := (held p).received
  refine ⟨own p, ?_, (held p).clocked.spaced, (held p).reported.pending⟩
  calc (s p).console.kills
      ≤ (s p).console.accepted := Nat.le_add_right _ _
    _ ≤ (s p).injected + others s p := by omega
    _ ≤ _ := Nat.add_le_add_left all _

end Network

/-- Two slots with their names. -/
def twoSlots (p : Bool) : String := if p then "Luigi" else "Mario"

/-- Both slots turn DeathLink on. Luigi dies, and his death is lost on the way; then Mario dies,
the server sends his death to both, and Luigi's module kills him twenty seconds after his own
death. -/
def sharedDeath : List (Event Bool) :=
  [.act false (.slotData true), .act false .deliver, .act true (.slotData true), .act true .deliver,
    .act true (.frame (.kill 1000)), .act true (.frame (.sendStatus 1)),
    .act true (.frame .clearPending), .act true (.frame .discard), .act true (.lose 0 1 1),
    .act false (.frame (.kill 20000)), .act false (.frame (.sendStatus 1)),
    .act false (.frame .clearPending), .act false (.frame .discard), .read false true 5 [false, true],
    .act false (.bounce true true), .act true (.bounce true true), .act true .deliver,
    .act true (.frame (.applyOnFrame 21000))]

/-- The network after the shared death. -/
def afterSharedDeath : Bool → Node :=
  run step (fun p => Node.start (twoSlots p) 1) sharedDeath

theorem deathlink_bounded_sharedDeath :
    (afterSharedDeath true).console.kills = 1 ∧
      (afterSharedDeath true).bounced ≤ (afterSharedDeath true).console.organic ∧
      (afterSharedDeath true).console.kills ≤ (afterSharedDeath true).injected +
        ∑ q ∈ Finset.univ.erase true, (afterSharedDeath q).console.organic ∧
      AtEach Apart (afterSharedDeath true).console.deaths ∧
      ((afterSharedDeath true).console.deathPendingSend = true →
        (afterSharedDeath true).console.dropped = true ∨
          (afterSharedDeath true).console.clearDue = true ∨
            ∃ e ∈ (afterSharedDeath true).console.outboundStatus.waiting, e.death = true) :=
  ⟨by decide +kernel,
    deathlink_bounded twoSlots (by decide) (fun _ => 1) (by decide) sharedDeath true⟩

end SmoArchipelago.Bridge.DeathLink
