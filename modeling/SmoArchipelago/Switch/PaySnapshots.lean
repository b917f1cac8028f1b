import SmoArchipelago.Library.RingBuffer
import SmoArchipelago.Library.Runs

/-! # Pay snapshots

An Odyssey deposit reads the moons paid to every kingdom and queues the reading in a ring
of four slots. The socket thread takes a reading out of the ring and then sends it; after
a HELLO it also sends a reading of its own.

## Implementation notes

A deposit is one step of the frame thread. The socket thread takes or builds a reading in
one step and sends it in another, so a deposit may fall between them. `dropped` and
`discarded` log the readings that a full ring or a failed send loses. -/

namespace SmoArchipelago.Switch.PaySnapshots

open Library Library.Runs

/-- The moons paid to each kingdom, by its bit. -/
structure PendingPaySnapshot where
  totals : Vector ℤ 17
  deriving DecidableEq, Inhabited

/-- Where the reading that is being sent comes from. -/
inductive Source where
  | pump
  | hello
  deriving DecidableEq

structure State where
  pendingPaySnapshots : RingBuffer PendingPaySnapshot 4
  payShineNum : PendingPaySnapshot
  lastDeposit : Option PendingPaySnapshot
  connected : Bool
  bridgeConnected : Bool
  /-- A pump has come to its end in this connection. -/
  upSincePump : Bool
  inFlight : Option (Source × PendingPaySnapshot)
  sent : List PendingPaySnapshot
  dropped : List PendingPaySnapshot
  discarded : List PendingPaySnapshot

/-- A process that has loaded a save. -/
def start (payShineNum : PendingPaySnapshot) : State where
  pendingPaySnapshots := RingBuffer.empty 4 default
  payShineNum := payShineNum
  lastDeposit := none
  connected := false
  bridgeConnected := false
  upSincePump := false
  inFlight := none
  sent := []
  dropped := []
  discarded := []

inductive Event where
  /-- `addPayShine`; the game data are cached or not. -/
  | deposit (totals : PendingPaySnapshot) (cached : Bool)
  | connect
  | helloAck
  | disconnect
  /-- The reading after the HELLO snapshot. -/
  | sendSnapshot (cached : Bool)
  /-- A pump that returns before it reaches the pay snapshots. -/
  | pumpReturns
  | pop
  | send (ok : Bool)

/-- Without the game data there is no reading. -/
def buildPaySnapshot (cached : Bool) (s : State) : Option PendingPaySnapshot :=
  if cached then some s.payShineNum else none

/-- A full ring drops the new reading. -/
def queuePaySnapshot (cached : Bool) (s : State) : State :=
  match buildPaySnapshot cached s with
  | none => s
  | some ps =>
      match s.pendingPaySnapshots.push ps with
      | some ring => { s with pendingPaySnapshots := ring }
      | none => { s with dropped := s.dropped ++ [ps] }

/-- The socket thread has a connection and is not between a reading and its send. -/
def State.ready (s : State) : Bool := s.connected && s.inFlight.isNone

def step (s : State) : Event → State
  | .deposit totals cached =>
      -- with the bridge offline the deposit is blocked
      if s.bridgeConnected then
        queuePaySnapshot cached { s with payShineNum := totals, lastDeposit := some totals }
      else s
  | .connect => if s.connected then s else { s with connected := true }
  | .helloAck => if s.ready then { s with bridgeConnected := true } else s
  | .disconnect =>
      if s.ready then { s with connected := false, bridgeConnected := false, upSincePump := false }
      else s
  | .sendSnapshot cached =>
      if s.ready then { s with inFlight := (buildPaySnapshot cached s).map (Source.hello, ·) }
      else s
  | .pumpReturns => if s.ready then { s with upSincePump := true } else s
  | .pop =>
      if s.ready then
        match s.pendingPaySnapshots.pop with
        | none => { s with upSincePump := true }
        | some (ps, ring) =>
            { s with pendingPaySnapshots := ring, inFlight := some (.pump, ps) }
      else s
  | .send ok =>
      match s.inFlight with
      | none => s
      | some (source, ps) =>
          if ok then { s with inFlight := none, sent := s.sent ++ [ps] }
          else
            match source with
            | .pump =>
                { s with
                  inFlight := none
                  upSincePump := true
                  discarded := s.discarded ++ [ps] }
            | .hello => { s with inFlight := none }

/-- With the ring empty and the connection up since the last pump, the last reading sent
is the most recent deposit's. -/
def LastSent (s : State) : Prop :=
  s.pendingPaySnapshots.toList = [] → s.inFlight = none → s.upSincePump = true →
    ∀ totals ∈ s.lastDeposit, s.sent.getLast? = some totals

/-- And no reading is lost on the way. -/
structure LastWins (s : State) : Prop where
  last : LastSent s
  dropped : s.dropped = []
  discarded : s.discarded = []

/-- A deposit finds a free slot, and a reading taken from the ring is sent. -/
def NothingLost (s : State) : Event → Prop
  | .deposit _ cached =>
      s.bridgeConnected = true → cached = true → s.pendingPaySnapshots.HasRoom
  | .send ok => ok = false → ∀ reading ∈ s.inFlight, reading.1 ≠ .pump
  | _ => True

/-- A deposit can read the game data. -/
def Readable (s : State) : Event → Prop
  | .deposit _ cached => s.bridgeConnected = true → cached = true
  | _ => True

/-- The newest reading on its way is the most recent deposit's. -/
structure Newest (s : State) : Prop where
  current : ∀ totals ∈ s.lastDeposit, s.payShineNum = totals
  queued : ∀ totals ∈ s.lastDeposit, s.pendingPaySnapshots.toList ≠ [] →
    s.pendingPaySnapshots.toList.getLast? = some totals
  carried : ∀ totals ∈ s.lastDeposit, s.pendingPaySnapshots.toList = [] →
    ∀ reading ∈ s.inFlight, reading.2 = totals
  arrived : ∀ totals ∈ s.lastDeposit, s.pendingPaySnapshots.toList = [] →
    (∀ reading ∈ s.inFlight, reading.1 = .hello) → s.sent.getLast? = some totals
  dropped : s.dropped = []
  discarded : s.discarded = []

theorem Newest.lastWins {s : State} (h : Newest s) : LastWins s := by
  constructor
  · intro empty idle _ totals last
    apply h.arrived totals last empty
    intro reading here
    rw [idle] at here
    cases here
  · exact h.dropped
  · exact h.discarded

theorem queuePaySnapshot_of_room {s : State} (room : s.pendingPaySnapshots.HasRoom) :
    (queuePaySnapshot true s).pendingPaySnapshots.toList =
        s.pendingPaySnapshots.toList ++ [s.payShineNum] ∧
      queuePaySnapshot true s =
        { s with pendingPaySnapshots := (queuePaySnapshot true s).pendingPaySnapshots } := by
  rw [queuePaySnapshot, buildPaySnapshot, if_pos rfl]
  simp only [RingBuffer.push_of_room room]
  exact ⟨RingBuffer.toList_pushed room s.payShineNum, trivial⟩

theorem deposit_newest {s : State} (h : Newest s) (totals : PendingPaySnapshot)
    (room : s.pendingPaySnapshots.HasRoom) :
    Newest (queuePaySnapshot true { s with payShineNum := totals, lastDeposit := some totals }) := by
  obtain ⟨queue, same⟩ := queuePaySnapshot_of_room
    (s := { s with payShineNum := totals, lastDeposit := some totals }) room
  have some_left : s.pendingPaySnapshots.toList ++ [totals] ≠ [] :=
    List.append_ne_nil_of_right_ne_nil _ (List.cons_ne_nil _ _)
  rw [same]
  constructor
  · intro t last
    exact Option.some.inj last
  · intro t last _
    rw [← Option.some.inj last]
    simp only [queue, List.getLast?_concat]
  · intro t last empty
    simp only [queue] at empty
    exact absurd empty some_left
  · intro t last empty
    simp only [queue] at empty
    exact absurd empty some_left
  · exact h.dropped
  · exact h.discarded

theorem pop_newest {s : State} (h : Newest s) {ps : PendingPaySnapshot}
    {ring : RingBuffer PendingPaySnapshot 4}
    (hpop : s.pendingPaySnapshots.pop = some (ps, ring)) :
    Newest { s with pendingPaySnapshots := ring, inFlight := some (.pump, ps) } := by
  have queue : s.pendingPaySnapshots.toList = ps :: ring.toList := by
    have popped := s.pendingPaySnapshots.pop_eq
    rw [hpop] at popped
    cases content : s.pendingPaySnapshots.toList with
    | nil =>
        rw [content] at popped
        cases popped
    | cons v vs =>
        rw [content] at popped
        obtain ⟨rfl, rfl⟩ := Prod.mk.inj (Option.some.inj popped)
        rfl
  have some_left : s.pendingPaySnapshots.toList ≠ [] := by
    rw [queue]
    exact List.cons_ne_nil _ _
  constructor
  · exact h.current
  · intro totals last left
    have newest := h.queued totals last some_left
    rw [queue, List.getLast?_cons_of_ne_nil left] at newest
    exact newest
  · intro totals last empty reading here
    have newest := h.queued totals last some_left
    rw [queue, empty] at newest
    rw [← Option.some.inj here]
    exact Option.some.inj newest
  · intro totals last empty only
    have pumped := only _ rfl
    cases pumped
  · exact h.dropped
  · exact h.discarded

theorem send_newest {s : State} (h : Newest s) {source : Source} {ps : PendingPaySnapshot}
    (flight : s.inFlight = some (source, ps)) :
    Newest { s with inFlight := none, sent := s.sent ++ [ps] } := by
  constructor
  · exact h.current
  · exact h.queued
  · intro totals last empty reading here
    cases here
  · intro totals last empty _
    have carried : ps = totals := h.carried totals last empty _ flight
    rw [List.getLast?_concat, carried]
  · exact h.dropped
  · exact h.discarded

theorem step_newest (s : State) (e : Event) (h : Newest s)
    (good : NothingLost s e ∧ Readable s e) : Newest (step s e) := by
  have idle_of (ready : s.ready = true) : s.inFlight = none := by
    simp only [State.ready, Bool.and_eq_true, Option.isNone_iff_eq_none] at ready
    exact ready.2
  cases e with
  | deposit totals cached =>
      simp only [step]
      split_ifs with online
      · have here : cached = true := good.2 online
        rw [here]
        exact deposit_newest h totals (good.1 online here)
      · exact h
  | connect =>
      simp only [step]
      split_ifs
      · exact h
      · exact ⟨h.current, h.queued, h.carried, h.arrived, h.dropped, h.discarded⟩
  | helloAck =>
      simp only [step]
      split_ifs
      · exact ⟨h.current, h.queued, h.carried, h.arrived, h.dropped, h.discarded⟩
      · exact h
  | disconnect =>
      simp only [step]
      split_ifs
      · exact ⟨h.current, h.queued, h.carried, h.arrived, h.dropped, h.discarded⟩
      · exact h
  | sendSnapshot cached =>
      simp only [step]
      split_ifs with ready
      · have idle := idle_of ready
        constructor
        · exact h.current
        · exact h.queued
        · intro totals last empty reading here
          obtain ⟨ps, built, rfl⟩ := Option.map_eq_some_iff.1 here
          rw [buildPaySnapshot] at built
          split_ifs at built
          rw [← h.current totals last]
          exact (Option.some.inj built).symm
        · intro totals last empty _
          apply h.arrived totals last empty
          intro reading here
          rw [idle] at here
          cases here
        · exact h.dropped
        · exact h.discarded
      · exact h
  | pumpReturns =>
      simp only [step]
      split_ifs
      · exact ⟨h.current, h.queued, h.carried, h.arrived, h.dropped, h.discarded⟩
      · exact h
  | pop =>
      simp only [step]
      split_ifs
      · cases hpop : s.pendingPaySnapshots.pop with
        | none => exact ⟨h.current, h.queued, h.carried, h.arrived, h.dropped, h.discarded⟩
        | some front => exact pop_newest h hpop
      · exact h
  | send ok =>
      simp only [step]
      cases flight : s.inFlight with
      | none => exact h
      | some reading =>
          obtain ⟨source, ps⟩ := reading
          cases ok with
          | true => exact send_newest h flight
          | false =>
              cases source with
              | pump => exact absurd rfl (good.1 rfl _ flight)
              | hello =>
                  constructor
                  · exact h.current
                  · exact h.queued
                  · intro totals last empty reading here
                    cases here
                  · intro totals last empty _
                    apply h.arrived totals last empty
                    intro reading here
                    rw [flight] at here
                    rw [← Option.some.inj here]
                  · exact h.dropped
                  · exact h.discarded

/-- What a bad step loses is in the logs. -/
theorem lost_step (s : State) (e : Event) (bad : ¬ NothingLost s e) :
    (step s e).dropped ≠ [] ∨ (step s e).discarded ≠ [] := by
  have logged (readings : List PendingPaySnapshot) (ps : PendingPaySnapshot) :
      readings ++ [ps] ≠ [] := List.append_ne_nil_of_right_ne_nil _ (List.cons_ne_nil _ _)
  cases e with
  | deposit totals cached =>
      simp only [NothingLost, Classical.not_imp] at bad
      obtain ⟨online, rfl, full⟩ := bad
      simp only [step]
      rw [if_pos online, queuePaySnapshot, buildPaySnapshot, if_pos rfl]
      simp only [RingBuffer.push_of_full full]
      exact .inl (logged _ _)
  | send ok =>
      simp only [NothingLost, Classical.not_imp, not_forall, not_not] at bad
      obtain ⟨rfl, ⟨source, ps⟩, flight, rfl⟩ := bad
      simp only [step, Option.mem_def.1 flight]
      exact .inr (logged _ _)
  | connect => exact absurd trivial bad
  | helloAck => exact absurd trivial bad
  | disconnect => exact absurd trivial bad
  | sendSnapshot cached => exact absurd trivial bad
  | pumpReturns => exact absurd trivial bad
  | pop => exact absurd trivial bad

/-- Where every deposit finds a slot and can be read and every queued reading is sent, the
last reading wins in every state; and it does so in a whole run only if none is lost. -/
theorem last_wins (payShineNum : PendingPaySnapshot) (events : List Event) :
    (Along step (fun s e => NothingLost s e ∧ Readable s e) (start payShineNum) events →
        Throughout step LastWins (start payShineNum) events) ∧
      (Throughout step LastWins (start payShineNum) events →
        Along step NothingLost (start payShineNum) events) := by
  constructor
  · intro good
    have first : Newest (start payShineNum) := ⟨nofun, nofun, nofun, nofun, rfl, rfl⟩
    exact throughout_mono (fun s h => h.lastWins) (guarded_run step_newest first good)
  · apply along_of_throughout
    intro s e bad wins
    apply (lost_step s e bad).elim
    · exact fun dropped => dropped wins.dropped
    · exact fun discarded => discarded wins.discarded

/-- A reading that pays `n` moons to the Cap Kingdom. -/
def capPaid (n : ℤ) : PendingPaySnapshot := ⟨(Vector.replicate 17 0).set 0 n⟩

/-- Four deposits between two pumps, and the pump that empties the ring. -/
def fourDeposits : List Event :=
  [.connect, .helloAck, .deposit (capPaid 1) true, .deposit (capPaid 2) true,
    .deposit (capPaid 3) true, .deposit (capPaid 4) true, .pop, .send true, .pop, .send true,
    .pop, .send true, .pop]

/-- The ring is empty after the pump and the third reading is the last one sent. -/
theorem fourth_deposit_not_sent :
    ¬ LastSent (run step (start (capPaid 0)) fourDeposits) := by
  intro last
  have sent := last (by decide) (by decide) (by decide) (capPaid 4) (by decide)
  revert sent
  decide

end SmoArchipelago.Switch.PaySnapshots
