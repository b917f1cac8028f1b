import SmoArchipelago.Bridge.DataPackage
import SmoArchipelago.Bridge.MoonBalance
import SmoArchipelago.Switch.KingdomOrderGate
import SmoArchipelago.World.GateRolls
import SmoArchipelago.World.KingdomThreshold

/-! # The gates of the detours and the rule of the generator

The generator asks for moons received; the Switch adds what is outstanding to what was paid. The
two agree once the answer to the last reading has arrived, and until then a payment only adds.

## Implementation notes

The messages with the gates travel beside those of `MoonBalance`. The player may pay at any
time, and the Switch may send a reading at any time. -/

namespace SmoArchipelago.World.Detour

open Library Runs Switch Bridge
open ApProtocol (KingdomGateEntry)

/-! ## The item table -/

/-- The moons of the item table with their counts. -/
def moonItems : List (String × ℕ) :=
  [("Cap Kingdom Power Moon", 31), ("Cascade Kingdom Power Moon", 38),
    ("Cascade Kingdom Multi-Moon", 1), ("Sand Kingdom Power Moon", 87),
    ("Sand Kingdom Multi-Moon", 2), ("Lake Kingdom Power Moon", 42),
    ("Lake Kingdom Multi-Moon", 1), ("Wooded Kingdom Power Moon", 74),
    ("Wooded Kingdom Multi-Moon", 2), ("Cloud Kingdom Power Moon", 8),
    ("Lost Kingdom Power Moon", 35), ("Metro Kingdom Power Moon", 79),
    ("Metro Kingdom Multi-Moon", 2), ("Snow Kingdom Power Moon", 55),
    ("Snow Kingdom Multi-Moon", 1), ("Seaside Kingdom Power Moon", 70),
    ("Seaside Kingdom Multi-Moon", 1), ("Luncheon Kingdom Power Moon", 66),
    ("Luncheon Kingdom Multi-Moon", 2), ("Ruined Kingdom Power Moon", 9),
    ("Ruined Kingdom Multi-Moon", 1), ("Bowser's Kingdom Power Moon", 61),
    ("Bowser's Kingdom Multi-Moon", 1), ("Moon Kingdom Power Moon", 32),
    ("Mushroom Kingdom Power Moon", 1), ("Mushroom Kingdom Multi-Moon", 6),
    ("Dark Side Multi-Moon", 1)]

def moonNames : List String := moonItems.map Prod.fst

/-- The data package of the world: its moons are those of the item table. -/
structure WorldPackage extends DataPackage where
  moons : ∀ name, "moon" ∈ (itemCategories name).map lower ↔ name ∈ moonNames
  plain : ∀ name ∈ moonNames, "capture" ∉ (itemCategories name).map lower ∧
    "ability" ∉ (itemCategories name).map lower

/-- The kingdom and the kind of moon that a name is read as. -/
def readMoon (name : String) : Option (String × String) :=
  (itemMoonKingdom [] name.toList).map fun found => (strip isSpace found.1, found.2)

theorem readMoon_known : ∀ name ∈ moonNames,
    (readMoon name).map Prod.fst ∈ (List.finRange 17).map fun bit => some (apKingdom bit) := by
  decide +kernel

variable (wp : WorldPackage)

theorem classifyItem_moon {name : String} (listed : name ∈ moonNames) :
    ∃ bit shineId, readMoon name = some (apKingdom bit, shineId) ∧
      wp.classifyItem name = { kind := .moon, name, kingdom := some (apKingdom bit), shineId := some shineId } := by
  obtain ⟨capture, ability⟩ := wp.plain name listed
  obtain ⟨bit, -, kingdom⟩ := List.mem_map.1 (readMoon_known name listed)
  cases found : itemMoonKingdom [] name.toList with
  | none =>
      rw [readMoon, found] at kingdom
      cases kingdom
  | some parts =>
      rw [readMoon, found] at kingdom
      have named : strip isSpace parts.1 = apKingdom bit := (Option.some.inj kingdom).symm
      refine ⟨bit, parts.2, ?_, ?_⟩
      · rw [readMoon, found, Option.map_some, named]
      · unfold DataPackage.classifyItem
        dsimp only
        rw [if_neg capture, if_neg ability, if_pos ((wp.moons name).2 listed), found]
        simp only [named]

theorem classifyItem_other {name : String} (absent : name ∉ moonNames) :
    (wp.classifyItem name).kind ≠ .moon := by
  have category : "moon" ∉ (wp.itemCategories name).map lower := fun h => absent ((wp.moons name).1 h)
  unfold DataPackage.classifyItem
  dsimp only
  split_ifs
  · exact fun same => ItemKind.noConfusion same
  · exact fun same => ItemKind.noConfusion same
  · exact fun same => ItemKind.noConfusion same

theorem moon_of_value {kind : ItemKind} (value : kind.value = ItemKind.moon.value) :
    kind = .moon := by
  cases kind with
  | moon => rfl
  | _ => exact absurd value (by decide)

/-- An item as it is received. -/
structure Received where
  name : String
  sender : String := "self"
  cappyFrom : String := ""

def Received.evt (r : Received) : ItemEvent where
  item := (wp.classifyItem r.name).toRef
  sender := r.sender
  cappyFrom := r.cappyFrom

theorem Received.evt_named (r : Received) (moon : (r.evt wp).item.kind = ItemKind.moon.value) :
    ∃ bit, (r.evt wp).item.kingdom = some (apKingdom bit) := by
  by_cases listed : r.name ∈ moonNames
  · obtain ⟨bit, shineId, -, classified⟩ := classifyItem_moon wp listed
    refine ⟨bit, ?_⟩
    rw [Received.evt, classified]
    rfl
  · exact absurd (moon_of_value moon) (classifyItem_other wp listed)

def Received.item (r : Received) : MoonBalance.TableItem := ⟨r.evt wp, r.evt_named wp⟩

/-! ## Moons received -/

/-- The worth of a name to a kingdom. -/
def nameCredit (kingdom name : String) : ℕ :=
  if name = multiMoon kingdom then 3 else if name = powerMoon kingdom then 1 else 0

/-- The kingdoms of the detours. -/
def siblings : List (Fin 17) :=
  kDetourPairs.flatMap fun pair => [pair.aShort, pair.bShort].filterMap bitOfShort

theorem apKingdom_sibling : ∀ bit ∈ siblings, apKingdom bit = kingdomForBit bit := by
  decide

/-- The bit of a kingdom of a detour. -/
theorem sibling_of_bit {pair : DetourPair} (member : pair ∈ kDetourPairs) {kingdom : String}
    (here : kingdom = pair.aShort ∨ kingdom = pair.bShort) {bit : Fin 17}
    (found : bitOfShort kingdom = some bit) : bit ∈ siblings ∧ kingdomForBit bit = kingdom := by
  have name : kingdom = kingdomForBit bit := 
    of_decide_eq_true (List.find?_some (p := fun bit => kingdom = kingdomForBit bit) found)
  have listed : ∀ pair ∈ kDetourPairs, ∀ bit : Fin 17,
      kingdomForBit bit = pair.aShort ∨ kingdomForBit bit = pair.bShort → bit ∈ siblings := by
    decide
  exact ⟨listed pair member bit (name ▸ here), name.symm⟩

/-- A moon of the item table is worth to a kingdom of the detours what its name is. -/
theorem readMoon_credit : ∀ bit ∈ siblings, ∀ name ∈ moonNames,
    ((readMoon name).elim 0 fun moon =>
      if moon.1 = apKingdom bit then if moon.2 = "Multi-Moon" then 3 else 1 else 0) =
      nameCredit (apKingdom bit) name := by
  decide +kernel

theorem siblings_listed : ∀ bit ∈ siblings,
    multiMoon (apKingdom bit) ∈ moonNames ∧ powerMoon (apKingdom bit) ∈ moonNames := by
  decide +kernel

theorem apKingdom_ne_empty : ∀ bit, apKingdom bit ≠ "" := by
  decide

theorem moonCredit_evt {bit : Fin 17} (sibling : bit ∈ siblings) (r : Received) :
    BridgeState.moonCredit (apKingdom bit) (r.evt wp) = nameCredit (apKingdom bit) r.name := by
  by_cases listed : r.name ∈ moonNames
  · obtain ⟨other, shineId, read, classified⟩ := classifyItem_moon wp listed
    have credit := readMoon_credit bit sibling r.name listed
    rw [read] at credit
    rw [← credit, Received.evt, classified, BridgeState.moonCredit]
    have named := apKingdom_ne_empty bit
    simp only [ClassifiedItem.toRef, Option.some.injEq, true_and, named, not_false_eq_true,
      ne_eq, and_true, Option.elim_some, BridgeState.moonWeight]
  · have none_listed := siblings_listed bit sibling
    have not_multi : r.name ≠ multiMoon (apKingdom bit) := fun same => listed (same ▸ none_listed.1)
    have not_power : r.name ≠ powerMoon (apKingdom bit) := fun same => listed (same ▸ none_listed.2)
    rw [nameCredit, if_neg not_multi, if_neg not_power, BridgeState.moonCredit, if_neg]
    rintro ⟨moon, -⟩
    exact classifyItem_other wp listed (moon_of_value moon)

/-- The moons of a kingdom of the detours, from the counts of its two items. -/
theorem sum_moonCredit {bit : Fin 17} (sibling : bit ∈ siblings) (rs : List Received) :
    ((rs.map fun r => r.evt wp).map (BridgeState.moonCredit (apKingdom bit))).sum =
      3 * (rs.map fun r => r.evt wp).countP (fun evt => evt.item.name = some (multiMoon (apKingdom bit))) +
        (rs.map fun r => r.evt wp).countP (fun evt => evt.item.name = some (powerMoon (apKingdom bit))) := by
  induction rs with
  | nil => rfl
  | cons r rs ih =>
      have name : (r.evt wp).item.name = some r.name := congrArg some (wp.classifyItem_name r.name)
      have apart := powerMoon_ne_multiMoon (apKingdom bit) (apKingdom bit)
      simp only [List.map_cons, List.sum_cons, List.countP_cons, ih, moonCredit_evt wp sibling, name,
        Option.some.injEq, decide_eq_true_eq, nameCredit]
      by_cases multi : r.name = multiMoon (apKingdom bit)
      · have not_power : r.name ≠ powerMoon (apKingdom bit) := fun same => apart (same ▸ multi)
        rw [if_pos multi, if_pos multi, if_neg not_power]
        omega
      · rw [if_neg multi, if_neg multi]
        omega

/-! ## Rolled gates on the wire -/

/-- An entry as the Switch reads it. -/
def decodedGate (e : String × ℕ) : KingdomGateEntry :=
  ⟨wireName (kingdomApToSwitch e.1), Json.Reader.toInt32 (Json.Reader.toInt64 e.2)⟩

/-- `KingdomGates::kMaxEntries` -/
def kMaxGates : ℕ := 17

/-- The message as the Switch applies it. -/
def applyGates (_ : Fin 17 → ℤ) (entries : List (String × ℕ)) : Fin 17 → ℤ :=
  applyKingdomGates ((entries.take kMaxGates).map decodedGate)

theorem applyGateEntry_decoded (kingdomGate : Fin 17 → ℤ) (bit : Fin 17) {n : ℕ}
    (small : n < 2 ^ 31) :
    applyGateEntry kingdomGate (decodedGate (apKingdom bit, n)) =
      Function.update kingdomGate bit n := by
  have named : ∀ bit, (wireName (kingdomApToSwitch (apKingdom bit))).isEmpty = false := by decide
  have known : kingdomBitFor (decodedGate (apKingdom bit, n)).kingdom = some bit := bitOf_apKingdom bit
  have value : (decodedGate (apKingdom bit, n)).gate = n := by
    rw [decodedGate, Json.Reader.toInt32, Json.Reader.toInt64, Int.bmod_bmod_of_dvd (by decide)]
    rw [Int.bmod_eq_of_le (by omega) (by omega)]
  have kept : ¬ ((decodedGate (apKingdom bit, n)).kingdom.isEmpty ∨
      (decodedGate (apKingdom bit, n)).gate < 0) := by
    rintro (empty | negative)
    · exact absurd (empty.symm.trans (named bit)) (by decide)
    · omega
  unfold applyGateEntry
  rw [if_neg kept, known, value]

/-- The gate of a kingdom is that of its entry. -/
theorem foldl_gates {es : List (String × ℕ)} (known : ∀ e ∈ es, ∃ bit, e.1 = apKingdom bit)
    (small : ∀ e ∈ es, e.2 < 2 ^ 31) (distinct : (es.map Prod.fst).Nodup)
    (kingdomGate : Fin 17 → ℤ) (bit : Fin 17) :
    (es.map decodedGate).foldl applyGateEntry kingdomGate bit =
      ((Dict.find (apKingdom bit) es).map fun n : ℕ => (n : ℤ)).getD (kingdomGate bit) := by
  induction es generalizing kingdomGate with
  | nil => rfl
  | cons e es ih =>
      obtain ⟨name, n⟩ := e
      obtain ⟨other, rfl⟩ := known (name, n) List.mem_cons_self
      obtain ⟨fresh, rest⟩ := List.nodup_cons.1 distinct
      have later := ih (fun e member => known e (List.mem_cons_of_mem _ member))
        (fun e member => small e (List.mem_cons_of_mem _ member)) rest
      rw [List.map_cons, List.foldl_cons, applyGateEntry_decoded _ _ (small _ List.mem_cons_self),
        later, Dict.find]
      by_cases here : apKingdom other = apKingdom bit
      · obtain rfl := apKingdom_injective here
        have absent : Dict.find (apKingdom other) es = none := by
          cases found : Dict.find (apKingdom other) es with
          | none => rfl
          | some m =>
              have member := List.mem_map_of_mem (f := Prod.fst) ((Dict.find_eq_some rest).1 found)
              exact absurd member fresh
        rw [absent, if_pos rfl]
        exact Function.update_self _ _ _
      · have distinct_bits : bit ≠ other := fun same => here (congrArg apKingdom same.symm)
        rw [if_neg here, Function.update_of_ne distinct_bits]

/-- A table that the world may have rolled. -/
def RolledGates (g : Dict String ℕ) : Prop :=
  ∃ rng capacities, g = rollKingdomGates rng kingdomMoonGates capacities

theorem base_known : ∀ e ∈ kingdomMoonGates.entries,
    e.1 ∈ (List.finRange 17).map apKingdom ∧ e.2 ≤ 20 := by
  decide

theorem rolled_le {g : Dict String ℕ} (rolled : RolledGates g) {e : String × ℕ}
    (member : e ∈ g.entries) : (∃ bit, e.1 = apKingdom bit) ∧ e.2 ≤ 25 := by
  obtain ⟨rng, capacities, rfl⟩ := rolled
  obtain ⟨r, walked, ended⟩ : ∃ r, Walked (rollTables capacities kingdomMoonGates) r ∧
      rollKingdomGates rng kingdomMoonGates capacities = r.value := rollKingdomGates_walked rng
  rw [ended] at member
  have key : e.1 ∈ kingdomMoonGates.keys := by
    have same : (rollTables capacities kingdomMoonGates).value.keys = kingdomMoonGates.keys :=
      rollTables_keys
    rw [← same, ← walked.keys]
    exact List.mem_map_of_mem member
  obtain ⟨gate, listed, name⟩ := List.mem_map.1 key
  obtain ⟨kingdom, low⟩ := base_known gate listed
  obtain ⟨bit, -, same⟩ := List.mem_map.1 kingdom
  have value : r.value.getD gate.1 0 = e.2 := by
    rw [name]
    exact Dict.getD_of_mem member 0
  have top : rollHi capacities gate ≤ 25 := by
    unfold rollHi gateRandomizeSpread
    cases capacities.get? gate.1 with
    | none => exact Nat.add_le_add_right low 5
    | some cap => exact (min_le_left _ _).trans (Nat.add_le_add_right low 5)
  refine ⟨⟨bit, name.symm.trans same.symm⟩, ?_⟩
  by_cases walks : gate.1 ∈ (rollTables capacities kingdomMoonGates).walkers
  · have free := (mem_rollTables_walkers listed).1 walks
    calc e.2 = r.value.getD gate.1 0 := value.symm
      _ ≤ (rollTables capacities kingdomMoonGates).hi.getD gate.1 0 := (walked.within _ walks).2
      _ = rollHi capacities gate := (rollTables_bounds listed free).2
      _ ≤ 25 := top
  · have frozen : Frozen capacities gate := by
      by_contra free
      exact walks ((mem_rollTables_walkers listed).2 free)
    calc e.2 = r.value.getD gate.1 0 := value.symm
      _ = rollStart capacities gate := (walked.others _ walks).trans (rollTables_value listed)
      _ = max 1 (rollHi capacities gate) := if_pos frozen
      _ ≤ 25 := max_le (by decide) top

/-- The Switch asks for what the rule function asks for. -/
theorem leaveThreshold_rolled {rolled : Option (Dict String ℕ)} (isRolled : ∀ g ∈ rolled, RolledGates g)
    {s : GateState} (gates : s.kingdomGate = applyGates resetKingdomGates (rolled.getD .empty).entries)
    (bit : Fin 17) (vanilla : ℤ) :
    s.leaveThreshold bit vanilla = threshold rolled (apKingdom bit) vanilla := by
  have table : s.kingdomGate bit =
      ((rolled.bind (·.get? (apKingdom bit))).map fun n : ℕ => (n : ℤ)).getD (-1) := by
    rw [gates]
    cases here : rolled with
    | none => rfl
    | some g =>
        have bounds := fun e member => rolled_le (isRolled g here) (e := e) member
        have few : g.entries.length ≤ kMaxGates := by
          rw [← List.length_map Prod.fst]
          apply MoonBalance.length_le_of_known g.distinct
          intro k member
          obtain ⟨e, inside, rfl⟩ := List.mem_map.1 member
          exact (bounds e inside).1
        have small : ∀ e ∈ g.entries, e.2 < 2 ^ 31 := fun e member =>
          lt_of_le_of_lt (bounds e member).2 (by decide)
        unfold applyGates applyKingdomGates
        rw [Option.getD_some, List.take_of_length_le few,
          foldl_gates (fun e member => (bounds e member).1) small g.distinct]
        rfl
  unfold GateState.leaveThreshold threshold
  rw [table]
  cases (rolled.bind (·.get? (apKingdom bit))) with
  | none => rfl
  | some n => exact if_pos (Int.natCast_nonneg n)

/-! ## The system -/

structure State where
  balance : MoonBalance.State := {}
  /-- The moons paid in the save that is loaded. -/
  payShineNum : Fin 17 → ℤ := fun _ => 0
  /-- The server has told the bridge the gates. -/
  configured : Bool := false
  /-- The replay has still to send them. -/
  gatesDue : Bool := false
  gates : Receiver (Fin 17 → ℤ) (List (String × ℕ)) := { state := resetKingdomGates }

inductive Event where
  | receivedItems (items : List Received)
  | resume (k : ℕ)
  | resumeReplay
  /-- The Switch sends a reading of the loaded save. -/
  | paySnapshot
  | bridgeReads
  | switchReads
  | disconnect
  | restart
  /-- A HELLO, with a reading where it can be built. -/
  | hello (built : Bool)
  | deposit (bit : Fin 17) (moons : ℕ)
  /-- Another save is loaded. -/
  | reload (payShineNum : Fin 17 → ℤ)
  /-- The server's slot data arrives. -/
  | slotData
  | replayGates
  | switchReadsGates

/-- The part that the balances have in an event. -/
def Event.toBalance (payShineNum : Fin 17 → ℤ) : Event → Option MoonBalance.Event
  | .receivedItems items => some (.receivedItems (items.map fun r => r.item wp))
  | .resume k => some (.resume k)
  | .resumeReplay => some .resumeReplay
  | .paySnapshot => some (.paySnapshot payShineNum)
  | .bridgeReads => some .bridgeReads
  | .switchReads => some .switchReads
  | .disconnect => some .disconnect
  | .restart => some .restart
  | .hello built => some (.hello (if built then some payShineNum else none))
  | _ => none

variable (festival : Bool) (rolled : Option (Dict String ℕ))

/-- `push_kingdom_gates`; without a rolled table the message has no entries. -/
def pushGates (s : State) : State :=
  if s.configured ∧ s.balance.connected then
    { s with gates := s.gates.send (rolled.getD .empty).entries }
  else s

def stepBalance (s : State) (e : Event) : State :=
  { s with
    balance := (e.toBalance wp s.payShineNum).elim s.balance (MoonBalance.step festival s.balance) }

def step (s : State) (e : Event) : State :=
  let s := stepBalance wp festival s e
  match e with
  | .deposit bit moons =>
      { s with payShineNum := Function.update s.payShineNum bit (s.payShineNum bit + moons) }
  | .reload payShineNum => { s with payShineNum }
  | .disconnect => { s with gatesDue := false, gates := s.gates.lose }
  | .restart => { s with gatesDue := false, gates := { state := resetKingdomGates } }
  | .hello _ => { s with gatesDue := true, gates := s.gates.lose }
  | .slotData => pushGates rolled { s with configured := true }
  | .replayGates => if s.gatesDue then { pushGates rolled s with gatesDue := false } else s
  | .switchReadsGates => { s with gates := s.gates.process applyGates }
  | _ => s

/-- What the Switch's gates read. -/
def State.gateState (s : State) : GateState where
  apMoonsKingdom := s.balance.switch.state
  kingdomGate := s.gates.state
  payShineNum := s.payShineNum

/-- How many items of a name were received. -/
def State.held (s : State) (name : String) : ℕ := s.balance.bridge.receivedItemCount name

/-- Everything has arrived, the answer to a reading of the loaded save included. -/
structure Settled (s : State) : Prop where
  balance : MoonBalance.Settled s.balance
  reading : s.balance.lastReading = some (MoonBalance.buildPaySnapshot s.payShineNum)
  configured : s.configured = true
  gatesDue : s.gatesDue = false
  inFlight : s.gates.inFlight = []

/-! ## What every run keeps -/

/-- The items of the bridge and of its batches are items of the world. -/
structure FromWorld (s : MoonBalance.State) : Prop where
  items : ∃ rs : List Received, s.bridge.receivedItems = rs.map fun r => r.evt wp
  batches : ∀ batch ∈ s.batches, ∃ rs : List Received, batch.items = rs.map fun r => r.item wp

variable {wp}

theorem FromWorld.of_eq {s t : MoonBalance.State} (h : FromWorld wp s)
    (items : t.bridge.receivedItems = s.bridge.receivedItems) (batches : t.batches = s.batches) :
    FromWorld wp t := by
  constructor
  · rw [items]
    exact h.items
  · rw [batches]
    exact h.batches

theorem FromWorld.push {s : MoonBalance.State} (h : FromWorld wp s) :
    FromWorld wp (MoonBalance.push festival s) := by
  obtain ⟨r, frame⟩ := MoonBalance.push_frame festival s
  rw [frame]
  exact h.of_eq rfl rfl

/-- A batch goes on. -/
theorem FromWorld.resume {s : MoonBalance.State} (h : FromWorld wp s) (k : ℕ) :
    FromWorld wp (MoonBalance.step festival s (.resume k)) := by
  have others {batch : MoonBalance.Batch} (from_world : ∃ rs : List Received,
      batch.items = rs.map fun r => r.item wp) :
      ∀ b ∈ s.batches.set k batch, ∃ rs : List Received, b.items = rs.map fun r => r.item wp := by
    intro b member
    rcases List.mem_or_eq_of_mem_set member with old | rfl
    · exact h.batches b old
    · exact from_world
  simp only [MoonBalance.step]
  split
  · exact h
  · next item rest moonReceived here =>
      obtain ⟨r, frame⟩ := MoonBalance.receive_frame s item
      obtain ⟨rs, items⟩ := h.items
      obtain ⟨left, split_items⟩ := h.batches _ (List.mem_of_getElem? here)
      obtain ⟨first, later, rfl, same, tail⟩ := List.map_eq_cons_iff.1 split_items.symm
      rw [frame]
      refine ⟨⟨rs ++ [first], ?_⟩, others ⟨later, tail.symm⟩⟩
      rw [List.map_append, ← items, List.map_singleton]
      exact (BridgeState.addReceivedItem_receivedItems _ _).trans (by rw [← same]; rfl)
  · next moonReceived here =>
      have pushed : FromWorld wp (if moonReceived then MoonBalance.push festival s else s) := by
        split_ifs
        · exact h.push festival
        · exact h
      exact ⟨pushed.items, others ⟨[], rfl⟩⟩

theorem FromWorld.step {s : MoonBalance.State} (h : FromWorld wp s) {e : MoonBalance.Event}
    (given : ∀ items, e = .receivedItems items → ∃ rs : List Received, items = rs.map fun r => r.item wp) :
    FromWorld wp (MoonBalance.step festival s e) := by
  cases e with
  | receivedItems items =>
      obtain ⟨rs, same⟩ := given items rfl
      refine ⟨h.items, fun batch member => ?_⟩
      rcases List.mem_append.1 member with old | new
      · exact h.batches batch old
      · rw [List.mem_singleton.1 new]
        exact ⟨rs, same⟩
  | resume k => exact h.resume festival k
  | resumeReplay =>
      simp only [MoonBalance.step]
      split
      · exact (h.push festival).of_eq rfl rfl
      · exact h
      · next evt left here =>
          obtain ⟨r, frame⟩ := MoonBalance.send_frame s (.item evt)
          rw [frame]
          exact h.of_eq rfl rfl
  | paySnapshot payShineNum =>
      simp only [MoonBalance.step]
      split_ifs
      · exact h.of_eq rfl rfl
      · exact h
  | bridgeReads =>
      simp only [MoonBalance.step]
      split
      · exact h
      · next pay rest here =>
          apply FromWorld.push festival
          exact h.of_eq rfl rfl
  | switchReads => exact h.of_eq rfl rfl
  | disconnect => exact h.of_eq rfl rfl
  | restart => exact h.of_eq rfl rfl
  | hello payShineNum => exact h.of_eq rfl rfl

/-- Whether an event changes the connection. -/
def Connects : MoonBalance.Event → Prop
  | .disconnect => True
  | .restart => True
  | .hello _ => True
  | _ => False

theorem connected_step (s : MoonBalance.State) {e : MoonBalance.Event} (other : ¬ Connects e) :
    (MoonBalance.step festival s e).connected = s.connected := by
  have pushed (s : MoonBalance.State) : (MoonBalance.push festival s).connected = s.connected := by
    obtain ⟨r, frame⟩ := MoonBalance.push_frame festival s
    rw [frame]
  cases e with
  | receivedItems items => rfl
  | resume k =>
      simp only [MoonBalance.step]
      split
      · rfl
      · next item rest moonReceived here =>
          obtain ⟨r, frame⟩ := MoonBalance.receive_frame s item
          rw [frame]
      · next moonReceived here =>
          split_ifs
          · exact pushed s
          · rfl
  | resumeReplay =>
      simp only [MoonBalance.step]
      split
      · exact pushed s
      · rfl
      · next evt left here =>
          obtain ⟨r, frame⟩ := MoonBalance.send_frame s (.item evt)
          rw [frame]
  | paySnapshot payShineNum =>
      simp only [MoonBalance.step]
      split_ifs <;> rfl
  | bridgeReads =>
      simp only [MoonBalance.step]
      split
      · rfl
      · exact pushed _
  | switchReads => rfl
  | disconnect => exact absurd trivial other
  | restart => exact absurd trivial other
  | hello payShineNum => exact absurd trivial other

variable (wp) in
structure Kept (s : State) : Prop where
  synced : MoonBalance.Synced festival s.balance
  fromWorld : FromWorld wp s.balance
  /-- Before the slot data nothing was sent. -/
  unset : s.configured = false → s.gates = { state := resetKingdomGates }
  /-- Unless they are still to be sent, the Switch will hold the rolled gates. -/
  gates : s.configured = true → s.balance.connected = true → s.gatesDue = false →
    s.gates.view applyGates = applyGates resetKingdomGates (rolled.getD .empty).entries

variable {festival rolled}

theorem Kept.stepBalance {s : State} (h : Kept wp festival rolled s) (e : Event) :
    MoonBalance.Synced festival (stepBalance wp festival s e).balance ∧
      FromWorld wp (stepBalance wp festival s e).balance := by
  unfold Detour.stepBalance
  cases here : e.toBalance wp s.payShineNum with
  | none => exact ⟨h.synced, h.fromWorld⟩
  | some inner =>
      refine ⟨MoonBalance.step_synced festival s.balance inner h.synced, h.fromWorld.step festival ?_⟩
      rintro items rfl
      cases e with
      | receivedItems rs =>
          cases here
          exact ⟨rs, rfl⟩
      | _ => cases here

/-- A push sends the table to a Switch that is connected. -/
theorem pushGates_kept {s : State} (synced : MoonBalance.Synced festival s.balance)
    (fromWorld : FromWorld wp s.balance) (configured : s.configured = true) :
    Kept wp festival rolled (pushGates rolled s) := by
  unfold pushGates
  split_ifs with sends
  · refine ⟨synced, fromWorld, fun unset => ?_, fun _ _ _ => ?_⟩
    · exact absurd (configured.symm.trans unset) (by decide)
    · exact Receiver.view_send applyGates s.gates _
  · refine ⟨synced, fromWorld, fun unset => ?_, fun _ connected _ => ?_⟩
    · exact absurd (configured.symm.trans unset) (by decide)
    · exact absurd ⟨configured, connected⟩ sends

/-- An event that leaves the gates and the connection alone. -/
theorem Kept.of_same {s t : State} (h : Kept wp festival rolled s)
    (synced : MoonBalance.Synced festival t.balance) (fromWorld : FromWorld wp t.balance)
    (connected : t.balance.connected = s.balance.connected) (configured : t.configured = s.configured)
    (due : t.gatesDue = s.gatesDue) (gates : t.gates = s.gates) : Kept wp festival rolled t := by
  refine ⟨synced, fromWorld, fun unset => ?_, fun set up sent => ?_⟩
  · rw [gates]
    exact h.unset (configured ▸ unset)
  · rw [gates]
    exact h.gates (configured ▸ set) (connected ▸ up) (due ▸ sent)

theorem step_kept (s : State) (e : Event) (h : Kept wp festival rolled s) :
    Kept wp festival rolled (step wp festival rolled s e) := by
  obtain ⟨synced, fromWorld⟩ := h.stepBalance e
  cases e with
  | receivedItems items => exact h.of_same synced fromWorld rfl rfl rfl rfl
  | resume k =>
      have same := connected_step festival s.balance (e := .resume k) id
      exact h.of_same synced fromWorld same rfl rfl rfl
  | resumeReplay =>
      have same := connected_step festival s.balance (e := .resumeReplay) id
      exact h.of_same synced fromWorld same rfl rfl rfl
  | paySnapshot =>
      have same := connected_step festival s.balance (e := .paySnapshot s.payShineNum) id
      exact h.of_same synced fromWorld same rfl rfl rfl
  | bridgeReads =>
      have same := connected_step festival s.balance (e := .bridgeReads) id
      exact h.of_same synced fromWorld same rfl rfl rfl
  | switchReads => exact h.of_same synced fromWorld rfl rfl rfl rfl
  | deposit bit moons => exact h.of_same synced fromWorld rfl rfl rfl rfl
  | reload payShineNum => exact h.of_same synced fromWorld rfl rfl rfl rfl
  | disconnect =>
      refine ⟨synced, fromWorld, fun unset => ?_, fun _ up => absurd up Bool.false_ne_true⟩
      exact congrArg Receiver.lose (h.unset unset)
  | restart => exact ⟨synced, fromWorld, fun _ => rfl, fun _ up => absurd up Bool.false_ne_true⟩
  | hello built =>
      refine ⟨synced, fromWorld, fun unset => ?_, fun _ _ sent => absurd sent.symm Bool.false_ne_true⟩
      exact congrArg Receiver.lose (h.unset unset)
  | slotData => exact pushGates_kept synced fromWorld rfl
  | replayGates =>
      change Kept wp festival rolled
        (if s.gatesDue then { pushGates rolled s with gatesDue := false } else s)
      split_ifs with due
      · cases configured : s.configured with
        | true =>
            have pushed : Kept wp festival rolled (pushGates rolled { s with gatesDue := false }) :=
              pushGates_kept h.synced h.fromWorld configured
            have same : pushGates rolled { s with gatesDue := false } =
                { pushGates rolled s with gatesDue := false } := by
              unfold pushGates
              split_ifs <;> rfl
            exact same ▸ pushed
        | false =>
            have quiet : pushGates rolled s = s := if_neg fun sends =>
              Bool.false_ne_true (configured.symm.trans sends.1)
            rw [quiet]
            exact ⟨h.synced, h.fromWorld, h.unset, fun set =>
              absurd (configured.symm.trans set) Bool.false_ne_true⟩
      · exact h
  | switchReadsGates =>
      refine ⟨synced, fromWorld, fun unset => ?_, fun set up sent => ?_⟩
      · exact congrArg (Receiver.process applyGates) (h.unset unset)
      · exact (Receiver.view_process applyGates s.gates).trans (h.gates set up sent)

theorem run_kept (events : List Event) :
    Kept wp festival rolled (run (step wp festival rolled) {} events) := by
  apply invariant_run step_kept
  refine ⟨MoonBalance.synced_start festival, ⟨⟨[], rfl⟩, ?_⟩, fun _ => rfl, ?_⟩
  · intro batch member
    cases member
  · intro set
    exact absurd set Bool.false_ne_true

/-! ## Agreement -/

variable (rolled) in
/-- `KingdomMoons` on the moons received so far. -/
def State.rule (env : Setup) (s : State) (k : KingdomName) (n : ℤ) : Option Bool :=
  (withKingdomMoons rolled env).checkRequireString s.held ((kingdomFormula k n).text Atom.text)

section Agreement

variable {env : Setup} (pool : ∀ e ∈ moonItems, env.itemsCounts e.1 ≤ e.2)

include pool in
theorem pool_small {bit : Fin 17} (sibling : bit ∈ siblings) :
    3 * env.itemsCounts (multiMoon (apKingdom bit)) + env.itemsCounts (powerMoon (apKingdom bit)) <
      2 ^ 31 := by
  have few : ∀ e ∈ moonItems, e.2 ≤ 87 := by decide
  have bounded {name : String} (listed : name ∈ moonNames) : env.itemsCounts name ≤ 87 := by
    obtain ⟨e, member, rfl⟩ := List.mem_map.1 listed
    exact (pool e member).trans (few e member)
  have multi := bounded (siblings_listed bit sibling).1
  have power := bounded (siblings_listed bit sibling).2
  omega

variable {s : State} (kept : Kept wp festival rolled s) (settled : Settled s)
  {bit : Fin 17} (sibling : bit ∈ siblings)

include kept sibling in
theorem lifetime_eq :
    MoonBalance.lifetimeReceived s.balance bit =
      3 * s.held (multiMoon (apKingdom bit)) + s.held (powerMoon (apKingdom bit)) := by
  obtain ⟨rs, items⟩ := kept.fromWorld.items
  unfold MoonBalance.lifetimeReceived State.held BridgeState.receivedItemCount
  rw [items]
  exact sum_moonCredit wp sibling rs

include kept settled in
/-- What is outstanding and what was paid are together what was received. -/
theorem collected_eq (small : MoonBalance.lifetimeReceived s.balance bit < 2 ^ 31)
    (paid : s.payShineNum bit ≤ MoonBalance.lifetimeReceived s.balance bit)
    (unzeroed : ¬ (festival = true ∧ apKingdom bit ∈ festivalZeroedKingdoms)) :
    s.gateState.collectedEffectiveMoons bit = MoonBalance.lifetimeReceived s.balance bit := by
  have past : s.balance.replay ≠ .outstanding := by
    rw [settled.balance.replay]
    exact fun same => MoonBalance.Replay.noConfusion same
  have shown := kept.synced.shown settled.balance.connected past
    (fun batch member => (settled.balance.batches batch member).2) _ settled.reading bit
  have reading : (MoonBalance.buildPaySnapshot s.payShineNum).get bit = (s.payShineNum bit).toNat :=
    Vector.getElem_ofFn bit.isLt
  have fits : MoonBalance.lifetimeReceived s.balance bit - (s.payShineNum bit).toNat < 2 ^ 31 :=
    lt_of_le_of_lt (Nat.sub_le _ _) small
  rw [Receiver.view_of_arrived _ settled.balance.inFlight, MoonBalance.balance, if_neg unzeroed,
    reading, wireCount_of_lt fits] at shown
  have deposited : s.gateState.depositedEffectiveMoons bit = (s.payShineNum bit).toNat := by
    change (if s.payShineNum bit < 0 then 0 else s.payShineNum bit) = _
    split_ifs <;> omega
  calc s.gateState.collectedEffectiveMoons bit
      = s.balance.switch.state bit + s.gateState.depositedEffectiveMoons bit := rfl
    _ = ((MoonBalance.lifetimeReceived s.balance bit - (s.payShineNum bit).toNat : ℕ) : ℤ) +
        (s.payShineNum bit).toNat := by rw [shown, deposited]
    _ = MoonBalance.lifetimeReceived s.balance bit := by omega

include pool kept settled sibling in
/-- A gate is reached where the rule holds. -/
theorem reached_iff (isRolled : ∀ g ∈ rolled, RolledGates g)
    (within : ∀ name ∈ moonNames, s.held name ≤ env.itemsCounts name)
    (paid : s.payShineNum bit ≤ MoonBalance.lifetimeReceived s.balance bit)
    (unzeroed : ¬ (festival = true ∧ apKingdom bit ∈ festivalZeroedKingdoms))
    {k : KingdomName} (named : k.name = apKingdom bit) (vanilla : ℤ) :
    s.gateState.Reached bit vanilla ↔ s.rule rolled env k vanilla = some true := by
  obtain ⟨multi_listed, power_listed⟩ := siblings_listed bit sibling
  have multi := within _ multi_listed
  have power := within _ power_listed
  have lifetime := lifetime_eq kept sibling
  have small : MoonBalance.lifetimeReceived s.balance bit < 2 ^ 31 := by
    have top := pool_small pool sibling
    omega
  have gates : s.gates.state = applyGates resetKingdomGates (rolled.getD .empty).entries := by
    rw [← Receiver.view_of_arrived applyGates settled.inFlight]
    exact kept.gates settled.configured settled.balance.connected settled.gatesDue
  have rule : s.rule rolled env k vanilla =
      some ((kingdomReturn env.itemsCounts k (threshold rolled k.name vanilla)).meaning s.held) :=
    checkRequireString_kingdom rolled env s.held k vanilla
  have exact_rule := (kingdomReturn_threshold env.itemsCounts s.held k
    (threshold rolled k.name vanilla)).2
  rw [named] at exact_rule rule
  have threshold_eq := leaveThreshold_rolled isRolled (s := s.gateState) gates bit vanilla
  rw [rule, Option.some.injEq, exact_rule multi power, GateState.Reached, threshold_eq,
    collected_eq kept settled small paid unzeroed, lifetime]
  push_cast
  rfl

end Agreement

/-- An event before the bridge's answer: the Switch reads nothing, and the save and the process
stay. -/
def Event.Unanswered : Event → Prop
  | .switchReads => False
  | .switchReadsGates => False
  | .reload _ => False
  | .restart => False
  | _ => True

variable (wp festival rolled)

theorem state_send (s : MoonBalance.State) (msg : MoonBalance.Msg) :
    (MoonBalance.send s msg).switch.state = s.switch.state := by
  unfold MoonBalance.send
  split_ifs <;> rfl

theorem state_push (s : MoonBalance.State) :
    (MoonBalance.push festival s).switch.state = s.switch.state := by
  unfold MoonBalance.push
  split
  · rfl
  · exact state_send s _

/-- The balances of the Switch change where it reads and where it starts afresh. -/
theorem state_step (s : MoonBalance.State) {e : MoonBalance.Event} (quiet : e ≠ .switchReads)
    (lasts : e ≠ .restart) : (MoonBalance.step festival s e).switch.state = s.switch.state := by
  cases e with
  | receivedItems items => rfl
  | resume k =>
      simp only [MoonBalance.step]
      split
      · rfl
      · next item rest moonReceived here =>
          unfold MoonBalance.receive
          split_ifs
          · rfl
          · exact state_send _ _
      · next moonReceived here =>
          split_ifs
          · exact state_push festival s
          · rfl
  | resumeReplay =>
      simp only [MoonBalance.step]
      split
      · exact state_push festival s
      · rfl
      · exact state_send s _
  | paySnapshot payShineNum =>
      simp only [MoonBalance.step]
      split_ifs <;> rfl
  | bridgeReads =>
      simp only [MoonBalance.step]
      split
      · rfl
      · exact state_push festival _
  | switchReads => exact absurd rfl quiet
  | disconnect => rfl
  | restart => exact absurd rfl lasts
  | hello payShineNum => rfl

/-- Until the answer arrives the balances and the gates stay, and payments only grow. -/
theorem step_unanswered (s : State) {e : Event} (unanswered : e.Unanswered) :
    (step wp festival rolled s e).gateState.apMoonsKingdom = s.gateState.apMoonsKingdom ∧
      (step wp festival rolled s e).gateState.kingdomGate = s.gateState.kingdomGate ∧
      ∀ bit, s.payShineNum bit ≤ (step wp festival rolled s e).payShineNum bit := by
  have pushed (s : State) : (pushGates rolled s).balance = s.balance ∧
      (pushGates rolled s).gates.state = s.gates.state ∧
      (pushGates rolled s).payShineNum = s.payShineNum := by
    unfold pushGates
    split_ifs <;> exact ⟨rfl, rfl, rfl⟩
  cases e with
  | receivedItems items => exact ⟨rfl, rfl, fun _ => le_rfl⟩
  | resume k =>
      have state := state_step festival s.balance (e := .resume k) (by simp) (by simp)
      exact ⟨state, rfl, fun _ => le_rfl⟩
  | resumeReplay =>
      have state := state_step festival s.balance (e := .resumeReplay) (by simp) (by simp)
      exact ⟨state, rfl, fun _ => le_rfl⟩
  | paySnapshot =>
      have state := state_step festival s.balance (e := .paySnapshot s.payShineNum)
        (by simp) (by simp)
      exact ⟨state, rfl, fun _ => le_rfl⟩
  | bridgeReads =>
      have state := state_step festival s.balance (e := .bridgeReads) (by simp) (by simp)
      exact ⟨state, rfl, fun _ => le_rfl⟩
  | switchReads => exact unanswered.elim
  | disconnect => exact ⟨rfl, rfl, fun _ => le_rfl⟩
  | restart => exact unanswered.elim
  | hello built => exact ⟨rfl, rfl, fun _ => le_rfl⟩
  | deposit bit moons =>
      refine ⟨rfl, rfl, fun other => ?_⟩
      change s.payShineNum other ≤
        Function.update s.payShineNum bit (s.payShineNum bit + moons) other
      by_cases same : other = bit
      · rw [same, Function.update_self]
        omega
      · rw [Function.update_of_ne same]
  | reload payShineNum => exact unanswered.elim
  | slotData =>
      obtain ⟨balance, state, pay⟩ := pushed { s with configured := true }
      exact ⟨congrArg (·.switch.state) balance, state, fun bit => (congrFun pay bit).ge⟩
  | replayGates =>
      change (if s.gatesDue then { pushGates rolled s with gatesDue := false } else s).gateState.apMoonsKingdom =
          _ ∧ (if s.gatesDue then { pushGates rolled s with gatesDue := false } else s).gateState.kingdomGate =
          _ ∧ ∀ bit, _ ≤ (if s.gatesDue then { pushGates rolled s with gatesDue := false } else s).payShineNum bit
      obtain ⟨balance, state, pay⟩ := pushed s
      split_ifs
      · exact ⟨congrArg (·.switch.state) balance, state, fun bit => (congrFun pay bit).ge⟩
      · exact ⟨rfl, rfl, fun _ => le_rfl⟩
  | switchReadsGates => exact unanswered.elim

/-- A gate that is open stays open until the answer has arrived. -/
theorem run_unanswered (s : State) {later : List Event} (unanswered : ∀ e ∈ later, e.Unanswered)
    (exitKingdom : String)
    (opened : (evaluateDetourExitGate s.gateState exitKingdom).blocked = false) :
    (evaluateDetourExitGate (run (step wp festival rolled) s later).gateState exitKingdom).blocked =
      false := by
  induction later generalizing s with
  | nil => exact opened
  | cons e later ih =>
      obtain ⟨balances, gates, paid⟩ := step_unanswered wp festival rolled s
        (unanswered e List.mem_cons_self)
      apply ih _ fun e member => unanswered e (List.mem_cons_of_mem _ member)
      exact evaluate_mono exitKingdom balances gates paid opened

/-- Once the answer to the last reading has arrived, a detour's gate is closed where the rule of
one of its kingdoms does not hold, and the way leads to such a kingdom; before that no payment
closes it. -/
theorem detour_gates_agree (isRolled : ∀ g ∈ rolled, RolledGates g) (env : Setup)
    (pool : ∀ e ∈ moonItems, env.itemsCounts e.1 ≤ e.2) (events : List Event) :
    (Settled (run (step wp festival rolled) {} events) →
      (∀ name ∈ moonNames,
        (run (step wp festival rolled) {} events).held name ≤ env.itemsCounts name) →
      ∀ pair ∈ kDetourPairs,
        (∀ bit, kingdomForBit bit = pair.aShort ∨ kingdomForBit bit = pair.bShort →
          (run (step wp festival rolled) {} events).payShineNum bit ≤
              MoonBalance.lifetimeReceived (run (step wp festival rolled) {} events).balance bit ∧
            ¬ (festival = true ∧ apKingdom bit ∈ festivalZeroedKingdoms)) →
        ∀ ka kb : KingdomName, ka.name = pair.aShort → kb.name = pair.bShort →
          ((evaluateDetourExitGate (run (step wp festival rolled) {} events).gateState
              pair.exitShort).blocked = true ↔
            ¬ ((run (step wp festival rolled) {} events).rule rolled env ka pair.aVanilla = some true ∧
              (run (step wp festival rolled) {} events).rule rolled env kb pair.bVanilla = some true)) ∧
          ((evaluateDetourExitGate (run (step wp festival rolled) {} events).gateState
              pair.exitShort).blocked = true →
            (evaluateDetourExitGate (run (step wp festival rolled) {} events).gateState
                pair.exitShort).redirectStage = some pair.aStage ∧
              (run (step wp festival rolled) {} events).rule rolled env ka pair.aVanilla ≠ some true ∨
            (evaluateDetourExitGate (run (step wp festival rolled) {} events).gateState
                pair.exitShort).redirectStage = some pair.bStage ∧
              (run (step wp festival rolled) {} events).rule rolled env kb pair.bVanilla ≠ some true)) ∧
    ∀ later : List Event, (∀ e ∈ later, e.Unanswered) → ∀ exitKingdom,
      (evaluateDetourExitGate (run (step wp festival rolled) {} events).gateState
        exitKingdom).blocked = false →
      (evaluateDetourExitGate (run (step wp festival rolled) {} (events ++ later)).gateState
        exitKingdom).blocked = false := by
  have kept : Kept wp festival rolled (run (step wp festival rolled) {} events) := run_kept events
  generalize reached : run (step wp festival rolled) {} events = s at kept ⊢
  constructor
  · intro settled within pair member paid ka kb nameA nameB
    obtain ⟨a, b, atA, atB, decided⟩ := evaluate_pair s.gateState member
    obtain ⟨sibling_a, name_a⟩ := sibling_of_bit member (.inl rfl) atA
    obtain ⟨sibling_b, name_b⟩ := sibling_of_bit member (.inr rfl) atB
    have reach (bit : Fin 17) (sibling : bit ∈ siblings) (k : KingdomName)
        (named : k.name = kingdomForBit bit)
        (here : kingdomForBit bit = pair.aShort ∨ kingdomForBit bit = pair.bShort) (vanilla : ℤ) :=
      reached_iff pool kept settled sibling isRolled within (paid bit here).1 (paid bit here).2
        (named.trans (apKingdom_sibling bit sibling).symm) vanilla
    have reach_a := reach a sibling_a ka (nameA.trans name_a.symm) (.inl name_a) pair.aVanilla
    have reach_b := reach b sibling_b kb (nameB.trans name_b.symm) (.inr name_b) pair.bVanilla
    rw [decided, ← reach_a, ← reach_b]
    constructor
    · exact decide_blocked_iff s.gateState pair a b
    · intro blocked
      have lacking := (decide_blocked_iff s.gateState pair a b).1 blocked
      rw [Ne, Ne, ← reach_a, ← reach_b]
      exact (decide_blocks s.gateState pair a b lacking).2
  · intro later unanswered exitKingdom opened
    rw [run_append, reached]
    exact run_unanswered wp festival rolled s unanswered exitKingdom opened

/-! A run to a gate -/

def lake : KingdomName where
  chars := "Lake".toList
  named := by decide
  ordinary := List.forall_iff_forall_mem.1 (by decide)
  stripped := by decide

def wooded : KingdomName where
  chars := "Wooded".toList
  named := by decide
  ordinary := List.forall_iff_forall_mem.1 (by decide)
  stripped := by decide

/-- The item table without the items that are no moons. -/
def moonPackage : WorldPackage where
  itemIdToName _ := none
  locationNameToId _ := none
  itemCategories name := if name ∈ moonNames then ["Moon"] else []
  unnamed := by decide
  multiMoons := by decide
  moons name := by
    by_cases listed : name ∈ moonNames
    · exact iff_of_true (by rw [if_pos listed]; decide) listed
    · exact iff_of_false (by rw [if_neg listed]; decide) listed
  plain name listed := by
    rw [if_pos listed]
    decide

def fullPool : Setup where
  itemsCounts name := (moonItems.find? fun e => e.1 = name).elim 0 Prod.snd
  categoryItems _ := []
  percentOf _ _ := none
  hooks _ _ := none

/-- Six Lake moons with a Multi-Moon, three of them paid. -/
def lakeDone : List Event :=
  [Event.hello true, .resumeReplay, .bridgeReads, .slotData, .replayGates,
    .receivedItems (⟨"Lake Kingdom Multi-Moon", "self", ""⟩ ::
      List.replicate 5 ⟨"Lake Kingdom Power Moon", "self", ""⟩)] ++
  List.replicate 7 (.resume 0) ++
  ((bitOfShort "Lake").elim [] fun bit => [.deposit bit 3]) ++
  [.paySnapshot, .bridgeReads] ++ List.replicate 9 .switchReads ++
  List.replicate 2 .switchReadsGates

theorem detour_gates_agree_lakeDone :
    (evaluateDetourExitGate (run (step moonPackage false none) {} lakeDone).gateState
        "Cloud").blocked = true ↔
      ¬ ((run (step moonPackage false none) {} lakeDone).rule none fullPool lake 8 = some true ∧
        (run (step moonPackage false none) {} lakeDone).rule none fullPool wooded 16 = some true) := by
  have settled : Settled (run (step moonPackage false none) {} lakeDone) :=
    ⟨⟨by decide +kernel, by decide +kernel, rfl, by decide +kernel, rfl⟩,
      by decide +kernel, by decide +kernel, by decide +kernel, by decide +kernel⟩
  have unrolled : ∀ g ∈ (none : Option (Dict String ℕ)), RolledGates g := by
    intro g member
    cases member
  have agreed := (detour_gates_agree moonPackage false none unrolled fullPool (by decide +kernel)
    lakeDone).1 settled (by decide +kernel) _ List.mem_cons_self (by decide +kernel) lake wooded
    (by decide) (by decide)
  exact agreed.1

end SmoArchipelago.World.Detour
