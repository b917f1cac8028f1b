import SmoArchipelago.Bridge.Replay
import SmoArchipelago.Bridge.Wire

/-! # What the server has to replay

Payloads from the slot data are stored by the server as they come and sent again after every
HELLO, each by a push of its own.

## Implementation notes

The entrance map is stored here and not in the mirror. The kingdoms shipped before are in the
order in which the set of the source happens to list them. -/

namespace SmoArchipelago.Bridge

open Library

structure TalkatooPayload where
  enabled : Bool
  kingdoms : Dict String (List String)

/-- A subarea in `entrance_stages.json`. -/
structure StageRecord where
  stage : Option String := none
  entryId : Option String := none
  exitDest : Option String := none
  exitId : Option String := none

structure ServerPayload where
  festival : Bool := false
  capturesanityEnabled : Bool := true
  captures : List (String × String) := []
  abilitysanityEnabled : Bool := true
  talkatoo : Option TalkatooPayload := none
  talkatooEverShipped : List String := []
  shopLabels : Option (List ShopLabelEntry) := none
  kingdomGates : Option (Dict String ℤ) := none
  entranceMap : Option (Dict String String) := none
  entranceStages : String → Option StageRecord := fun _ => none

def entranceMapChunk : ℕ := 48

def scoutChunkSize : ℕ := 200

/-- The slices of `n` entries. -/
def chunks {α : Type*} (n : ℕ) (xs : List α) : List (List α) :=
  (List.range ((xs.length + n - 1) / n)).map fun i => (xs.drop (i * n)).take n

theorem length_le_of_mem_chunks {α : Type*} {n : ℕ} {xs chunk : List α}
    (member : chunk ∈ chunks n xs) : chunk.length ≤ n := by
  obtain ⟨i, -, rfl⟩ := List.mem_map.1 member
  exact List.length_take_le n _

/-- The chunks together are the list. -/
theorem flatten_chunks {α : Type*} {n : ℕ} (pos : 0 < n) (xs : List α) :
    (chunks n xs).flatten = xs := by
  have prefixes (k : ℕ) :
      ((List.range k).map fun i => (xs.drop (i * n)).take n).flatten = xs.take (k * n) := by
    induction k with
    | zero => rw [Nat.zero_mul, List.take_zero, List.range_zero, List.map_nil, List.flatten_nil]
    | succ k ih =>
        rw [List.range_succ, List.map_append, List.flatten_append, ih, List.map_singleton,
          List.flatten_singleton, Nat.succ_mul, List.take_add]
  have covered : xs.length ≤ (xs.length + n - 1) / n * n := by
    have most := Nat.lt_div_mul_add (a := xs.length + n - 1) pos
    omega
  rw [chunks, prefixes, List.take_of_length_le covered]

/-! ## The pushes -/

def talkatooDisabled : WireMsg := .talkatooPool false "" []

def talkatooClear (kingdom : String) : WireMsg := .talkatooPool true (kingdomApToSwitch kingdom) []

def talkatooKingdom (e : String × List String) : WireMsg :=
  .talkatooPool true (kingdomApToSwitch e.1) e.2

/-- The kingdoms shipped before and no longer there are cleared first. -/
def talkatooStale (everShipped : List String) (kingdoms : Dict String (List String)) : List String :=
  everShipped.filter fun kingdom => kingdom ∉ kingdoms.keys

def pushTalkatooPool (payload : TalkatooPayload) (everShipped : List String) : List WireMsg :=
  if payload.enabled then
    (talkatooStale everShipped payload.kingdoms).map talkatooClear ++
      payload.kingdoms.entries.map talkatooKingdom
  else [talkatooDisabled]

/-- Both directions of a shuffled pair, as far as the table has what they need. -/
def stageRemaps (door interior : StageRecord) : List StageRemap :=
  (if Present door.stage ∧ Present interior.stage ∧ Present interior.entryId then
      [⟨"entry", door.stage.getD "", interior.stage.getD "", interior.entryId.getD ""⟩]
    else []) ++
    if Present interior.stage ∧ Present door.exitDest ∧ Present door.exitId then
      [⟨"exit", interior.stage.getD "", door.exitDest.getD "", door.exitId.getD ""⟩]
    else []

def compileStageRemaps (bijection : Dict String String) (stages : String → Option StageRecord) :
    List StageRemap :=
  bijection.entries.flatMap fun e =>
    if e.1 = e.2 then []
    else
      match stages e.1, stages e.2 with
      | some door, some interior => stageRemaps door interior
      | _, _ => []

/-- The first chunk resets the table. -/
def pushEntranceMap (rows : List StageRemap) : List WireMsg :=
  if rows = [] then [.entranceMap [] true]
  else (chunks entranceMapChunk rows).mapIdx fun i chunk => .entranceMap chunk (i = 0)

/-- A capture that is unlocked without an item. -/
def captureUnlock (c : String × String) : ItemMsg where
  kind := ItemKind.capture.value
  cap := some c.1
  hackName := some c.2
  sender := ""

/-- `_run_post_hello_replay` -/
def runPostHelloReplay (p : ServerPayload) (b : BridgeState) : List WireMsg :=
  (b.computeOutstanding.toList.map fun out => .outstanding (outstandingEntries p.festival out)) ++
    [.checkedReplay b.checkedLocations] ++
    (b.receivedItems.filter fun evt => evt.item.kind ≠ ItemKind.moon.value).map
      (fun evt => .item (itemMsg evt)) ++
    (if p.capturesanityEnabled then []
      else p.captures.map fun c => .item (captureUnlock c)) ++
    (p.talkatoo.toList.flatMap fun payload => pushTalkatooPool payload p.talkatooEverShipped) ++
    p.shopLabels.toList.map .shopLabels ++
    (p.kingdomGates.toList.map fun gates => .kingdomGates gates.entries) ++
    (p.entranceMap.toList.flatMap fun bijection =>
      pushEntranceMap (compileStageRemaps bijection p.entranceStages)) ++
    (if b.computeTotalCoinGrant = 0 then [] else [.coinGrant b.computeTotalCoinGrant]) ++
    (abilityStateMsg p.abilitysanityEnabled b).toList.map .abilityState ++
    (chunks scoutChunkSize b.shinePalette.entries).map .shineScouts ++
    [.apState b.apConn]

end SmoArchipelago.Bridge
