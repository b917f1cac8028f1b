import SmoArchipelago.Library.Dict
import SmoArchipelago.Bridge.Protocol

/-! # Bridge state

The mirror of the game's progress that the server side and the Switch side share.
Every method holds the lock for its whole body, so each is one step here.

## Implementation notes

The time stamps of the events are left out, and so are the fields that only the
tracker window reads. -/

namespace SmoArchipelago.Bridge

open Library

structure ItemEvent where
  item : ItemRef
  sender : String := "self"
  cappyFrom : String := ""
  deriving DecidableEq

structure BridgeState where
  apConn : String := "disconnected"
  seed : String := ""
  slot : String := ""
  receivedItems : List ItemEvent := []
  checkedLocations : List ItemRef := []
  capturesUnlocked : Finset String := ∅
  capturesReceivedCount : Dict String ℕ := .empty
  abilitiesReceived : Dict String ℕ := .empty
  moonsReceivedByKingdom : Dict String ℕ := .empty
  moonsCheckedByKingdom : Dict String ℕ := .empty
  reachedKingdoms : Finset String := ∅
  payShineNumByKingdom : Option (Dict String ℕ) := none
  shinePalette : Dict ℤ ℤ := .empty
  checkedKeys : Finset ItemRef := ∅

namespace BridgeState

/-- The effective worth of a moon item, as the kingdom rules weigh it. -/
def moonWeight (ref : ItemRef) : ℕ := if ref.shineId = some "Multi-Moon" then 3 else 1

def addReceivedItem (s : BridgeState) (evt : ItemEvent) : BridgeState :=
  let s := { s with receivedItems := s.receivedItems ++ [evt] }
  if evt.item.kind = ItemKind.capture.value ∧ Present evt.item.cap then
    let cap := evt.item.cap.getD ""
    { s with
      capturesUnlocked := insert cap s.capturesUnlocked
      capturesReceivedCount := s.capturesReceivedCount.bump cap 1 }
  else if evt.item.kind = ItemKind.ability.value ∧ Present evt.item.name then
    { s with abilitiesReceived := s.abilitiesReceived.bump (evt.item.name.getD "") 1 }
  else if evt.item.kind = ItemKind.moon.value ∧ Present evt.item.kingdom then
    { s with
      moonsReceivedByKingdom :=
        s.moonsReceivedByKingdom.bump (evt.item.kingdom.getD "") (moonWeight evt.item) }
  else s

/-- The identity of a check: the canonical and the raw fields. -/
def checkKey (ref : ItemRef) : ItemRef := { ref with name := none, classification := none }

/-- Append a check that is not there yet. -/
def addCheckedLocation (s : BridgeState) (ref : ItemRef) : BridgeState :=
  if checkKey ref ∈ s.checkedKeys then s
  else
    { s with
      checkedKeys := insert (checkKey ref) s.checkedKeys
      checkedLocations := s.checkedLocations ++ [ref]
      moonsCheckedByKingdom :=
        if ref.kind = ItemKind.moon.value ∧ Present ref.kingdom then
          s.moonsCheckedByKingdom.bump (ref.kingdom.getD "") 1
        else s.moonsCheckedByKingdom }

/-- The reset on a slot change. The counts of captures and abilities are not among
the fields it resets. -/
def clearReceived (s : BridgeState) : BridgeState :=
  { s with
    receivedItems := []
    capturesUnlocked := ∅
    moonsReceivedByKingdom := .empty
    moonsCheckedByKingdom := .empty
    checkedLocations := []
    checkedKeys := ∅
    reachedKingdoms := ∅
    shinePalette := .empty
    payShineNumByKingdom := none }

/-- A hundred coins for each Cap Kingdom moon and each further copy of a capture or
an ability. -/
def computeTotalCoinGrant (s : BridgeState) : ℕ :=
  s.moonsReceivedByKingdom.getD "Cap" 0 * 100 +
    (s.capturesReceivedCount.values.map fun c => (c - 1) * 100).sum +
    (s.abilitiesReceived.values.map fun c => (c - 1) * 100).sum

def getAbilityCounts (s : BridgeState) : Dict String ℕ := s.abilitiesReceived

def receivedItemCount (s : BridgeState) (name : String) : ℕ :=
  s.receivedItems.countP fun evt => evt.item.name = some name

def grantBonusCapture (s : BridgeState) (cap : String) : BridgeState :=
  { s with
    capturesUnlocked := insert cap s.capturesUnlocked
    capturesReceivedCount := s.capturesReceivedCount.bump cap 1 }

def grantBonusAbility (s : BridgeState) (name : String) : BridgeState :=
  { s with abilitiesReceived := s.abilitiesReceived.bump name 1 }

/-- How many copies of a capture an item event is worth. -/
def captureCredit (cap : String) (evt : ItemEvent) : ℕ :=
  if evt.item.kind = ItemKind.capture.value ∧ evt.item.cap = some cap ∧ cap ≠ "" then 1 else 0

def abilityCredit (name : String) (evt : ItemEvent) : ℕ :=
  if evt.item.kind = ItemKind.ability.value ∧ evt.item.name = some name ∧ name ≠ "" then 1 else 0

def moonCredit (kingdom : String) (evt : ItemEvent) : ℕ :=
  if evt.item.kind = ItemKind.moon.value ∧ evt.item.kingdom = some kingdom ∧ kingdom ≠ "" then
    moonWeight evt.item
  else 0

@[simp] theorem addReceivedItem_receivedItems (s : BridgeState) (evt : ItemEvent) :
    (s.addReceivedItem evt).receivedItems = s.receivedItems ++ [evt] := by
  unfold addReceivedItem
  dsimp only
  split_ifs <;> rfl

/-- Whether an event's optional name is the one asked for. -/
theorem getD_eq_iff {s : Option String} (present : Present s) (t : String) :
    t = s.getD "" ↔ s = some t ∧ t ≠ "" := by
  obtain ⟨u, rfl, nonempty⟩ := present
  constructor
  · rintro rfl
    exact ⟨rfl, nonempty⟩
  · rintro ⟨same, -⟩
    exact (Option.some.inj same).symm

theorem not_credited {s : Option String} (absent : ¬ Present s) (t : String) :
    ¬ (s = some t ∧ t ≠ "") :=
  fun ⟨here, nonempty⟩ => absent ⟨t, here, nonempty⟩

end BridgeState

end SmoArchipelago.Bridge
