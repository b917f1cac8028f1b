import SmoArchipelago.Switch.Kingdoms

/-! # Talkatoo's pools on the Switch

The mode and, for every kingdom, the moons that Talkatoo may name. They outlive a connection
and end with the game.

## Implementation notes

The sequence numbers that guard a reader against a torn pool are left out, and so are the
moons named so far, which no message of the bridge reads back. -/

namespace SmoArchipelago.Switch

open ApProtocol

def kTalkatooMaxMoonsPerKingdom : ℕ := 96

structure TalkatooState where
  talkatooMode : Bool := false
  talkatooPools : Fin 17 → List (CStr kCheckFieldCap) := fun _ => []

/-- Any kingdom that is written turns the mode on. -/
def writeTalkatooKingdom (t : TalkatooState) (bit : Fin 17) (moons : List (CStr kCheckFieldCap)) :
    TalkatooState where
  talkatooMode := true
  talkatooPools := Function.update t.talkatooPools bit (moons.take kTalkatooMaxMoonsPerKingdom)

def clearTalkatoo (_ : TalkatooState) : TalkatooState := {}

/-- `handleLine` on a `talkatoo_pool` message. -/
def applyTalkatooPool (t : TalkatooState) (enabled : Bool) (kingdom : CStr kCheckFieldCap)
    (moons : List (CStr kCheckFieldCap)) : TalkatooState :=
  if !enabled then clearTalkatoo t
  else if kingdom.isEmpty then t
  else
    match kingdomBitFor kingdom with
    | none => t
    | some bit => writeTalkatooKingdom t bit moons

theorem kingdomBitFor_empty {kingdom : CStr kCheckFieldCap} (empty : kingdom.isEmpty = true) :
    kingdomBitFor kingdom = none := by
  have named : ∀ bit ∈ List.finRange 17, Json.ascii (kKingdoms.get bit) ≠ [] := by decide
  rw [kingdomBitFor, List.find?_eq_none]
  intro bit member same
  have no_bytes : kingdom.bytes = [] := List.isEmpty_iff.1 empty
  rw [no_bytes] at same
  exact named bit member (of_decide_eq_true same).symm

/-- An enabling message writes the kingdom that it names, if the Switch knows it. -/
theorem applyTalkatooPool_enabled (t : TalkatooState) (kingdom : CStr kCheckFieldCap)
    (moons : List (CStr kCheckFieldCap)) :
    applyTalkatooPool t true kingdom moons =
      match kingdomBitFor kingdom with
      | none => t
      | some bit => writeTalkatooKingdom t bit moons := by
  rw [applyTalkatooPool, if_neg (by decide)]
  split_ifs with empty
  · rw [kingdomBitFor_empty empty]
  · rfl

end SmoArchipelago.Switch
