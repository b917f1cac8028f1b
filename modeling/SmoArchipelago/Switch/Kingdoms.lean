import SmoArchipelago.Switch.ApProtocol

/-! # The kingdoms of the Switch

A kingdom has a bit, its place in the table of short names. The balances that the bridge
sends are kept by bit. -/

namespace SmoArchipelago.Switch

open ApProtocol Json

def kKingdoms : Vector String 17 :=
  #v["Cap", "Cascade", "Sand", "Wooded", "Lake", "Cloud", "Lost", "Metro", "Snow", "Seaside",
    "Luncheon", "Ruined", "Bowser", "Moon", "Mushroom", "Dark Side", "Darker Side"]

/-- The bit of a short name; `0xff` of the source is none. -/
def kingdomBitFor (kingdom : CStr kCheckFieldCap) : Option (Fin 17) :=
  (List.finRange 17).find? fun bit => kingdom.bytes = ascii (kKingdoms.get bit)

def kingdomForBit (bit : Fin 17) : String := kKingdoms.get bit

/-! ## The balances -/

/-- `ap_moons_kingdom`. -/
abbrev Balances := Fin 17 → ℤ

/-- An entry overwrites the balance of its kingdom; a kingdom of no name or of an unknown one
is skipped. -/
def applyEntry (apMoonsKingdom : Balances) (e : OutstandingEntry) : Balances :=
  if e.kingdom.isEmpty then apMoonsKingdom
  else
    match kingdomBitFor e.kingdom with
    | none => apMoonsKingdom
    | some bit => Function.update apMoonsKingdom bit (if e.count < 0 then 0 else e.count)

def applyOutstanding (apMoonsKingdom : Balances) (entries : List OutstandingEntry) : Balances :=
  entries.foldl applyEntry apMoonsKingdom

theorem applyEntry_of_bit (apMoonsKingdom : Balances) {e : OutstandingEntry} {bit : Fin 17}
    (named : e.kingdom.isEmpty = false) (known : kingdomBitFor e.kingdom = some bit) :
    applyEntry apMoonsKingdom e =
      Function.update apMoonsKingdom bit (if e.count < 0 then 0 else e.count) := by
  rw [applyEntry, named, known]
  rfl

end SmoArchipelago.Switch
