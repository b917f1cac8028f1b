import SmoArchipelago.Switch.EntranceMap
import SmoArchipelago.Switch.Kingdoms

/-! # The gates at the ends of the detours

Lake and Wooded may be visited in either order, and so may Snow and Seaside. Whoever leaves such
a pair for the kingdom behind it is to have moons of both; else he is sent to one that lacks them.

## Implementation notes

The gates ask how many moons were received, which is what is outstanding and what was paid. An
`int` of the source is an integer. -/

namespace SmoArchipelago.Switch

open ApProtocol Json

/-- The siblings of a detour with their home stages and thresholds, and the kingdom behind them. -/
structure DetourPair where
  exitShort : String
  aShort : String
  aStage : String
  aVanilla : ℤ
  bShort : String
  bStage : String
  bVanilla : ℤ

def kDetourPairs : List DetourPair :=
  [⟨"Cloud", "Lake", "LakeWorldHomeStage", 8, "Wooded", "ForestWorldHomeStage", 16⟩,
    ⟨"Luncheon", "Snow", "SnowWorldHomeStage", 10, "Seaside", "SeaWorldHomeStage", 10⟩]

/-- What the gates read. The moons paid are those of the save that is loaded. -/
structure GateState where
  apMoonsKingdom : Balances
  kingdomGate : Fin 17 → ℤ
  payShineNum : Fin 17 → ℤ

namespace GateState

variable (s : GateState)

def depositedEffectiveMoons (bit : Fin 17) : ℤ :=
  if s.payShineNum bit < 0 then 0 else s.payShineNum bit

def collectedEffectiveMoons (bit : Fin 17) : ℤ :=
  s.apMoonsKingdom bit + s.depositedEffectiveMoons bit

def leaveThreshold (bit : Fin 17) (vanilla : ℤ) : ℤ :=
  if 0 ≤ s.kingdomGate bit then s.kingdomGate bit else vanilla

/-- Enough moons of a kingdom. -/
def Reached (bit : Fin 17) (vanilla : ℤ) : Prop :=
  s.leaveThreshold bit vanilla ≤ s.collectedEffectiveMoons bit

instance decidableReached (bit : Fin 17) (vanilla : ℤ) : Decidable (s.Reached bit vanilla) :=
  Int.decLe _ _

end GateState

structure DetourExitGateDecision where
  blocked : Bool := false
  redirectStage : Option String := none
  exitKingdom : Option String := none
  aShort : String := ""
  bShort : String := ""
  aHave : ℤ := 0
  aNeed : ℤ := 0
  bHave : ℤ := 0
  bNeed : ℤ := 0

/-- `kingdomBitFor` of a short name of the source. -/
def bitOfShort (kingdom : String) : Option (Fin 17) :=
  (List.finRange 17).find? fun bit => kingdom = kingdomForBit bit

/-- The moons that a pair has and needs, by the bits of its kingdoms. -/
def DetourPair.counts (pair : DetourPair) (s : GateState) (a b : Fin 17) :
    DetourExitGateDecision where
  exitKingdom := some pair.exitShort
  aShort := pair.aShort
  bShort := pair.bShort
  aHave := s.collectedEffectiveMoons a
  aNeed := s.leaveThreshold a pair.aVanilla
  bHave := s.collectedEffectiveMoons b
  bNeed := s.leaveThreshold b pair.bVanilla

def DetourPair.decide (pair : DetourPair) (s : GateState) (a b : Fin 17) :
    DetourExitGateDecision :=
  if s.Reached a pair.aVanilla ∧ s.Reached b pair.bVanilla then pair.counts s a b
  else
    { pair.counts s a b with
      blocked := true
      redirectStage := some (if ¬ s.Reached a pair.aVanilla then pair.aStage else pair.bStage) }

def evaluateDetourExitGate (s : GateState) (exitKingdomShort : String) :
    DetourExitGateDecision :=
  match kDetourPairs.find? fun pair => exitKingdomShort = pair.exitShort with
  | none => {}
  | some pair =>
      match bitOfShort pair.aShort, bitOfShort pair.bShort with
      | some a, some b => pair.decide s a b
      | _, _ => {}

/-! ## Stage changes -/

def kHomeStageToKingdom : List (String × String) :=
  [("CapWorldHomeStage", "Cap"), ("WaterfallWorldHomeStage", "Cascade"),
    ("SandWorldHomeStage", "Sand"), ("LakeWorldHomeStage", "Lake"),
    ("ForestWorldHomeStage", "Wooded"), ("CloudWorldHomeStage", "Cloud"),
    ("ClashWorldHomeStage", "Lost"), ("CityWorldHomeStage", "Metro"),
    ("SnowWorldHomeStage", "Snow"), ("SeaWorldHomeStage", "Seaside"),
    ("LavaWorldHomeStage", "Luncheon"), ("AttackWorldHomeStage", "Ruined"),
    ("BossRaidWorldHomeStage", "Ruined"), ("SkyWorldHomeStage", "Bowser"),
    ("MoonWorldHomeStage", "Moon"), ("PeachWorldHomeStage", "Mushroom"),
    ("Special1WorldHomeStage", "Dark Side"), ("Special2WorldHomeStage", "Darker Side")]

def kingdomShortFromHomeStage (homeStage : List UInt8) : Option String :=
  (kHomeStageToKingdom.find? fun row => homeStage = ascii row.1).map Prod.snd

/-- The transition as it goes on; the gate sees to those from its own kingdoms only. -/
def processDetourExitGate (s : GateState) (cur : List UInt8) (info : ChangeStageInfo) :
    ChangeStageInfo :=
  match kingdomShortFromHomeStage (readCstrAt info.changeStageName) with
  | none => info
  | some destKingdom =>
      let cg := evaluateDetourExitGate s destKingdom
      match cg.exitKingdom, kingdomShortFromHomeStage cur with
      | some _, some curKingdom =>
          if curKingdom ≠ cg.aShort ∧ curKingdom ≠ cg.bShort then info
          else
            match cg.blocked, cg.redirectStage with
            | true, some stage =>
                if info.changeStageName = none ∨ info.changeStageId = none ∨
                    kFixedStringCap < (ascii stage).length + 1 then info
                else ⟨some (ascii stage), some []⟩
            | _, _ => info
      | _, _ => info

/-! ## Rolled gates -/

def resetKingdomGates : Fin 17 → ℤ := fun _ => -1

def applyGateEntry (kingdomGate : Fin 17 → ℤ) (e : KingdomGateEntry) : Fin 17 → ℤ :=
  if e.kingdom.isEmpty ∨ e.gate < 0 then kingdomGate
  else
    match kingdomBitFor e.kingdom with
    | none => kingdomGate
    | some bit => Function.update kingdomGate bit e.gate

/-- A message overwrites the whole table. -/
def applyKingdomGates (entries : List KingdomGateEntry) : Fin 17 → ℤ :=
  entries.foldl applyGateEntry resetKingdomGates

/-! ## What the gate decides -/

/-- A pair of the table is found by its kingdom, and its kingdoms have bits. -/
theorem evaluate_pair (s : GateState) {pair : DetourPair} (member : pair ∈ kDetourPairs) :
    ∃ a b, bitOfShort pair.aShort = some a ∧ bitOfShort pair.bShort = some b ∧
      evaluateDetourExitGate s pair.exitShort = pair.decide s a b := by
  rcases List.mem_cons.1 member with rfl | later
  · exact ⟨4, 3, by decide, by decide, rfl⟩
  · cases List.mem_singleton.1 later
    exact ⟨8, 9, by decide, by decide, rfl⟩

section Decision

variable (s : GateState) (pair : DetourPair) (a b : Fin 17)

theorem decide_passes (both : s.Reached a pair.aVanilla ∧ s.Reached b pair.bVanilla) :
    (pair.decide s a b).blocked = false := by
  unfold DetourPair.decide
  rw [if_pos both]
  rfl

/-- Without moons of both the gate is closed, and the way leads to a sibling that lacks them. -/
theorem decide_blocks (lacking : ¬ (s.Reached a pair.aVanilla ∧ s.Reached b pair.bVanilla)) :
    (pair.decide s a b).blocked = true ∧
      ((pair.decide s a b).redirectStage = some pair.aStage ∧ ¬ s.Reached a pair.aVanilla ∨
        (pair.decide s a b).redirectStage = some pair.bStage ∧ ¬ s.Reached b pair.bVanilla) := by
  unfold DetourPair.decide
  rw [if_neg lacking]
  refine ⟨rfl, ?_⟩
  by_cases first : s.Reached a pair.aVanilla
  · refine .inr ⟨?_, fun second => lacking ⟨first, second⟩⟩
    exact congrArg some (if_neg (not_not.2 first))
  · exact .inl ⟨congrArg some (if_pos first), first⟩

theorem decide_blocked_iff :
    (pair.decide s a b).blocked = true ↔
      ¬ (s.Reached a pair.aVanilla ∧ s.Reached b pair.bVanilla) := by
  constructor
  · intro blocked both
    rw [decide_passes s pair a b both] at blocked
    exact Bool.false_ne_true blocked
  · exact fun lacking => (decide_blocks s pair a b lacking).1

theorem decide_names : (pair.decide s a b).exitKingdom = some pair.exitShort ∧
    (pair.decide s a b).aShort = pair.aShort ∧ (pair.decide s a b).bShort = pair.bShort := by
  unfold DetourPair.decide
  split_ifs <;> exact ⟨rfl, rfl, rfl⟩

end Decision

/-- Who leaves a detour too early stays: his transition goes to a sibling that lacks moons. -/
theorem processDetourExitGate_holds (s : GateState) {pair : DetourPair}
    (member : pair ∈ kDetourPairs) {cur dest id : List UInt8} {curKingdom : String}
    (leaving : kingdomShortFromHomeStage cur = some curKingdom)
    (sibling : curKingdom = pair.aShort ∨ curKingdom = pair.bShort)
    (onward : kingdomShortFromHomeStage dest = some pair.exitShort) :
    ∃ a b, bitOfShort pair.aShort = some a ∧ bitOfShort pair.bShort = some b ∧
      processDetourExitGate s cur ⟨some dest, some id⟩ =
        if s.Reached a pair.aVanilla then
          if s.Reached b pair.bVanilla then ⟨some dest, some id⟩
          else ⟨some (ascii pair.bStage), some []⟩
        else ⟨some (ascii pair.aStage), some []⟩ := by
  obtain ⟨a, b, atA, atB, decided⟩ := evaluate_pair s member
  obtain ⟨exitKingdom, aShort, bShort⟩ := decide_names s pair a b
  have short : ∀ pair ∈ kDetourPairs, ¬ kFixedStringCap < (ascii pair.aStage).length + 1 ∧
      ¬ kFixedStringCap < (ascii pair.bStage).length + 1 := by decide
  have here : ¬ (curKingdom ≠ pair.aShort ∧ curKingdom ≠ pair.bShort) := by
    rintro ⟨notA, notB⟩
    exact sibling.elim notA notB
  refine ⟨a, b, atA, atB, ?_⟩
  unfold processDetourExitGate
  simp only [readCstrAt, Option.getD_some, onward, decided, exitKingdom, leaving, aShort, bShort,
    here, if_false]
  unfold DetourPair.decide
  by_cases first : s.Reached a pair.aVanilla
  · by_cases second : s.Reached b pair.bVanilla
    · simp only [first, second, and_self, if_true, DetourPair.counts]
    · simp [first, second, (short pair member).2]
  · simp [first, (short pair member).1]

/-- A gate that is open stays open while no balance, no payment and no threshold is against it. -/
theorem evaluate_mono {s s' : GateState} (exitKingdomShort : String)
    (balances : s'.apMoonsKingdom = s.apMoonsKingdom) (gates : s'.kingdomGate = s.kingdomGate)
    (paid : ∀ bit, s.payShineNum bit ≤ s'.payShineNum bit)
    (open_before : (evaluateDetourExitGate s exitKingdomShort).blocked = false) :
    (evaluateDetourExitGate s' exitKingdomShort).blocked = false := by
  have still (bit : Fin 17) (vanilla : ℤ) (reached : s.Reached bit vanilla) :
      s'.Reached bit vanilla := by
    have more : s.depositedEffectiveMoons bit ≤ s'.depositedEffectiveMoons bit := by
      have here := paid bit
      unfold GateState.depositedEffectiveMoons
      split_ifs <;> omega
    calc s'.leaveThreshold bit vanilla = s.leaveThreshold bit vanilla := by
          rw [GateState.leaveThreshold, GateState.leaveThreshold, gates]
      _ ≤ s.apMoonsKingdom bit + s.depositedEffectiveMoons bit := reached
      _ ≤ s'.apMoonsKingdom bit + s'.depositedEffectiveMoons bit := by
          rw [balances]
          exact add_le_add_right more _
  unfold evaluateDetourExitGate at open_before ⊢
  cases found : kDetourPairs.find? fun pair => exitKingdomShort = pair.exitShort with
  | none => rfl
  | some pair =>
      rw [found] at open_before
      cases bit_a : bitOfShort pair.aShort with
      | none => simp only [bit_a]
      | some a =>
          cases bit_b : bitOfShort pair.bShort with
          | none => simp only [bit_a, bit_b]
          | some b =>
              simp only [bit_a, bit_b] at open_before ⊢
              by_contra blocked
              apply (decide_blocked_iff s' pair a b).1 (Bool.not_eq_false _ ▸ blocked)
              have both : s.Reached a pair.aVanilla ∧ s.Reached b pair.bVanilla := by
                by_contra lacking
                rw [(decide_blocked_iff s pair a b).2 lacking] at open_before
                exact Bool.false_ne_true open_before.symm
              exact ⟨still a _ both.1, still b _ both.2⟩

end SmoArchipelago.Switch
