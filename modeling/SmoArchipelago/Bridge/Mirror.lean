import SmoArchipelago.Bridge.Context

/-! # The mirror and its calls

The bridge state together with the calls that built it since it was last cleared. The
calls say which positions of the history were mirrored and which bonuses granted;
the state does not remember either.

## Implementation notes

`Unlocked` and `Counted` are kept by every call, so a handler that reaches the state
through the calls alone keeps them whatever its schedule. -/

namespace SmoArchipelago.Bridge

open BridgeState

inductive Call where
  | receivedItem (pos : ℕ)
  | bonusCapture (cap : String)
  | bonusAbility (name : String)
  deriving DecidableEq

structure Mirror where
  state : BridgeState := {}
  calls : List Call := []

namespace Mirror

def addReceivedItem (m : Mirror) (pos : ℕ) (evt : ItemEvent) : Mirror :=
  ⟨m.state.addReceivedItem evt, m.calls ++ [.receivedItem pos]⟩

def grantBonusCapture (m : Mirror) (cap : String) : Mirror :=
  ⟨m.state.grantBonusCapture cap, m.calls ++ [.bonusCapture cap]⟩

def grantBonusAbility (m : Mirror) (name : String) : Mirror :=
  ⟨m.state.grantBonusAbility name, m.calls ++ [.bonusAbility name]⟩

def clearReceived (m : Mirror) : Mirror := ⟨m.state.clearReceived, []⟩

/-- The history positions that were mirrored, in order. -/
def positions (m : Mirror) : List ℕ :=
  m.calls.filterMap fun | .receivedItem pos => some pos | _ => none

def bonusCaptures (m : Mirror) : List String :=
  m.calls.filterMap fun | .bonusCapture cap => some cap | _ => none

def bonusAbilities (m : Mirror) : List String :=
  m.calls.filterMap fun | .bonusAbility name => some name | _ => none

section Calls

variable (m : Mirror) (pos : ℕ) (evt : ItemEvent) (s : String)

@[simp] theorem addReceivedItem_items :
    (m.addReceivedItem pos evt).state.receivedItems = m.state.receivedItems ++ [evt] := by
  simp [addReceivedItem]

@[simp] theorem grantBonusCapture_items :
    (m.grantBonusCapture s).state.receivedItems = m.state.receivedItems := rfl

@[simp] theorem grantBonusAbility_items :
    (m.grantBonusAbility s).state.receivedItems = m.state.receivedItems := rfl

@[simp] theorem addReceivedItem_positions :
    (m.addReceivedItem pos evt).positions = m.positions ++ [pos] := by
  simp [addReceivedItem, positions]

@[simp] theorem grantBonusCapture_positions : (m.grantBonusCapture s).positions = m.positions := by
  simp [grantBonusCapture, positions]

@[simp] theorem grantBonusAbility_positions : (m.grantBonusAbility s).positions = m.positions := by
  simp [grantBonusAbility, positions]

@[simp] theorem addReceivedItem_bonusCaptures :
    (m.addReceivedItem pos evt).bonusCaptures = m.bonusCaptures := by
  simp [addReceivedItem, bonusCaptures]

@[simp] theorem grantBonusCapture_bonusCaptures :
    (m.grantBonusCapture s).bonusCaptures = m.bonusCaptures ++ [s] := by
  simp [grantBonusCapture, bonusCaptures]

@[simp] theorem grantBonusAbility_bonusCaptures :
    (m.grantBonusAbility s).bonusCaptures = m.bonusCaptures := by
  simp [grantBonusAbility, bonusCaptures]

@[simp] theorem addReceivedItem_bonusAbilities :
    (m.addReceivedItem pos evt).bonusAbilities = m.bonusAbilities := by
  simp [addReceivedItem, bonusAbilities]

@[simp] theorem grantBonusCapture_bonusAbilities :
    (m.grantBonusCapture s).bonusAbilities = m.bonusAbilities := by
  simp [grantBonusCapture, bonusAbilities]

@[simp] theorem grantBonusAbility_bonusAbilities :
    (m.grantBonusAbility s).bonusAbilities = m.bonusAbilities ++ [s] := by
  simp [grantBonusAbility, bonusAbilities]

end Calls

/-- An item event that some context reads off an entry of the history. -/
def Parsed (evt : ItemEvent) : Prop := ∃ ctx ni, Context.parseReceivedItem ctx ni = some evt

/-- A predicate that every call keeps. -/
structure KeptByCalls (P : Mirror → Prop) : Prop where
  received : ∀ m pos evt, Parsed evt → P m → P (m.addReceivedItem pos evt)
  capture : ∀ m cap, P m → P (m.grantBonusCapture cap)
  ability : ∀ m name, P m → P (m.grantBonusAbility name)

/-- The unlocked captures are those received as items and those granted as bonuses. -/
structure Unlocked (m : Mirror) : Prop where
  present : ∀ evt ∈ m.state.receivedItems,
    evt.item.kind = ItemKind.capture.value → Present evt.item.cap
  sources : ∀ cap, cap ∈ m.state.capturesUnlocked ↔
    (∃ evt ∈ m.state.receivedItems,
      evt.item.kind = ItemKind.capture.value ∧ evt.item.cap = some cap) ∨
    cap ∈ m.bonusCaptures

theorem unlocked_clearReceived (m : Mirror) : Unlocked m.clearReceived :=
  ⟨fun _ h => absurd h List.not_mem_nil, fun cap => by
    simp [clearReceived, BridgeState.clearReceived, bonusCaptures]⟩

theorem capturesUnlocked_addReceivedItem (s : BridgeState) (evt : ItemEvent) (cap : String) :
    cap ∈ (s.addReceivedItem evt).capturesUnlocked ↔
      cap ∈ s.capturesUnlocked ∨
        (evt.item.kind = ItemKind.capture.value ∧ Present evt.item.cap ∧ evt.item.cap = some cap) := by
  unfold BridgeState.addReceivedItem
  dsimp only
  split_ifs with capture ability moon
  · obtain ⟨kind, present⟩ := capture
    obtain ⟨t, ht, nonempty⟩ := present
    simp only [Finset.mem_insert, ht, Option.getD_some, Option.some.injEq, kind, true_and,
      present_some]
    constructor
    · rintro (rfl | old)
      · exact .inr ⟨nonempty, rfl⟩
      · exact .inl old
    · rintro (old | ⟨-, rfl⟩)
      · exact .inr old
      · exact .inl rfl
  all_goals
    constructor
    · exact .inl
    · rintro (old | ⟨kind, present, -⟩)
      · exact old
      · exact absurd ⟨kind, present⟩ capture

theorem unlocked_kept : KeptByCalls Unlocked where
  received m pos evt := by
    rintro ⟨ctx, ni, parsed⟩ ⟨present, sources⟩
    have here (kind : evt.item.kind = ItemKind.capture.value) : Present evt.item.cap :=
      Context.parse_capture_present parsed kind
    constructor
    · intro e member
      simp only [addReceivedItem_items, List.mem_append, List.mem_singleton] at member
      rcases member with old | rfl
      · exact present e old
      · exact here
    · intro cap
      rw [addReceivedItem_bonusCaptures, addReceivedItem_items]
      simp only [Mirror.addReceivedItem, capturesUnlocked_addReceivedItem, sources, List.mem_append,
        List.mem_singleton]
      constructor
      · rintro ((⟨e, old, kind, same⟩ | bonus) | ⟨kind, -, same⟩)
        · exact .inl ⟨e, .inl old, kind, same⟩
        · exact .inr bonus
        · exact .inl ⟨evt, .inr rfl, kind, same⟩
      · rintro (⟨e, old | rfl, kind, same⟩ | bonus)
        · exact .inl (.inl ⟨e, old, kind, same⟩)
        · exact .inr ⟨kind, here kind, same⟩
        · exact .inl (.inr bonus)
  capture m cap := by
    rintro ⟨present, sources⟩
    refine ⟨present, fun c => ?_⟩
    rw [grantBonusCapture_bonusCaptures, grantBonusCapture_items]
    simp only [Mirror.grantBonusCapture, BridgeState.grantBonusCapture, Finset.mem_insert, sources,
      List.mem_append, List.mem_singleton]
    constructor
    · rintro (new | old | bonus)
      · exact .inr (.inr new)
      · exact .inl old
      · exact .inr (.inl bonus)
    · rintro (old | bonus | new)
      · exact .inr (.inl old)
      · exact .inr (.inr bonus)
      · exact .inl new
  ability m name := by
    rintro ⟨present, sources⟩
    refine ⟨present, fun c => ?_⟩
    rw [grantBonusAbility_bonusCaptures]
    exact sources c

/-- The counters of a mirror that was never cleared: what the mirrored items are worth,
and the bonuses. -/
structure Counted (m : Mirror) : Prop where
  moons : ∀ k, m.state.moonsReceivedByKingdom.getD k 0 =
    (m.state.receivedItems.map (moonCredit k)).sum
  captures : ∀ k, m.state.capturesReceivedCount.getD k 0 =
    (m.state.receivedItems.map (captureCredit k)).sum + m.bonusCaptures.count k
  abilities : ∀ k, m.state.abilitiesReceived.getD k 0 =
    (m.state.receivedItems.map (abilityCredit k)).sum + m.bonusAbilities.count k

theorem counted_start : Counted {} := ⟨fun _ => rfl, fun _ => rfl, fun _ => rfl⟩

/-- What one received item adds to each counter. -/
theorem counters_addReceivedItem (s : BridgeState) (evt : ItemEvent) (k : String) :
    (s.addReceivedItem evt).moonsReceivedByKingdom.getD k 0 =
        s.moonsReceivedByKingdom.getD k 0 + moonCredit k evt ∧
      (s.addReceivedItem evt).capturesReceivedCount.getD k 0 =
        s.capturesReceivedCount.getD k 0 + captureCredit k evt ∧
      (s.addReceivedItem evt).abilitiesReceived.getD k 0 =
        s.abilitiesReceived.getD k 0 + abilityCredit k evt := by
  unfold BridgeState.addReceivedItem moonCredit captureCredit abilityCredit
  dsimp only
  split_ifs with capture ability moon <;>
    simp_all [Library.Dict.getD_bump, getD_eq_iff, not_credited]

theorem counted_kept : KeptByCalls Counted where
  received m pos evt _ := by
    rintro ⟨moons, captures, abilities⟩
    constructor
    · intro k
      rw [addReceivedItem_items, List.map_append, List.sum_append, ← moons k]
      simpa [Mirror.addReceivedItem] using (counters_addReceivedItem m.state evt k).1
    · intro k
      rw [addReceivedItem_items, addReceivedItem_bonusCaptures, List.map_append, List.sum_append]
      have old := captures k
      have new := (counters_addReceivedItem m.state evt k).2.1
      simp only [Mirror.addReceivedItem, List.map_cons, List.map_nil, List.sum_singleton]
      omega
    · intro k
      rw [addReceivedItem_items, addReceivedItem_bonusAbilities, List.map_append, List.sum_append]
      have old := abilities k
      have new := (counters_addReceivedItem m.state evt k).2.2
      simp only [Mirror.addReceivedItem, List.map_cons, List.map_nil, List.sum_singleton]
      omega
  capture m cap := by
    rintro ⟨moons, captures, abilities⟩
    refine ⟨moons, fun k => ?_, fun k => ?_⟩
    · rw [grantBonusCapture_bonusCaptures, List.count_append, List.count_singleton]
      have old := captures k
      have new := Library.Dict.getD_bump m.state.capturesReceivedCount cap k 1
      simp only [Mirror.grantBonusCapture, BridgeState.grantBonusCapture, beq_iff_eq,
        eq_comm (a := cap)]
      omega
    · rw [grantBonusCapture_bonusAbilities]
      exact abilities k
  ability m name := by
    rintro ⟨moons, captures, abilities⟩
    refine ⟨moons, fun k => ?_, fun k => ?_⟩
    · rw [grantBonusAbility_bonusCaptures]
      exact captures k
    · rw [grantBonusAbility_bonusAbilities, List.count_append, List.count_singleton]
      have old := abilities k
      have new := Library.Dict.getD_bump m.state.abilitiesReceived name k 1
      simp only [Mirror.grantBonusAbility, BridgeState.grantBonusAbility, beq_iff_eq,
        eq_comm (a := name)]
      omega

end Mirror

end SmoArchipelago.Bridge
