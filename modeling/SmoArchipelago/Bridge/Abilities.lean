import SmoArchipelago.Bridge.State

/-! # Ability items and the moves they unlock

Some ability items arrive several times, and each copy unlocks the next move of a chain.
A copy past the end of its chain unlocks nothing and is worth coins. -/

namespace SmoArchipelago.Bridge

open Library

/-- The moves of each chain, in the order in which its copies unlock them. -/
def progressiveMoves : Dict String (List String) where
  entries :=
    [("Progressive Crouch", ["Crouch", "Roll", "Roll Boost"]),
      ("Progressive Ground Pound", ["Ground Pound", "Dive"]),
      ("Progressive Jump", ["Double Jump", "Triple Jump"]),
      ("Wall Slide", ["Wall Slide"])]
  distinct := by decide

/-- The move unlocked when an item's count rises to `newCount`. -/
def newlyUnlockedMove (itemName : String) (newCount : ℕ) : Option String :=
  if newCount = 0 ∨ itemName = "" then none
  else
    match progressiveMoves.get? itemName with
    | none => if newCount = 1 then some itemName else none
    | some chain => if newCount ≤ chain.length then chain[newCount - 1]? else none

/-- How many copies of an item unlock a move. -/
def chainLength (itemName : String) : ℕ :=
  if itemName = "" then 0 else ((progressiveMoves.get? itemName).map List.length).getD 1

theorem newlyUnlockedMove_eq_none {itemName : String} {newCount : ℕ} (pos : 0 < newCount) :
    newlyUnlockedMove itemName newCount = none ↔ chainLength itemName < newCount := by
  by_cases unnamed : itemName = ""
  · simp [newlyUnlockedMove, chainLength, unnamed, pos]
  · rw [newlyUnlockedMove, chainLength, if_neg unnamed, if_neg (by simp [unnamed, pos.ne'])]
    cases progressiveMoves.get? itemName with
    | none =>
        rw [Option.map_none, Option.getD_none]
        by_cases first : newCount = 1
        · simp [first]
        · simp only [if_neg first, true_iff]
          omega
    | some chain =>
        rw [Option.map_some, Option.getD_some]
        by_cases within : newCount ≤ chain.length
        · have unlocks : chain[newCount - 1]? ≠ none := by
            rw [ne_eq, List.getElem?_eq_none_iff]
            omega
          simp only [if_pos within, unlocks, false_iff]
          omega
        · simp only [if_neg within, true_iff]
          omega

/-- The levels up to `count` that unlock no new move. -/
def spareLevels (itemName : String) (count : ℕ) : ℕ :=
  (List.range' 1 count).countP fun n => newlyUnlockedMove itemName n = none

theorem spareLevels_eq (itemName : String) (count : ℕ) :
    spareLevels itemName count = count - chainLength itemName := by
  induction count with
  | zero => simp [spareLevels]
  | succ count ih =>
      rw [spareLevels] at ih ⊢
      have pos : 0 < 1 + count := by omega
      rw [List.range'_1_concat, List.countP_append, ih, List.countP_singleton]
      simp only [newlyUnlockedMove_eq_none pos, decide_eq_true_eq]
      split_ifs <;> omega

@[simp] theorem spareLevels_zero (itemName : String) : spareLevels itemName 0 = 0 := rfl

theorem spareLevels_mono (itemName : String) {c c' : ℕ} (le : c ≤ c') :
    spareLevels itemName c ≤ spareLevels itemName c' := by
  rw [spareLevels_eq, spareLevels_eq]
  omega

namespace BridgeState

/-- The ability part of `computeTotalCoinGrant`. -/
def abilityCoins (s : BridgeState) : ℕ :=
  (s.abilitiesReceived.values.map fun c => (c - 1) * 100).sum

/-- The received copies that unlock no new move. -/
def spareCopies (s : BridgeState) : ℕ :=
  (s.abilitiesReceived.entries.map fun e => spareLevels e.1 e.2).sum

theorem spareCopies_eq (s : BridgeState) {K : Finset String}
    (cover : ∀ k ∈ s.abilitiesReceived.keys, k ∈ K) :
    s.spareCopies = ∑ k ∈ K, spareLevels k (s.abilitiesReceived.getD k 0) :=
  Dict.sum_entries _ spareLevels_zero cover

theorem abilityCoins_eq (s : BridgeState) {K : Finset String}
    (cover : ∀ k ∈ s.abilitiesReceived.keys, k ∈ K) :
    s.abilityCoins = ∑ k ∈ K, (s.abilitiesReceived.getD k 0 - 1) * 100 := by
  rw [abilityCoins, Dict.values, List.map_map]
  exact Dict.sum_entries s.abilitiesReceived (f := fun _ c => (c - 1) * 100) (fun _ => rfl) cover

end BridgeState

theorem one_le_chainLength {itemName : String} (named : itemName ≠ "") :
    1 ≤ chainLength itemName := by
  rw [chainLength, if_neg named]
  cases found : progressiveMoves.get? itemName with
  | none => exact le_rfl
  | some chain =>
      have lengths : ∀ p ∈ progressiveMoves.entries, 1 ≤ p.2.length := by decide
      exact lengths (itemName, chain) (Dict.get?_eq_some.1 found)

/-- No chain has more than the copy that unlocks its first move. -/
def FirstMovesOnly (copies : String → ℕ) : Prop :=
  ∀ p ∈ progressiveMoves.entries, 2 ≤ p.2.length → copies p.1 ≤ 1

instance (copies : String → ℕ) : Decidable (FirstMovesOnly copies) :=
  inferInstanceAs (Decidable (∀ p ∈ progressiveMoves.entries, _))

theorem firstMovesOnly_iff (copies : String → ℕ) :
    FirstMovesOnly copies ↔ ∀ name, 2 ≤ chainLength name → copies name ≤ 1 := by
  constructor
  · intro h name long
    by_cases unnamed : name = ""
    · simp [chainLength, unnamed] at long
    · rw [chainLength, if_neg unnamed] at long
      cases found : progressiveMoves.get? name with
      | none => simp [found] at long
      | some chain =>
          rw [found, Option.map_some, Option.getD_some] at long
          exact h (name, chain) (Dict.get?_eq_some.1 found) long
  · intro h p member long
    apply h p.1
    have lengths : ∀ p ∈ progressiveMoves.entries, chainLength p.1 = p.2.length := by decide
    rw [lengths p member]
    exact long

/-- The coins count the spare copies when every chain is at its first move. -/
theorem abilityCoins_eq_iff {s : BridgeState} (named : s.abilitiesReceived.getD "" 0 = 0) :
    s.abilityCoins = 100 * s.spareCopies ↔
      FirstMovesOnly fun name => s.abilitiesReceived.getD name 0 := by
  have cover : ∀ k ∈ s.abilitiesReceived.keys, k ∈ s.abilitiesReceived.keys.toFinset :=
    fun k h => List.mem_toFinset.2 h
  have term_le : ∀ k ∈ s.abilitiesReceived.keys.toFinset,
      100 * spareLevels k (s.abilitiesReceived.getD k 0) ≤
        (s.abilitiesReceived.getD k 0 - 1) * 100 := by
    intro k _
    rw [spareLevels_eq]
    by_cases unnamed : k = ""
    · rw [unnamed, named]
      exact Nat.zero_le _
    · have long := one_le_chainLength unnamed
      omega
  rw [s.abilityCoins_eq cover, s.spareCopies_eq cover, Finset.mul_sum, eq_comm,
    Finset.sum_eq_sum_iff_of_le term_le, firstMovesOnly_iff]
  constructor
  · intro h name long
    by_cases received : name ∈ s.abilitiesReceived.keys
    · have same := h name (List.mem_toFinset.2 received)
      rw [spareLevels_eq] at same
      omega
    · rw [Dict.getD_of_not_mem received]
      exact Nat.zero_le 1
  · intro h k _
    rw [spareLevels_eq]
    by_cases unnamed : k = ""
    · rw [unnamed, named]
      rfl
    · have first := h k
      have long := one_le_chainLength unnamed
      omega

/-! ## `push_ability_state` -/

structure AbilityStateMsg where
  entries : List (String × ℕ)
  enforce : Bool

/-- The counts in the order of their names. -/
def sortedCounts (counts : Dict String ℕ) : List (String × ℕ) :=
  counts.entries.insertionSort fun a b => a.1 ≤ b.1

/-- Nothing is sent while the gate is enforced and no ability has been received. -/
def abilityStateMsg (enforce : Bool) (s : BridgeState) : Option AbilityStateMsg :=
  if enforce ∧ s.getAbilityCounts.entries = [] then none
  else some ⟨sortedCounts s.getAbilityCounts, enforce⟩

theorem keys_sortedCounts (counts : Dict String ℕ) :
    (sortedCounts counts).map Prod.fst = counts.keys.insertionSort (· ≤ ·) :=
  List.map_insertionSort _ _ Prod.fst counts.entries fun _ _ _ _ => Iff.rfl

theorem mem_sortedCounts {counts : Dict String ℕ} {e : String × ℕ} :
    e ∈ sortedCounts counts ↔ e ∈ counts.entries :=
  List.mem_insertionSort _

end SmoArchipelago.Bridge
