import SmoArchipelago.World.KingdomGates

/-! # The rolled gates and their total

Gates are rolled by a walk that moves requirements between kingdoms. The walk keeps every gate
within its bounds and keeps the total, so what the total loses it loses before the walk.

## Implementation notes

The state before the walk is given by a list of entries for each table, in the order of the
base gates. -/

namespace SmoArchipelago.World

open Library

variable (capacities : Dict String ℕ)

/-- The bounds of a gate. -/
def rollLo (gate : String × ℕ) : ℕ := max 1 (gate.2 - gateRandomizeSpread)

def rollHi (gate : String × ℕ) : ℕ :=
  match capacities.get? gate.1 with
  | some cap => min (gate.2 + gateRandomizeSpread) cap
  | none => gate.2 + gateRandomizeSpread

/-- The capacity pins the gate below its bounds. -/
def Frozen (gate : String × ℕ) : Prop := ∃ cap, capacities.get? gate.1 = some cap ∧ cap < rollLo gate

/-- The capacity is within the bounds of the gate, but below its vanilla value. -/
def Lowered (gate : String × ℕ) : Prop :=
  ∃ cap, capacities.get? gate.1 = some cap ∧ rollLo gate ≤ cap ∧ cap < gate.2

variable {capacities}

theorem frozen_iff (gate : String × ℕ) : Frozen capacities gate ↔ rollHi capacities gate < rollLo gate := by
  rw [Frozen, rollHi, rollLo, gateRandomizeSpread]
  cases capacities.get? gate.1 with
  | none =>
      simp only [reduceCtorEq, false_and, exists_const, false_iff]
      omega
  | some cap =>
      simp only [Option.some.injEq, exists_eq_left']
      omega

instance (gate : String × ℕ) : Decidable (Frozen capacities gate) :=
  decidable_of_iff _ (frozen_iff gate).symm

theorem lowered_iff (gate : String × ℕ) :
    Lowered capacities gate ↔ rollLo gate ≤ rollHi capacities gate ∧ rollHi capacities gate < gate.2 := by
  rw [Lowered, rollHi, rollLo, gateRandomizeSpread]
  cases capacities.get? gate.1 with
  | none =>
      simp only [reduceCtorEq, false_and, exists_const, false_iff]
      omega
  | some cap =>
      simp only [Option.some.injEq, exists_eq_left']
      omega

/-! ## What is promised of a roll -/

variable (capacities) in
/-- Every gate is within its bounds, or pinned, and the total shrinks by the frozen gates alone. -/
structure RollRight (base rolled : Dict String ℕ) : Prop where
  keys : rolled.keys = base.keys
  bounds : ∀ gate ∈ base.entries,
    if rollLo gate ≤ rollHi capacities gate then
      rollLo gate ≤ rolled.getD gate.1 0 ∧ rolled.getD gate.1 0 ≤ rollHi capacities gate
    else rolled.getD gate.1 0 = max 1 (rollHi capacities gate)
  total : (rolled.values.sum : ℤ) = base.values.sum -
    ((base.entries.filter fun gate => Frozen capacities gate).map fun gate =>
      (gate.2 : ℤ) - rolled.getD gate.1 0).sum

/-! ## Before the walk -/

variable (capacities) in
/-- The gate at which the walk starts. -/
def rollStart (gate : String × ℕ) : ℕ :=
  if Frozen capacities gate then max 1 (rollHi capacities gate)
  else if rollLo gate ≤ gate.2 ∧ gate.2 ≤ rollHi capacities gate then gate.2
  else rollHi capacities gate

variable (capacities) in
/-- The gates that take part in the walk. -/
def walking (gates : List (String × ℕ)) : List (String × ℕ) :=
  gates.filter fun gate => ¬ Frozen capacities gate

theorem mem_walking {gates : List (String × ℕ)} {gate : String × ℕ} :
    gate ∈ walking capacities gates ↔ gate ∈ gates ∧ ¬ Frozen capacities gate := by
  rw [walking, List.mem_filter, decide_eq_true_eq]

/-- The tables before the walk. -/
structure Entered (gates : List (String × ℕ)) (r : GateRoll) : Prop where
  value : r.value.entries = gates.map fun gate => (gate.1, rollStart capacities gate)
  lo : r.lo.entries = (walking capacities gates).map fun gate => (gate.1, rollLo gate)
  hi : r.hi.entries = (walking capacities gates).map fun gate => (gate.1, rollHi capacities gate)
  walkers : r.walkers = (walking capacities gates).map Prod.fst

/-- A gate with a new kingdom is entered into the tables. -/
theorem Entered.enter {gates : List (String × ℕ)} {r : GateRoll}
    (h : @Entered capacities gates r) {gate : String × ℕ} (new : gate.1 ∉ gates.map Prod.fst) :
    @Entered capacities (gates ++ [gate]) (r.enter capacities gate) := by
  have fresh (d : Dict String ℕ) {part : List (String × ℕ)} {f : String × ℕ → ℕ} (sub : part ⊆ gates)
      (entries : d.entries = part.map fun g => (g.1, f g)) : gate.1 ∉ d.keys := by
    rw [Dict.keys, entries, List.map_map]
    intro member
    obtain ⟨g, here, same⟩ := List.mem_map.1 member
    exact new (List.mem_map.2 ⟨g, sub here, same⟩)
  have among : walking capacities gates ⊆ gates := List.filter_sublist.subset
  have new_value := fresh r.value (List.Subset.refl gates) h.value
  have new_lo := fresh r.lo among h.lo
  have new_hi := fresh r.hi among h.hi
  have last : walking capacities (gates ++ [gate]) =
      walking capacities gates ++ if Frozen capacities gate then [] else [gate] := by
    rw [walking, List.filter_append]
    by_cases pinned : Frozen capacities gate <;> simp [walking, pinned]
  by_cases pinned : Frozen capacities gate
  · have entered : r.enter capacities gate =
        { r with value := r.value.set gate.1 (max 1 (rollHi capacities gate)) } :=
      if_pos ((frozen_iff gate).1 pinned)
    have start : rollStart capacities gate = max 1 (rollHi capacities gate) := if_pos pinned
    rw [if_pos pinned, List.append_nil] at last
    rw [entered]
    constructor
    · rw [Dict.entries_set_of_not_mem new_value, h.value, List.map_append, List.map_singleton, start]
    · rw [last, ← h.lo]
    · rw [last, ← h.hi]
    · rw [last, ← h.walkers]
  · have entered : r.enter capacities gate =
        { lo := r.lo.set gate.1 (rollLo gate)
          hi := r.hi.set gate.1 (rollHi capacities gate)
          value := r.value.set gate.1
            (if rollLo gate ≤ gate.2 ∧ gate.2 ≤ rollHi capacities gate then gate.2
              else rollHi capacities gate)
          walkers := r.walkers ++ [gate.1] } :=
      if_neg fun below => pinned ((frozen_iff gate).2 below)
    have start : rollStart capacities gate =
        if rollLo gate ≤ gate.2 ∧ gate.2 ≤ rollHi capacities gate then gate.2
        else rollHi capacities gate := if_neg pinned
    rw [if_neg pinned] at last
    rw [entered]
    constructor
    · rw [Dict.entries_set_of_not_mem new_value, h.value, List.map_append, List.map_singleton, start]
    · rw [Dict.entries_set_of_not_mem new_lo, h.lo, last, List.map_append, List.map_singleton]
    · rw [Dict.entries_set_of_not_mem new_hi, h.hi, last, List.map_append, List.map_singleton]
    · rw [h.walkers, last, List.map_append, List.map_singleton]

theorem entered_foldl (gates : List (String × ℕ)) (distinct : (gates.map Prod.fst).Nodup) :
    @Entered capacities gates (gates.foldl (GateRoll.enter capacities) {}) := by
  induction gates using List.reverseRecOn with
  | nil => exact ⟨rfl, rfl, rfl, rfl⟩
  | append_singleton gates gate ih =>
      rw [List.map_append, List.map_singleton] at distinct
      rw [List.foldl_append]
      apply (ih distinct.of_append_left).enter
      intro old
      exact (List.nodup_append.1 distinct).2.2 _ old _ List.mem_cons_self rfl

/-! ## The walk -/

/-- What the walk keeps; the walkers stay within their bounds. -/
structure Walked (r₀ r : GateRoll) : Prop where
  lo : r.lo = r₀.lo
  hi : r.hi = r₀.hi
  walkers : r.walkers = r₀.walkers
  keys : r.value.keys = r₀.value.keys
  total : r.value.values.sum = r₀.value.values.sum
  others : ∀ k ∉ r₀.walkers, r.value.getD k 0 = r₀.value.getD k 0
  within : ∀ k ∈ r₀.walkers, r₀.lo.getD k 0 ≤ r.value.getD k 0 ∧ r.value.getD k 0 ≤ r₀.hi.getD k 0

theorem getD_set (d : Dict String ℕ) (k k' : String) (v : ℕ) :
    (d.set k v).getD k' 0 = if k' = k then v else d.getD k' 0 := by
  rw [Dict.getD, Dict.get?_set]
  split_ifs <;> rfl

/-- A step moves one moon between two walkers, or nothing. -/
theorem transfer_cases (rng : Random) (r : GateRoll) (i : ℕ) (some_walker : r.walkers ≠ []) :
    r.transfer rng i = r ∨ ∃ a ∈ r.walkers, ∃ b ∈ r.walkers, a ≠ b ∧
      r.value.getD a 0 < r.hi.getD a 0 ∧ r.lo.getD b 0 < r.value.getD b 0 ∧
      r.transfer rng i =
        { r with value := (r.value.set a (r.value.getD a 0 + 1)).set b (r.value.getD b 0 - 1) } := by
  have picked (call : ℕ) :
      r.walkers.getD (rng.randint call 0 (r.walkers.length - 1)) "" ∈ r.walkers := by
    have some_length := List.length_pos_iff.2 some_walker
    have below := (rng.mem call 0 (r.walkers.length - 1) (Nat.zero_le _)).2
    rw [List.getD_eq_getElem _ _ (by omega)]
    exact List.getElem_mem _
  rw [GateRoll.transfer]
  dsimp only
  split_ifs with same moves
  · exact .inl rfl
  · refine .inr ⟨_, picked (2 * i), _, picked (2 * i + 1), same, moves.1, moves.2, ?_⟩
    rw [getD_set, if_neg fun h => same h.symm]
  · exact .inl rfl

theorem Walked.transfer {r₀ r : GateRoll} (h : Walked r₀ r) (some_walker : r₀.walkers ≠ [])
    (listed : r₀.walkers ⊆ r₀.value.keys) (rng : Random) (i : ℕ) : Walked r₀ (r.transfer rng i) := by
  rcases transfer_cases rng r i (h.walkers.trans_ne some_walker) with
    same | ⟨a, a_walks, b, b_walks, other, below, above, moved⟩
  · rw [same]
    exact h
  · rw [h.walkers] at a_walks b_walks
    rw [h.hi] at below
    rw [h.lo] at above
    have a_key : a ∈ r.value.keys := h.keys ▸ listed a_walks
    have b_key : b ∈ (r.value.set a (r.value.getD a 0 + 1)).keys :=
      (r.value.mem_keys_set a b _).2 (.inr (h.keys ▸ listed b_walks))
    have values (k : String) :
        ((r.value.set a (r.value.getD a 0 + 1)).set b (r.value.getD b 0 - 1)).getD k 0 =
          if k = b then r.value.getD b 0 - 1
          else if k = a then r.value.getD a 0 + 1 else r.value.getD k 0 := by
      rw [getD_set, getD_set]
    rw [moved]
    refine ⟨h.lo, h.hi, h.walkers, ?_, ?_, fun k stands => ?_, fun k walks => ?_⟩
    · rw [Dict.keys_set_of_mem b_key, Dict.keys_set_of_mem a_key, h.keys]
    · have first := r.value.sum_values_set a (r.value.getD a 0 + 1)
      have second := (r.value.set a (r.value.getD a 0 + 1)).sum_values_set b (r.value.getD b 0 - 1)
      rw [getD_set, if_neg fun same => other same.symm] at second
      have total := h.total
      dsimp only
      omega
    · have not_b : k ≠ b := fun same => stands (same ▸ b_walks)
      have not_a : k ≠ a := fun same => stands (same ▸ a_walks)
      rw [← h.others k stands, values, if_neg not_b, if_neg not_a]
    · have bounds := h.within k walks
      rw [values]
      split_ifs with is_b is_a
      · subst is_b
        omega
      · subst is_a
        omega
      · exact bounds

theorem Walked.foldl {r₀ r : GateRoll} (h : Walked r₀ r) (some_walker : r₀.walkers ≠ [])
    (listed : r₀.walkers ⊆ r₀.value.keys) (rng : Random) (steps : List ℕ) :
    Walked r₀ (steps.foldl (GateRoll.transfer rng) r) := by
  induction steps generalizing r with
  | nil => exact h
  | cons i steps ih => exact ih (h.transfer some_walker listed rng i)

/-! ## The roll -/

section Roll

variable {base : Dict String ℕ}

variable (capacities base) in
/-- The tables before the walk. -/
def rollTables : GateRoll := base.entries.foldl (GateRoll.enter capacities) {}

theorem rollTables_entered : @Entered capacities base.entries (rollTables capacities base) :=
  entered_foldl base.entries base.distinct

theorem rollTables_keys : (rollTables capacities base).value.keys = base.keys := by
  rw [Dict.keys, rollTables_entered.value, List.map_map]
  rfl

theorem mem_rollTables_walkers {gate : String × ℕ} (member : gate ∈ base.entries) :
    gate.1 ∈ (rollTables capacities base).walkers ↔ ¬ Frozen capacities gate := by
  rw [rollTables_entered.walkers, List.mem_map]
  constructor
  · rintro ⟨other, walks, same⟩
    obtain ⟨here, free⟩ := mem_walking.1 walks
    rwa [← List.inj_on_of_nodup_map base.distinct here member same]
  · intro free
    exact ⟨gate, mem_walking.2 ⟨member, free⟩, rfl⟩

theorem rollTables_value {gate : String × ℕ} (member : gate ∈ base.entries) :
    (rollTables capacities base).value.getD gate.1 0 = rollStart capacities gate := by
  have entry : (gate.1, rollStart capacities gate) ∈ (rollTables capacities base).value.entries := by
    rw [rollTables_entered.value]
    exact List.mem_map_of_mem member
  exact Dict.getD_of_mem entry 0

/-- The bounds of a gate that takes part in the walk. -/
theorem rollTables_bounds {gate : String × ℕ} (member : gate ∈ base.entries)
    (free : ¬ Frozen capacities gate) :
    (rollTables capacities base).lo.getD gate.1 0 = rollLo gate ∧
      (rollTables capacities base).hi.getD gate.1 0 = rollHi capacities gate := by
  have walks := mem_walking.2 ⟨member, free⟩
  constructor
  · have entry : (gate.1, rollLo gate) ∈ (rollTables capacities base).lo.entries := by
      rw [rollTables_entered.lo]
      exact List.mem_map_of_mem walks
    exact Dict.getD_of_mem entry 0
  · have entry : (gate.1, rollHi capacities gate) ∈ (rollTables capacities base).hi.entries := by
      rw [rollTables_entered.hi]
      exact List.mem_map_of_mem walks
    exact Dict.getD_of_mem entry 0

theorem rollStart_within {gate : String × ℕ} (free : ¬ Frozen capacities gate) :
    rollLo gate ≤ rollStart capacities gate ∧ rollStart capacities gate ≤ rollHi capacities gate := by
  have window : rollLo gate ≤ rollHi capacities gate := not_lt.1 fun below => free ((frozen_iff gate).2 below)
  rw [rollStart, if_neg free]
  split_ifs with inside
  · exact inside
  · exact ⟨window, le_rfl⟩

theorem rollTables_walked : Walked (rollTables capacities base) (rollTables capacities base) where
  lo := rfl
  hi := rfl
  walkers := rfl
  keys := rfl
  total := rfl
  others _ _ := rfl
  within k walks := by
    rw [rollTables_entered.walkers] at walks
    obtain ⟨gate, here, rfl⟩ := List.mem_map.1 walks
    obtain ⟨member, free⟩ := mem_walking.1 here
    obtain ⟨lo, hi⟩ := rollTables_bounds member free
    rw [lo, hi, rollTables_value member]
    exact rollStart_within free

/-- The walk ends in tables that it may reach. -/
theorem rollKingdomGates_walked (rng : Random) :
    ∃ r, Walked (rollTables capacities base) r ∧ rollKingdomGates rng base capacities = r.value := by
  change ∃ r, _ ∧ (if 2 ≤ (rollTables capacities base).walkers.length then _ else _) = _
  split_ifs with two
  · have some_walker : (rollTables capacities base).walkers ≠ [] := by
      intro nobody
      rw [nobody] at two
      exact absurd two (by decide)
    refine ⟨_, rollTables_walked.foldl some_walker (fun k walks => ?_) rng _, rfl⟩
    rw [rollTables_keys]
    rw [rollTables_entered.walkers] at walks
    obtain ⟨gate, here, rfl⟩ := List.mem_map.1 walks
    exact List.mem_map_of_mem (mem_walking.1 here).1
  · exact ⟨_, rollTables_walked, rfl⟩

/-- The sum before the walk, the frozen gates apart. -/
theorem rollStart_sum (gates : List (String × ℕ)) :
    ((gates.map (rollStart capacities)).sum : ℤ) = (gates.map Prod.snd).sum -
      ((gates.filter fun gate => Frozen capacities gate).map fun gate =>
        (gate.2 : ℤ) - rollStart capacities gate).sum -
      ((walking capacities gates).map fun gate => (gate.2 : ℤ) - rollStart capacities gate).sum := by
  induction gates with
  | nil => rfl
  | cons gate gates ih =>
      by_cases pinned : Frozen capacities gate
      · have stands : walking capacities (gate :: gates) = walking capacities gates := by
          rw [walking, List.filter_cons_of_neg (by simpa using pinned), walking]
        rw [stands, List.filter_cons_of_pos (by simpa using pinned)]
        simp only [List.map_cons, List.sum_cons, Nat.cast_add, ih]
        ring
      · have walks : walking capacities (gate :: gates) = gate :: walking capacities gates := by
          rw [walking, List.filter_cons_of_pos (by simpa using pinned), walking]
        rw [walks, List.filter_cons_of_neg (by simpa using pinned)]
        simp only [List.map_cons, List.sum_cons, Nat.cast_add, ih]
        ring

/-- A gate that walks starts at its vanilla value, or below it if its capacity is. -/
theorem rollStart_le {gate : String × ℕ} (positive : 1 ≤ gate.2) (free : ¬ Frozen capacities gate) :
    rollStart capacities gate ≤ gate.2 ∧
      (rollStart capacities gate = gate.2 ↔ ¬ Lowered capacities gate) := by
  have window : rollLo gate ≤ rollHi capacities gate := not_lt.1 fun below => free ((frozen_iff gate).2 below)
  have above : rollLo gate ≤ gate.2 := by
    rw [rollLo]
    omega
  rw [lowered_iff, rollStart, if_neg free]
  split_ifs with inside
  · exact ⟨le_rfl, iff_of_true rfl fun low => absurd low.2 (not_lt.2 inside.2)⟩
  · have low : rollHi capacities gate < gate.2 := not_le.1 fun le => inside ⟨above, le⟩
    exact ⟨low.le, iff_of_false low.ne fun h => h ⟨window, low⟩⟩

/-- The total law holds before the walk exactly if no gate is lowered. -/
theorem shortfall_eq_zero_iff {gates : List (String × ℕ)} (positive : ∀ gate ∈ gates, 1 ≤ gate.2) :
    ((walking capacities gates).map fun gate => (gate.2 : ℤ) - rollStart capacities gate).sum = 0 ↔
      ∀ gate ∈ gates, ¬ Lowered capacities gate := by
  have start (gate : String × ℕ) (walks : gate ∈ walking capacities gates) :=
    rollStart_le (positive gate (mem_walking.1 walks).1) (mem_walking.1 walks).2
  have nonneg : ∀ x ∈ (walking capacities gates).map fun gate => (gate.2 : ℤ) - rollStart capacities gate,
      0 ≤ x := by
    rw [List.forall_mem_map]
    intro gate walks
    have le := (start gate walks).1
    omega
  constructor
  · intro even gate member
    by_cases pinned : Frozen capacities gate
    · intro low
      have window := ((lowered_iff gate).1 low).1
      exact absurd window (not_le.2 ((frozen_iff gate).1 pinned))
    · have walks := mem_walking.2 ⟨member, pinned⟩
      have same := List.all_zero_of_le_zero_le_of_sum_eq_zero nonneg even (List.mem_map_of_mem walks)
      exact (start gate walks).2.1 (by omega)
  · intro none_low
    apply List.sum_eq_zero
    rw [List.forall_mem_map]
    intro gate walks
    rw [(start gate walks).2.2 (none_low gate (mem_walking.1 walks).1)]
    exact sub_self _

variable (capacities base) in
/-- A roll keeps its bounds, and its total shrinks by the frozen gates alone, exactly if no
capacity lies within the bounds of a gate and below its vanilla value. -/
theorem rollKingdomGates_right_iff (positive : ∀ gate ∈ base.entries, 1 ≤ gate.2) (rng : Random) :
    RollRight capacities base (rollKingdomGates rng base capacities) ↔
      ∀ gate ∈ base.entries, ¬ Lowered capacities gate := by
  obtain ⟨r, walked, rolled⟩ := @rollKingdomGates_walked capacities base rng
  have stands (gate : String × ℕ) (member : gate ∈ base.entries) (pinned : Frozen capacities gate) :
      r.value.getD gate.1 0 = rollStart capacities gate := by
    have apart : gate.1 ∉ (rollTables capacities base).walkers :=
      fun walks => (mem_rollTables_walkers member).1 walks pinned
    rw [walked.others gate.1 apart, rollTables_value member]
  have frozen_sum : ((base.entries.filter fun gate => Frozen capacities gate).map fun gate =>
        (gate.2 : ℤ) - r.value.getD gate.1 0) =
      (base.entries.filter fun gate => Frozen capacities gate).map fun gate =>
        (gate.2 : ℤ) - rollStart capacities gate := by
    apply List.map_congr_left
    intro gate member
    obtain ⟨here, pinned⟩ := List.mem_filter.1 member
    rw [stands gate here (of_decide_eq_true pinned)]
  have start_values : (rollTables capacities base).value.values = base.entries.map (rollStart capacities) := by
    rw [Dict.values, rollTables_entered.value, List.map_map]
    rfl
  have sum := @rollStart_sum capacities base.entries
  have even := @shortfall_eq_zero_iff capacities _ positive
  rw [rolled]
  constructor
  · intro right
    have total := right.total
    rw [walked.total, start_values, frozen_sum, sum, Dict.values] at total
    apply even.1
    omega
  · intro none_low
    refine ⟨walked.keys.trans rollTables_keys, fun gate member => ?_, ?_⟩
    · by_cases pinned : Frozen capacities gate
      · rw [if_neg (not_le.2 ((frozen_iff gate).1 pinned)), stands gate member pinned]
        exact if_pos pinned
      · have walks := (mem_rollTables_walkers member).2 pinned
        have within := walked.within gate.1 walks
        obtain ⟨lo, hi⟩ := rollTables_bounds member pinned
        rw [lo, hi] at within
        rw [if_pos (not_lt.1 fun below => pinned ((frozen_iff gate).2 below))]
        exact within
    · have zero := even.2 none_low
      rw [walked.total, start_values, frozen_sum, sum, Dict.values]
      omega

end Roll

/-- The vanilla gates without capacities. -/
theorem kingdomMoonGates_right :
    RollRight .empty kingdomMoonGates (rollKingdomGates default kingdomMoonGates .empty) :=
  (rollKingdomGates_right_iff .empty kingdomMoonGates (by decide) default).2
    fun gate _ low => by
      obtain ⟨cap, found, -⟩ := low
      cases found

/-- Three Cascade moons lower the gate of Cascade, and the total with it. -/
theorem cascade_lowered :
    ¬ RollRight ⟨[("Cascade", 3)], by decide⟩ ⟨[("Cascade", 5)], by decide⟩
      (rollKingdomGates default ⟨[("Cascade", 5)], by decide⟩ ⟨[("Cascade", 3)], by decide⟩) := by
  intro right
  have total := right.total
  revert total
  decide

end SmoArchipelago.World
