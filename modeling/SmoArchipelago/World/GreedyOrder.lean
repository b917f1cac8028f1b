import SmoArchipelago.World.TalkatooSound

/-! # The greedy permutation

A reachable location is taken at random until none remains. Where what can be reached only
grows with what was collected, the choices do not matter: the greedy gets stuck exactly if no
order of the locations has each of them reachable in its turn. -/

namespace SmoArchipelago.World

/-- The two oracles over a state. What can be reached depends on the collected locations as a
multiset, and more of them never close a location. -/
structure Oracles where
  State : Type
  start : State
  canReach : State → String → Bool
  collect : State → String → State
  mono : ∀ {before after : List String} {loc : String}, (before : Multiset String) ≤ after →
    canReach (before.foldl collect start) loc = true → canReach (after.foldl collect start) loc = true

/-- `is_sphere_safe_with_oracle`. -/
def isSphereSafe {σ : Type} (canReach : σ → String → Bool) (collect : σ → String → σ) (window : ℕ) :
    σ → List String → Bool
  | _, [] => true
  | s, loc :: rest =>
      ((loc :: rest).take window).any (canReach s) &&
        isSphereSafe canReach collect window (collect s loc) rest

namespace Oracles

variable (O : Oracles)

/-- The state in which the locations of a list were collected. -/
def after (taken : List String) : O.State := taken.foldl O.collect O.start

/-- `find_safe_permutation_with_oracle`. -/
def findSafePermutation (rng : ℕ → ℕ) (locs : List String) : Option (List String) :=
  Upstream.findSafePermutation id O.canReach O.collect rng locs.length O.start locs

/-- Each location is reachable after collecting exactly its predecessors. -/
def Safe (order : List String) : Prop := Collected O.canReach O.collect O.start order

variable {O}

theorem after_append (taken : List String) (loc : String) :
    O.after (taken ++ [loc]) = O.collect (O.after taken) loc := by
  rw [after, after, List.foldl_append]
  rfl

/-- A location is reachable after those before it. -/
theorem canReach_of_collected {s : O.State} {before rest : List String} {loc : String}
    (safe : Collected O.canReach O.collect s (before ++ loc :: rest)) :
    O.canReach (before.foldl O.collect s) loc = true := by
  induction before generalizing s with
  | nil => exact safe.1
  | cons first before ih => exact ih safe.2

/-- The first location of an order that exceeds what was taken. -/
theorem exists_exceeding {taken before rest : List String} (below : (before : Multiset String) ≤ taken)
    (exceeds : ¬ ((before ++ rest : List String) : Multiset String) ≤ taken) :
    ∃ (A : List String) (loc : String) (B : List String), before ++ rest = A ++ loc :: B ∧
      (A : Multiset String) ≤ taken ∧
      ¬ ((A ++ [loc] : List String) : Multiset String) ≤ taken := by
  induction rest generalizing before with
  | nil =>
      rw [List.append_nil] at exceeds
      exact absurd below exceeds
  | cons loc rest ih =>
      by_cases fits : ((before ++ [loc] : List String) : Multiset String) ≤ taken
      · have same : before ++ loc :: rest = before ++ [loc] ++ rest := by
          rw [List.append_assoc, List.singleton_append]
        rw [same]
        exact ih fits (same ▸ exceeds)
      · exact ⟨before, loc, rest, rfl, below, fits⟩

/-- As long as locations remain, one of them is reachable. -/
theorem exists_reachable {order taken remaining : List String} (safe : O.Safe order)
    (split : (taken ++ remaining).Perm order) (left : remaining ≠ []) :
    ∃ loc ∈ remaining, O.canReach (O.after taken) loc = true := by
  have too_many : ¬ (([] ++ order : List String) : Multiset String) ≤ taken := by
    intro le
    have lengths := Multiset.card_le_card le
    rw [List.nil_append, Multiset.coe_card, Multiset.coe_card, ← split.length_eq,
      List.length_append] at lengths
    have some_left := List.length_pos_iff.2 left
    omega
  obtain ⟨before, loc, rest, here, below, exceeds⟩ :=
    exists_exceeding (Multiset.zero_le (taken : Multiset String)) too_many
  rw [List.nil_append] at here
  have more : taken.count loc < (before ++ [loc]).count loc := by
    by_contra few
    refine exceeds (Multiset.le_iff_count.2 fun a => ?_)
    rw [Multiset.coe_count, Multiset.coe_count]
    by_cases same : a = loc
    · rw [same]
      exact not_lt.1 few
    · have absent : [loc].count a = 0 := List.count_eq_zero.2 fun h => same (List.mem_singleton.1 h)
      rw [List.count_append, absent, Nat.add_zero, ← Multiset.coe_count, ← Multiset.coe_count]
      exact Multiset.le_iff_count.1 below a
  have listed : 0 < remaining.count loc := by
    have total : taken.count loc + remaining.count loc = (before ++ [loc]).count loc + rest.count loc := by
      rw [← List.count_append, split.count_eq, here, ← List.count_append, List.append_assoc,
        List.singleton_append]
    omega
  exact ⟨loc, List.count_pos_iff.1 listed, O.mono below (canReach_of_collected (here ▸ safe))⟩

/-- The greedy does not get stuck on a way that leads to an order. -/
theorem findSafePermutation_isSome {order taken remaining : List String} {n : ℕ} (safe : O.Safe order)
    (split : (taken ++ remaining).Perm order) (size : remaining.length = n) (rng : ℕ → ℕ) :
    (Upstream.findSafePermutation id O.canReach O.collect rng n (O.after taken) remaining).isSome := by
  induction n generalizing taken remaining rng with
  | zero => rfl
  | succ n ih =>
      have left : remaining ≠ [] := by
        rintro rfl
        cases size
      obtain ⟨loc, here, reached⟩ := exists_reachable safe split left
      have some_choice : loc ∈ (remaining.filter (O.canReach (O.after taken))).mergeSort
          fun l l' => id l ≤ id l' := List.mem_mergeSort.2 (List.mem_filter.2 ⟨here, reached⟩)
      unfold Upstream.findSafePermutation
      dsimp only
      split
      · next none_chosen =>
          have beyond := List.getElem?_eq_none_iff.1 none_chosen
          exact absurd (Nat.mod_lt (rng 0) (List.length_pos_of_mem some_choice)) (not_lt.2 beyond)
      · next pick chosen =>
          have picked := (List.mem_filter.1 (List.mem_mergeSort.1 (List.mem_of_getElem? chosen))).1
          rw [Option.isSome_map, ← after_append]
          apply ih
          · have moved : (pick :: remaining.erase pick).Perm remaining := (List.perm_cons_erase picked).symm
            rw [List.append_assoc, List.singleton_append]
            exact (moved.append_left taken).trans split
          · rw [List.length_erase_of_mem picked, size, Nat.add_sub_cancel]

/-- An order with each location reachable in its turn is accepted with every window. -/
theorem isSphereSafe_of_collected {s : O.State} {order : List String}
    (safe : Collected O.canReach O.collect s order) {window : ℕ} (some_window : 1 ≤ window) :
    isSphereSafe O.canReach O.collect window s order = true := by
  obtain ⟨w, rfl⟩ := Nat.exists_eq_add_of_le' some_window
  induction order generalizing s with
  | nil => rfl
  | cons loc rest ih =>
      obtain ⟨now, later⟩ := safe
      rw [isSphereSafe, ih later, List.take_succ_cons, List.any_cons, now]
      rfl

/-- The greedy returns a safe permutation of its input, and none only where there is none,
whatever it chooses. -/
theorem findSafePermutation_correct (O : Oracles) (locs : List String) (rng : ℕ → ℕ) :
    (∀ order, O.findSafePermutation rng locs = some order →
      order.Perm locs ∧ O.Safe order ∧
        ∀ window, 1 ≤ window → isSphereSafe O.canReach O.collect window O.start order = true) ∧
    (O.findSafePermutation rng locs = none ↔ ¬ ∃ order, order.Perm locs ∧ O.Safe order) := by
  have sound (order : List String) (found : O.findSafePermutation rng locs = some order) :
      order.Perm locs ∧ O.Safe order :=
    (findSafePermutation_iff id rfl).1 ⟨rng, found⟩
  refine ⟨fun order found => ?_, fun stuck => ?_, fun no_order => ?_⟩
  · obtain ⟨perm, safe⟩ := sound order found
    exact ⟨perm, safe, fun window some_window => isSphereSafe_of_collected safe some_window⟩
  · rintro ⟨order, perm, safe⟩
    have some_order := findSafePermutation_isSome safe (show ([] ++ locs).Perm order from perm.symm) rfl rng
    change (O.findSafePermutation rng locs).isSome = true at some_order
    rw [stuck] at some_order
    cases some_order
  · cases found : O.findSafePermutation rng locs with
    | none => rfl
    | some order => exact absurd ⟨order, sound order found⟩ no_order

/-- Collecting at the end of a list of what was collected. -/
theorem foldl_collected (taken locs : List String) :
    locs.foldl (fun taken loc => taken ++ [loc]) taken = taken ++ locs := by
  induction locs generalizing taken with
  | nil => exact (List.append_nil taken).symm
  | cons loc locs ih => rw [List.foldl_cons, ih, List.append_assoc, List.singleton_append]

/-- A location is open once all that it is behind was collected. -/
def behind (needs : String → List String) : Oracles where
  State := List String
  start := []
  canReach taken loc := (needs loc).all (· ∈ taken)
  collect taken loc := taken ++ [loc]
  mono {before after loc} le reached := by
    rw [foldl_collected, List.nil_append, List.all_eq_true] at reached
    rw [foldl_collected, List.nil_append, List.all_eq_true]
    intro need member
    have listed : need ∈ before := of_decide_eq_true (reached need member)
    exact decide_eq_true (Multiset.mem_of_le le listed)

/-- Two ways around to a door, which also takes a key. -/
def diamond : Oracles := behind fun loc =>
  if loc = "left" ∨ loc = "right" then ["start"]
  else if loc = "key" then ["right"]
  else if loc = "door" then ["left", "right", "key"]
  else []

/-- The door opens last whatever is chosen, and without the key there is no order. -/
theorem diamond_findSafePermutation :
    (∃ order, diamond.findSafePermutation (fun n => 5 * n + 2)
        ["door", "key", "left", "right", "start"] = some order ∧
      order.Perm ["door", "key", "left", "right", "start"] ∧ diamond.Safe order) ∧
    diamond.findSafePermutation (fun n => 5 * n + 2) ["door", "left", "right", "start"] = none := by
  constructor
  · obtain ⟨sound, complete⟩ := findSafePermutation_correct diamond
      ["door", "key", "left", "right", "start"] fun n => 5 * n + 2
    have some_order : ∃ order : List String,
        order.Perm ["door", "key", "left", "right", "start"] ∧ diamond.Safe order :=
      ⟨["start", "right", "key", "left", "door"], by decide, by decide, by decide, by decide,
        by decide, by decide, trivial⟩
    cases found : diamond.findSafePermutation (fun n => 5 * n + 2)
        ["door", "key", "left", "right", "start"] with
    | none => exact absurd some_order (complete.1 found)
    | some order => exact ⟨order, rfl, (sound order found).1, (sound order found).2.1⟩
  · apply (findSafePermutation_correct diamond ["door", "left", "right", "start"] _).2.2
    rintro ⟨order, perm, safe⟩
    obtain ⟨before, rest, rfl⟩ := List.append_of_mem (perm.mem_iff.2 List.mem_cons_self)
    have opened := canReach_of_collected safe
    have taken : before.foldl diamond.collect diamond.start = before := foldl_collected [] before
    rw [taken] at opened
    have key : "key" ∈ before := of_decide_eq_true (List.all_eq_true.1 opened "key" (by decide))
    have listed := perm.subset (List.mem_append_left _ key)
    exact absurd listed (by decide)

end Oracles

end SmoArchipelago.World
