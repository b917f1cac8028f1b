import SmoArchipelago.World.TalkatooOrder

/-! # Soundness of the Talkatoo order

The state that answers what is reachable sweeps all locations when it collects an
advancement item, pool moons included. From then on every moon that can be reached at all
is reachable, and the rest of the order is arbitrary. The orders of the kingdoms are sound
for all choices exactly if an arbitrary order can be put right by what its kingdoms leave
open.

## Implementation notes

The order of all pool moons is not returned, only its restriction to each kingdom is. A
sound order is any order with these restrictions. -/

namespace SmoArchipelago.World

open Library Sweep Interleave

variable {Loc Item : Type}

/-! ## The permutation -/

section Permutation

variable {σ : Type} (canReach : σ → Loc → Bool) (collect : σ → Loc → σ)

/-- Each location is reachable in the state in which those before it were collected. -/
def Collected : σ → List Loc → Prop
  | _, [] => True
  | s, m :: rest => canReach s m = true ∧ Collected (collect s m) rest

variable {canReach collect}

/-- Locations that do not change the state can be taken off the front. -/
theorem Collected.append_of_same {s : σ} {N R : List Loc} (same : ∀ m ∈ N, collect s m = s)
    (c : Collected canReach collect s (N ++ R)) :
    (∀ m ∈ N, canReach s m = true) ∧ Collected canReach collect s R := by
  induction N with
  | nil => exact ⟨fun m member => absurd member List.not_mem_nil, c⟩
  | cons m N ih =>
      obtain ⟨first, later⟩ := c
      rw [same m List.mem_cons_self] at later
      obtain ⟨others, rest⟩ := ih (fun x here => same x (List.mem_cons_of_mem m here)) later
      exact ⟨List.forall_mem_cons.2 ⟨first, others⟩, rest⟩

/-- The choices can lead to each order in which every location is reachable in its turn,
and to no other. -/
theorem findSafePermutation_iff [DecidableEq Loc] (name : Loc → String) {n : ℕ} {s : σ}
    {remaining D : List Loc} (size : remaining.length = n) :
    (∃ rng, Upstream.findSafePermutation name canReach collect rng n s remaining = some D) ↔
      D.Perm remaining ∧ Collected canReach collect s D := by
  induction n generalizing s remaining D with
  | zero =>
      have done : remaining = [] := List.length_eq_zero_iff.1 size
      subst done
      simp only [Upstream.findSafePermutation, Option.some.injEq, exists_const, List.perm_nil]
      constructor
      · rintro rfl
        exact ⟨rfl, trivial⟩
      · exact fun h => h.1.symm
  | succ n ih =>
      have smaller {pick : Loc} (here : pick ∈ remaining) : (remaining.erase pick).length = n := by
        rw [List.length_erase_of_mem here, size, Nat.add_sub_cancel]
      have reachable (pick : Loc) :
          pick ∈ ((remaining.filter (canReach s)).mergeSort fun l l' => name l ≤ name l') ↔
            pick ∈ remaining ∧ canReach s pick = true := by
        rw [List.mem_mergeSort, List.mem_filter]
      constructor
      · rintro ⟨rng, run⟩
        unfold Upstream.findSafePermutation at run
        dsimp only at run
        split at run
        · cases run
        · next pick chosen =>
            obtain ⟨rest, later, rfl⟩ := Option.map_eq_some_iff.1 run
            obtain ⟨here, now⟩ := (reachable pick).1 (List.mem_of_getElem? chosen)
            obtain ⟨perm, collected⟩ := (ih (smaller here)).1 ⟨_, later⟩
            exact ⟨List.cons_perm_iff_perm_erase.2 ⟨here, perm⟩, now, collected⟩
      · rintro ⟨perm, collected⟩
        cases D with
        | nil =>
            rw [← perm.length_eq] at size
            cases size
        | cons pick rest =>
            obtain ⟨here, perm_rest⟩ := List.cons_perm_iff_perm_erase.1 perm
            obtain ⟨now, later⟩ := collected
            obtain ⟨rng, run⟩ := (ih (smaller here)).2 ⟨perm_rest, later⟩
            obtain ⟨k, lt, chosen⟩ := List.getElem_of_mem ((reachable pick).2 ⟨here, now⟩)
            -- The first choice is the place of the location, then the rest is chosen as before.
            refine ⟨fun j => if j = 0 then k else rng (j - 1), ?_⟩
            unfold Upstream.findSafePermutation
            simp only [if_true, Nat.mod_eq_of_lt lt, List.getElem?_eq_getElem lt, chosen,
              Nat.add_one_ne_zero, if_false, Nat.add_sub_cancel, run, Option.map_some]

end Permutation

/-! ## What the state can reach -/

namespace Upstream

variable {W : Filled Loc Item} (U : Upstream W)

theorem held_le_addItem (s : CollectionState Loc Item) (i : Item) : s.held ≤ (addItem W s i).held := by
  unfold addItem
  split_ifs
  · exact Multiset.le_cons_self s.held i
  · exact le_rfl

theorem advancements_addItem (s : CollectionState Loc Item) (i : Item) :
    (addItem W s i).advancements = s.advancements := by
  unfold addItem
  split_ifs <;> rfl

theorem held_le_sweep (s : CollectionState Loc Item) (places : List Loc) :
    s.held ≤ (U.sweepForAdvancements s places).held := by
  obtain ⟨T, -, swept, -⟩ := U.sweeps s places
  rw [swept]
  exact Multiset.le_add_right s.held _

theorem held_le_collectAt (s : CollectionState Loc Item) (l : Loc) :
    s.held ≤ (U.collectAt s l).held := by
  unfold collectAt
  split
  · next i _ =>
      have added := held_le_addItem (W := W) s i
      unfold collect
      split_ifs with sweeps
      · exact added.trans (U.held_le_sweep _ W.locations)
      · exact added
  · exact le_rfl

/-- The item of a location makes the state sweep. -/
def Sweeping (l : Loc) : Prop := ∃ i, W.placed l = some i ∧ U.sweepsAfter i = true

theorem collectAt_of_not_sweeping (s : CollectionState Loc Item) {l : Loc} (h : ¬ U.Sweeping l) :
    U.collectAt s l = s := by
  unfold collectAt
  split
  · next i placed =>
      have quiet : U.sweepsAfter i = false :=
        Bool.eq_false_iff.2 fun sweeps => h ⟨i, placed, sweeps⟩
      have no_advancement : W.advancement i = false :=
        Bool.eq_false_iff.2 fun adv => by
          rw [U.sweeps_advancement i adv] at quiet
          cases quiet
      unfold collect
      simp only [addItem, quiet, no_advancement, Bool.false_eq_true, if_false]
  · rfl

/-- A state that has swept all locations. -/
structure AllSwept (s : CollectionState Loc Item) : Prop where
  enough : W.precollected + gained W.advItem s.advancements ≤ s.held
  swept : Swept W.rules {l | l ∈ W.locations} s.held s.advancements

theorem allSwept_collectAt {s : CollectionState Loc Item} {l : Loc}
    (enough : W.precollected + gained W.advItem s.advancements ≤ s.held) (sweeps : U.Sweeping l) :
    AllSwept (W := W) (U.collectAt s l) := by
  obtain ⟨i, placed, sweeping⟩ := sweeps
  have next_state : U.collectAt s l = U.sweepForAdvancements (addItem W s i) W.locations := by
    simp only [collectAt, placed, collect, sweeping, if_true]
  obtain ⟨T, -, result, swept⟩ := U.sweeps (addItem W s i) W.locations
  rw [next_state, result]
  refine ⟨?_, swept⟩
  have start := enough.trans (held_le_addItem (W := W) s i)
  rw [gained_append, advancements_addItem, add_comm (gained W.advItem T), ← add_assoc]
  exact add_le_add_left start (gained W.advItem T)

end Upstream

/-! ## Sound orders -/

namespace Filled

variable (W : Filled Loc Item) (progressionNames : List String)

/-- The filled locations outside the pool. -/
def outsidePool : Set Loc := {l | l ∈ W.locations ∧ l ∉ W.allPool progressionNames}

/-- A location can be reached with the precollected items, the items of some pool moons and
what can be obtained outside the pool. -/
def ReachableAfter (taken : List Loc) (l : Loc) : Prop :=
  Obtains W.rules (W.outsidePool progressionNames) (W.precollected + gained W.advItem taken) l

/-- A location can be reached from the locations of the slot outside the pool. -/
def ReachableAtStart (l : Loc) : Prop :=
  Obtains W.rules {m | m ∈ W.locations ∧ W.mine m = true ∧ m ∉ W.allPool progressionNames}
    W.precollected l

/-- The restrictions of an order to the kingdoms of the pool. -/
def restrictions (order : List Loc) : List (String × List String) :=
  (W.collectPoolPerKingdom progressionNames).keys.map fun kingdom =>
    (kingdom, Upstream.perKingdom (W := W) progressionNames kingdom order)

/-- The orders are the restrictions of an order of all pool moons in which each is
reachable with what comes before it. -/
def Sound (orders : List (String × List String)) : Prop :=
  ∃ G, G.Perm (W.allPool progressionNames) ∧ orders = W.restrictions progressionNames G ∧
    InTurn (W.ReachableAfter progressionNames) [] G

variable {W progressionNames}

theorem ReachableAfter.mono {P P' : List Loc} {l : Loc} (distinct : P.Nodup) (sub : P ⊆ P')
    (h : W.ReachableAfter progressionNames P l) : W.ReachableAfter progressionNames P' l := by
  refine Obtains.mono h (Set.Subset.refl _) ?_
  gcongr
  exact gained_le_of_covered distinct fun m member _ => sub member

theorem ReachableAtStart.after {l : Loc} (h : W.ReachableAtStart progressionNames l) (P : List Loc) :
    W.ReachableAfter progressionNames P l :=
  Obtains.mono h (fun _ member => ⟨member.1, member.2.2⟩) (Multiset.le_add_right _ _)

/-- The moons of a kingdom in an order are told by their shine ids. -/
theorem ofKind_kingdom {order : List Loc} (sub : order ⊆ W.allPool progressionNames) (k : String) :
    ofKind (W.kingdom progressionNames) order (some k) =
      (Upstream.perKingdom (W := W) progressionNames k order).filterMap fun shine =>
        (W.allPool progressionNames).find? fun l => W.poolMoon progressionNames l = some (k, shine) := by
  induction order with
  | nil => rfl
  | cons m order ih =>
      have inPool := sub List.mem_cons_self
      have others := ih fun x member => sub (List.mem_cons_of_mem m member)
      obtain ⟨-, ⟨k', shine⟩, found⟩ := mem_allPool.1 inPool
      have here : W.kingdom progressionNames m = some k' := by rw [kingdom, found]; rfl
      by_cases same : k' = k
      · subst same
        have back : ((W.allPool progressionNames).find? fun l =>
            W.poolMoon progressionNames l = some (k', shine)) = some m := by
          cases answer : (W.allPool progressionNames).find? fun l =>
              W.poolMoon progressionNames l = some (k', shine) with
          | none => exact absurd found (by simpa using List.find?_eq_none.1 answer m inPool)
          | some l =>
              have same_moon : W.poolMoon progressionNames l = some (k', shine) := by
                simpa using List.find?_some answer
              rw [poolMoon_injective (List.mem_of_find?_eq_some answer) inPool
                (same_moon.trans found.symm)]
        rw [← here, ofKind_cons_self, here, others]
        simp [Upstream.perKingdom, found, back]
      · rw [ofKind_cons_of_ne _ (by rw [here]; simpa using same), others]
        simp [Upstream.perKingdom, found, same]

/-- What the restrictions of an order tell is its order within each kingdom. -/
theorem restrictions_eq_iff {A B : List Loc} (subA : A ⊆ W.allPool progressionNames)
    (subB : B ⊆ W.allPool progressionNames) :
    W.restrictions progressionNames A = W.restrictions progressionNames B ↔
      ∀ k, ofKind (W.kingdom progressionNames) A k = ofKind (W.kingdom progressionNames) B k := by
  have outside_kingdoms {C : List Loc} (sub : C ⊆ W.allPool progressionNames) {k : Option String}
      (absent : ∀ l ∈ W.allPool progressionNames, W.kingdom progressionNames l ≠ k) :
      ofKind (W.kingdom progressionNames) C k = [] := by
    apply List.eq_nil_iff_forall_not_mem.2
    intro l member
    obtain ⟨here, same⟩ := (mem_ofKind _).1 member
    exact absent l (sub here) same
  constructor
  · intro same k
    by_cases known : ∃ l ∈ W.allPool progressionNames, W.kingdom progressionNames l = k
    · cases k with
      | none =>
          obtain ⟨l, inPool, none_kingdom⟩ := known
          obtain ⟨-, moon, found⟩ := mem_allPool.1 inPool
          rw [kingdom, found] at none_kingdom
          cases none_kingdom
      | some k =>
          have equal := List.map_inj_left.1 same k (mem_kingdoms.2 known)
          rw [ofKind_kingdom subA, ofKind_kingdom subB, (Prod.mk.inj equal).2]
    · push Not at known
      rw [outside_kingdoms subA known, outside_kingdoms subB known]
  · intro same
    apply List.map_congr_left
    intro k _
    have from_kind (C : List Loc) : Upstream.perKingdom (W := W) progressionNames k C =
        Upstream.perKingdom (W := W) progressionNames k
          (ofKind (W.kingdom progressionNames) C (some k)) := by
      rw [Upstream.perKingdom, Upstream.perKingdom, ofKind, List.filterMap_filter]
      apply List.filterMap_congr
      intro l _
      cases found : W.poolMoon progressionNames l with
      | none => simp
      | some moon =>
          by_cases here : moon.1 = k
          · simp [kingdom, found, here]
          · simp [kingdom, found, here]
    rw [from_kind A, from_kind B, same]

end Filled

/-! ## Every order that the choices can lead to -/

namespace Upstream

variable {W : Filled Loc Item} (U : Upstream W) {progressionNames : List String}

/-- A state that has swept all locations reaches every pool moon that a sound order has. -/
theorem AllSwept.reaches {s : CollectionState Loc Item} (all : AllSwept (W := W) s)
    {before G : List Loc} (distinct : (before ++ G).Nodup)
    (sub : before ++ G ⊆ W.allPool progressionNames)
    (known : ∀ l ∈ before, (W.advItem l).isSome → l ∈ s.advancements)
    (turn : InTurn (W.ReachableAfter progressionNames) before G) :
    ∀ m ∈ G, W.canReach s.held m = true := by
  induction G generalizing before with
  | nil => exact fun m member => absurd member List.not_mem_nil
  | cons m G ih =>
      obtain ⟨⟨T, course, reached⟩, later⟩ := turn
      have apart : ∀ l ∈ W.outsidePool progressionNames, l ∉ before :=
        fun l member here => member.2 (sub (List.mem_append_left _ here))
      have outside_swept : Swept W.rules (W.outsidePool progressionNames) s.held s.advancements :=
        fun l member => all.swept l member.1
      have le := (course.covered apart distinct.of_append_left known all.enough outside_swept).2
      have now : W.canReach s.held m = true := W.mono le reached
      have inPool := sub (List.mem_append_right before List.mem_cons_self)
      have known' : ∀ l ∈ before ++ [m], (W.advItem l).isSome → l ∈ s.advancements := by
        intro l member some_item
        rcases List.mem_append.1 member with earlier | this
        · exact known l earlier some_item
        · obtain rfl := List.mem_singleton.1 this
          exact all.swept l (Filled.mem_allPool.1 inPool).1 some_item now
      rw [List.append_cons] at distinct sub
      exact List.forall_mem_cons.2 ⟨now, ih distinct sub known' later⟩

/-- Where every location of an order is reachable it can be collected in that order. -/
theorem collected_of_reachable {s : CollectionState Loc Item} {D : List Loc}
    (h : ∀ m ∈ D, W.canReach s.held m = true) :
    Collected (fun s l => W.canReach s.held l) U.collectAt s D := by
  induction D generalizing s with
  | nil => trivial
  | cons m D ih =>
      obtain ⟨now, later⟩ := List.forall_mem_cons.1 h
      exact ⟨now, ih fun l member => W.mono (U.held_le_collectAt s m) (later l member)⟩

theorem inTurn_of_start {N : List Loc} (h : ∀ m ∈ N, W.ReachableAtStart progressionNames m)
    (before : List Loc) : InTurn (W.ReachableAfter progressionNames) before N := by
  induction N generalizing before with
  | nil => trivial
  | cons m N ih =>
      obtain ⟨now, later⟩ := List.forall_mem_cons.1 h
      exact ⟨now.after before, ih later _⟩

variable [DecidableEq Loc]

theorem startState_enough :
    W.precollected +
        gained W.advItem (U.startState (W.allPool progressionNames)).advancements ≤
      (U.startState (W.allPool progressionNames)).held := by
  obtain ⟨T, -, result, -⟩ := U.sweeps ⟨W.precollected, []⟩
    (W.locations.filter fun l => W.mine l ∧ l ∉ W.allPool progressionNames)
  rw [startState, result, List.append_nil]

/-- The state at the start answers what can be reached from the locations of the slot. -/
theorem canReach_startState (l : Loc) :
    W.canReach (U.startState (W.allPool progressionNames)).held l = true ↔
      W.ReachableAtStart progressionNames l := by
  obtain ⟨T, course, result, swept⟩ := U.sweeps ⟨W.precollected, []⟩
    (W.locations.filter fun l => W.mine l ∧ l ∉ W.allPool progressionNames)
  have own : {m | m ∈ W.locations.filter fun l => W.mine l ∧ l ∉ W.allPool progressionNames} =
      {m | m ∈ W.locations ∧ W.mine m = true ∧ m ∉ W.allPool progressionNames} := by
    ext m
    simp
  rw [startState, result]
  constructor
  · intro reached
    refine ⟨T, course.mono ?_ le_rfl, reached⟩
    rw [← own]
    exact fun m member => member.1
  · rintro ⟨T', course', reached⟩
    rw [own, List.append_nil] at swept
    have start : Course W.rules {m | m ∈ W.locations ∧ W.mine m = true ∧ m ∉ W.allPool progressionNames}
        (W.precollected + gained W.advItem []) T' := by
      rw [gained_nil, add_zero]
      exact course'
    have le := (start.covered (fun m _ => List.not_mem_nil) List.nodup_nil
      (fun m member => absurd member List.not_mem_nil) le_rfl swept).2
    rw [gained_nil, add_zero] at le
    exact W.mono le reached

theorem buildTalkatooOrder_iff (orders : List (String × List String)) :
    (∃ rng, U.buildTalkatooOrder progressionNames rng = some orders) ↔
      ∃ D, (D.Perm (W.allPool progressionNames) ∧
          Collected (fun s l => W.canReach s.held l) U.collectAt
            (U.startState (W.allPool progressionNames)) D) ∧
        orders = W.restrictions progressionNames D := by
  constructor
  · rintro ⟨rng, run⟩
    obtain ⟨D, found, rfl⟩ := Option.map_eq_some_iff.1 run
    exact ⟨D, (findSafePermutation_iff W.name rfl).1 ⟨rng, found⟩, rfl⟩
  · rintro ⟨D, good, rfl⟩
    obtain ⟨rng, found⟩ := (findSafePermutation_iff W.name rfl).2 good
    exact ⟨rng, Option.map_eq_some_iff.2 ⟨D, found, rfl⟩⟩

variable (progressionNames) in
/-- After a first moon whose item makes the state sweep, whatever moons are taken, all the
moons that are left of some kingdom can be reached with those. -/
def KingdomsFree : Prop :=
  ∀ a ∈ W.allPool progressionNames, W.ReachableAtStart progressionNames a → U.Sweeping a →
    ∀ P Q, (P ++ Q).Perm (W.allPool progressionNames) → a ∈ P → Q ≠ [] →
      Free (W.kingdom progressionNames) (W.ReachableAfter progressionNames) P Q

variable {U}

theorem KingdomsFree.sound (free : U.KingdomsFree progressionNames) {D : List Loc}
    (perm : D.Perm (W.allPool progressionNames))
    (collected : Collected (fun s l => W.canReach s.held l) U.collectAt
      (U.startState (W.allPool progressionNames)) D) :
    W.Sound progressionNames (W.restrictions progressionNames D) := by
  by_cases sweeping : ∃ a ∈ D, U.Sweeping a
  · -- Up to the first moon that makes the state sweep, the order is sound as it is.
    obtain ⟨N, a, R, rfl, sweeps, quiet⟩ := exists_first sweeping
    have unchanged : ∀ m ∈ N, U.collectAt (U.startState (W.allPool progressionNames)) m =
        U.startState (W.allPool progressionNames) :=
      fun m member => U.collectAt_of_not_sweeping _ (quiet m member)
    obtain ⟨early, reached, -⟩ := collected.append_of_same unchanged
    have start := (U.canReach_startState a).1 reached
    have split : (N ++ [a] ++ R).Perm (W.allPool progressionNames) := by
      rw [List.append_assoc]
      exact perm
    have inPool := perm.mem_iff.1 (List.mem_append_right N List.mem_cons_self)
    obtain ⟨G, rest, kinds, turn⟩ := exists_interleaving (W.kingdom progressionNames) split
      fun P Q parts sub left => free a inPool start sweeps P Q parts
        (sub (List.mem_append_right N List.mem_cons_self)) left
    have first_part : InTurn (W.ReachableAfter progressionNames) [] (N ++ [a]) := by
      refine inTurn_of_start (fun m member => ?_) []
      rcases List.mem_append.1 member with inN | last
      · exact (U.canReach_startState m).1 (early m inN)
      · exact List.mem_singleton.1 last ▸ start
    have whole : (N ++ [a] ++ G).Perm (W.allPool progressionNames) :=
      (rest.append_left _).trans split
    refine ⟨N ++ [a] ++ G, whole, ?_, (inTurn_append [] _ G).2 ⟨first_part, turn⟩⟩
    apply (Filled.restrictions_eq_iff perm.subset whole.subset).2
    intro k
    rw [List.append_cons, ofKind_append, ofKind_append _ (N ++ [a]) G, kinds]
  · push Not at sweeping
    have unchanged : ∀ m ∈ D, U.collectAt (U.startState (W.allPool progressionNames)) m =
        U.startState (W.allPool progressionNames) :=
      fun m member => U.collectAt_of_not_sweeping _ (sweeping m member)
    rw [← List.append_nil D] at collected
    obtain ⟨reached, -⟩ := collected.append_of_same unchanged
    exact ⟨D, perm, rfl,
      inTurn_of_start (fun m member => (U.canReach_startState m).1 (reached m member)) []⟩

/-- Where one order is sound, every order that begins with a moon that makes the state
sweep can be built. -/
theorem collected_of_sweeping {G R : List Loc} {a : Loc}
    (permG : G.Perm (W.allPool progressionNames))
    (turn : InTurn (W.ReachableAfter progressionNames) [] G)
    (start : W.ReachableAtStart progressionNames a) (sweeps : U.Sweeping a)
    (perm : (a :: R).Perm (W.allPool progressionNames)) :
    Collected (fun s l => W.canReach s.held l) U.collectAt
      (U.startState (W.allPool progressionNames)) (a :: R) := by
  have all : AllSwept (W := W) (U.collectAt (U.startState (W.allPool progressionNames)) a) :=
    U.allSwept_collectAt U.startState_enough sweeps
  have distinct : G.Nodup := permG.nodup_iff.2 Filled.nodup_allPool
  have reaches := all.reaches (show ([] ++ G).Nodup from distinct) permG.subset
    (fun l member => absurd member List.not_mem_nil) turn
  refine ⟨(U.canReach_startState a).2 start, U.collected_of_reachable fun m member => ?_⟩
  exact reaches m (permG.mem_iff.2 (perm.mem_iff.1 (List.mem_cons_of_mem a member)))

/-- The orders of the kingdoms that are returned are sound for all choices exactly if the
kingdoms leave enough open. -/
theorem sound_iff_kingdomsFree
    (returns : ∃ rng orders, U.buildTalkatooOrder progressionNames rng = some orders) :
    (∀ rng orders, U.buildTalkatooOrder progressionNames rng = some orders →
        W.Sound progressionNames orders) ↔ U.KingdomsFree progressionNames := by
  constructor
  · intro sound a inPool start sweeps P Q split here left
    obtain ⟨rng, orders, run⟩ := returns
    obtain ⟨G₀, perm₀, -, turn₀⟩ := sound rng orders run
    -- Take the first moon, the others of `P`, then what `P` does not open, then the rest.
    classical
    let opened : Loc → Bool := fun m => decide (W.ReachableAfter progressionNames P m)
    have front : (a :: P.erase a).Perm P := (List.perm_cons_erase here).symm
    have parts : (Q.filter (fun m => !opened m) ++ Q.filter opened).Perm Q :=
      List.perm_append_comm.trans (List.filter_append_perm opened Q)
    have perm : (a :: (P.erase a ++ (Q.filter (fun m => !opened m) ++ Q.filter opened))).Perm
        (W.allPool progressionNames) :=
      (front.append parts).trans split
    obtain ⟨rng, run⟩ := (U.buildTalkatooOrder_iff _).2
      ⟨_, ⟨perm, collected_of_sweeping perm₀ turn₀ start sweeps perm⟩, rfl⟩
    obtain ⟨G, permG, same, turn⟩ := sound rng _ run
    have kinds := (Filled.restrictions_eq_iff perm.subset permG.subset).1 same
    have split' : (a :: P.erase a ++ Q).Perm (W.allPool progressionNames) :=
      (front.append_right Q).trans split
    have P_distinct : P.Nodup := (split.nodup_iff.2 Filled.nodup_allPool).of_append_left
    have same_reach (m : Loc) : W.ReachableAfter progressionNames (a :: P.erase a) m ↔
        W.ReachableAfter progressionNames P m :=
      ⟨Filled.ReachableAfter.mono (front.nodup_iff.2 P_distinct) front.subset,
        Filled.ReachableAfter.mono P_distinct front.symm.subset⟩
    have free : Free (W.kingdom progressionNames) (W.ReachableAfter progressionNames)
        (a :: P.erase a) Q := by
      refine free_of_interleaving _ Filled.nodup_allPool Filled.ReachableAfter.mono split' left
        permG turn parts (fun m member => ?_) (fun m member => ?_) fun k => (kinds k).symm
      · simpa [opened, same_reach] using (List.mem_filter.1 member).2
      · simpa [opened, same_reach] using (List.mem_filter.1 member).2
    obtain ⟨m, member, all_good⟩ := free
    exact ⟨m, member, fun m' member' kind => (same_reach m').1 (all_good m' member' kind)⟩
  · intro free rng orders run
    obtain ⟨D, ⟨perm, collected⟩, rfl⟩ := (U.buildTalkatooOrder_iff orders).1 ⟨rng, run⟩
    exact free.sound perm collected

/-! ## Three moons of one kingdom -/

variable (W) in
/-- An upstream that sweeps after advancement items and takes the first location that it reaches. -/
def closing : Upstream W where
  sweepForAdvancements s places :=
    let T := close W.rules (places.filter (· ∉ s.advancements)) s.held places.length []
    ⟨s.held + gained W.advItem T, T ++ s.advancements⟩
  sweepsAfter := W.advancement
  sweeps_advancement _ adv := adv
  sweeps s places := by
    have course := close_course (R := W.rules) (n := places.length)
      (.nil : Course W.rules {l | l ∈ places.filter (· ∉ s.advancements) ∧ (W.rules.item l).isSome}
        s.held [])
    have swept := close_swept (n := places.length)
      (.nil : Course W.rules {l | l ∈ places.filter (· ∉ s.advancements) ∧ (W.rules.item l).isSome}
        s.held []) (List.length_filter_le _ _)
    refine ⟨_, course.mono ?_ le_rfl, rfl, ?_⟩
    · intro l member
      obtain ⟨listed, fresh⟩ := List.mem_filter.1 member.1
      exact ⟨listed, of_decide_eq_true fresh⟩
    · intro l listed some_item reached
      by_cases taken : l ∈ s.advancements
      · exact List.mem_append_right _ taken
      · refine List.mem_append_left _ (swept l ?_ some_item reached)
        exact List.mem_filter.2 ⟨listed, decide_eq_true taken⟩

/-- The first moon is free and holds the key of the third, which holds the key of the second. -/
def threeMoons : Filled (Fin 3) (Fin 2) where
  locations := [0, 1, 2]
  mine _ := true
  name l := ["Cap: A", "Cap: B", "Cap: C"].get l
  placed l := [some 0, none, some 1].get l
  itemName _ := "Key"
  advancement _ := true
  canReach held l := [true, decide (1 ∈ held), decide (0 ∈ held)].get l
  precollected := 0
  distinct := by decide
  mono := by
    intro h h' l le reached
    fin_cases l
    · rfl
    · exact decide_eq_true (Multiset.mem_of_le le (of_decide_eq_true reached))
    · exact decide_eq_true (Multiset.mem_of_le le (of_decide_eq_true reached))
  shines := by
    intro l _ l' _ _ _ moon split split'
    have apart : ∀ m m' : Fin 3,
        splitKingdomPrefix (["Cap: A", "Cap: B", "Cap: C"].get m) =
          splitKingdomPrefix (["Cap: A", "Cap: B", "Cap: C"].get m') → m = m' := by
      decide +kernel
    exact apart l l' (split.trans split'.symm)

theorem threeMoons_pool : threeMoons.allPool [] = [0, 1, 2] := by decide +kernel

/-- The key of the first moon makes the state sweep the third, and the second is reachable. -/
theorem threeMoons_run : ∃ rng, (closing threeMoons).buildTalkatooOrder [] rng =
    some (threeMoons.restrictions [] [0, 1, 2]) := by
  refine (buildTalkatooOrder_iff _ _).2 ⟨[0, 1, 2], ⟨?_, ?_, ?_, ?_, trivial⟩, rfl⟩
  · rw [threeMoons_pool]
  · decide +kernel
  · decide +kernel
  · decide +kernel

/-- The second moon comes before the third, whose key it needs. -/
theorem threeMoons_unsound : ∃ rng orders,
    (closing threeMoons).buildTalkatooOrder [] rng = some orders ∧ ¬ threeMoons.Sound [] orders := by
  obtain ⟨rng, run⟩ := threeMoons_run
  refine ⟨rng, _, run, ?_⟩
  rintro ⟨G, perm, same, turn⟩
  have pool : ([0, 1, 2] : List (Fin 3)) ⊆ threeMoons.allPool [] := by
    rw [threeMoons_pool]
    exact List.Subset.refl _
  have in_cap (l : Fin 3) : threeMoons.kingdom [] l = some "Cap" := by
    revert l
    decide +kernel
  have order : [0, 1, 2] = G := by
    have kinds := (Filled.restrictions_eq_iff pool perm.subset).1 same (some "Cap")
    rw [ofKind, ofKind, List.filter_eq_self.2 fun l _ => decide_eq_true (in_cap l),
      List.filter_eq_self.2 fun l _ => decide_eq_true (in_cap l)] at kinds
    exact kinds
  subst order
  obtain ⟨T, course, reached⟩ := turn.2.1
  cases T with
  | nil => exact absurd reached (by decide +kernel)
  | cons l T =>
      have outside := course.mem l List.mem_cons_self
      have every (m : Fin 3) : m ∈ threeMoons.allPool [] := by
        rw [threeMoons_pool]
        revert m
        decide
      exact outside.2 (every l)

theorem threeMoons_iff :
    (∀ rng orders, (closing threeMoons).buildTalkatooOrder [] rng = some orders →
        threeMoons.Sound [] orders) ↔ (closing threeMoons).KingdomsFree [] :=
  sound_iff_kingdomsFree (threeMoons_run.imp fun _ run => ⟨_, run⟩)

end Upstream

end SmoArchipelago.World
