import SmoArchipelago.Library.Dict

/-! # Kingdom gates and the moons that stay progression

Each gated kingdom asks for a number of effective moons before it can be left. The gates
may be rolled for a seed; afterwards the moons that no gate needs are demoted to filler.

## Implementation notes

The random source answers its calls by number. A requirement is kept as its clauses: the
alternatives of item names with the counts that they ask for. -/

namespace SmoArchipelago.World

open Library

inductive ItemClassification where
  | filler
  | progression
  | useful
  | trap
  | progressionSkipBalancing
  deriving DecidableEq

/-- An item of the pool of one player. -/
structure Item where
  name : String
  classification : ItemClassification
  deriving DecidableEq

def Item.advancement (it : Item) : Bool :=
  it.classification = .progression || it.classification = .progressionSkipBalancing

def powerMoon (kingdom : String) : String := kingdom ++ " Kingdom Power Moon"

def multiMoon (kingdom : String) : String := kingdom ++ " Kingdom Multi-Moon"

/-- `KINGDOM_MOON_GATES`. -/
def kingdomMoonGates : Dict String ℕ where
  entries := [("Cascade", 5), ("Sand", 16), ("Lake", 8), ("Wooded", 16), ("Lost", 10),
    ("Metro", 20), ("Snow", 10), ("Seaside", 10), ("Luncheon", 18), ("Ruined", 3),
    ("Bowser's", 8)]
  distinct := by decide

/-! ## Rolling the gates -/

/-- `randint`, by the number of its call; the answer is between the bounds. -/
structure Random where
  randint : ℕ → ℕ → ℕ → ℕ
  mem : ∀ call lo hi, lo ≤ hi → lo ≤ randint call lo hi ∧ randint call lo hi ≤ hi

/-- The source that always answers the lower bound. -/
instance : Inhabited Random := ⟨⟨fun _ lo _ => lo, fun _ _ _ le => ⟨le_rfl, le⟩⟩⟩

def gateRandomizeSpread : ℕ := 5

def walkStepsPerKingdom : ℕ := 16

def countName (name : String) (pool : List Item) : ℕ := pool.countP (·.name = name)

/-- `pool_gate_capacities`. -/
def poolGateCapacities (pool : List Item) (kingdoms : List String) : Dict String ℕ :=
  kingdoms.foldl
    (fun caps kingdom => caps.set kingdom
      (3 * countName (multiMoon kingdom) pool + countName (powerMoon kingdom) pool))
    .empty

/-- The tables that `roll_kingdom_gates` builds up. -/
structure GateRoll where
  lo : Dict String ℕ := .empty
  hi : Dict String ℕ := .empty
  value : Dict String ℕ := .empty
  walkers : List String := []

/-- The bounds of one gate; a gate that its capacity pins below them takes no part. -/
def GateRoll.enter (capacities : Dict String ℕ) (r : GateRoll) (gate : String × ℕ) : GateRoll :=
  let lo := max 1 (gate.2 - gateRandomizeSpread)
  let hi :=
    match capacities.get? gate.1 with
    | some cap => min (gate.2 + gateRandomizeSpread) cap
    | none => gate.2 + gateRandomizeSpread
  if hi < lo then { r with value := r.value.set gate.1 (max 1 hi) }
  else
    { lo := r.lo.set gate.1 lo
      hi := r.hi.set gate.1 hi
      value := r.value.set gate.1 (if lo ≤ gate.2 ∧ gate.2 ≤ hi then gate.2 else hi)
      walkers := r.walkers ++ [gate.1] }

/-- One step of the walk: a moon of requirement goes from one kingdom to another. -/
def GateRoll.transfer (rng : Random) (r : GateRoll) (i : ℕ) : GateRoll :=
  let a := r.walkers.getD (rng.randint (2 * i) 0 (r.walkers.length - 1)) ""
  let b := r.walkers.getD (rng.randint (2 * i + 1) 0 (r.walkers.length - 1)) ""
  if a = b then r
  else if r.value.getD a 0 < r.hi.getD a 0 ∧ r.lo.getD b 0 < r.value.getD b 0 then
    let raised := r.value.set a (r.value.getD a 0 + 1)
    { r with value := raised.set b (raised.getD b 0 - 1) }
  else r

/-- `roll_kingdom_gates`. -/
def rollKingdomGates (rng : Random) (baseGates capacities : Dict String ℕ) : Dict String ℕ :=
  let r := baseGates.entries.foldl (GateRoll.enter capacities) {}
  if 2 ≤ r.walkers.length then
    ((List.range (walkStepsPerKingdom * r.walkers.length)).foldl (GateRoll.transfer rng) r).value
  else r.value

/-! ## Demoting the surplus -/

/-- The progression items of a name. -/
def progCount (name : String) (pool : List Item) : ℕ :=
  pool.countP fun it => it.name = name && it.classification = .progression

/-- Keep the first progression items of a name, and demote the others. -/
def demoteAfter (name : String) : ℕ → List Item → List Item
  | _, [] => []
  | keep, it :: rest =>
      if it.name = name ∧ it.classification = .progression then
        match keep with
        | 0 => { it with classification := .filler } :: demoteAfter name 0 rest
        | keep + 1 => it :: demoteAfter name keep rest
      else it :: demoteAfter name keep rest

/-- How many Multi-Moons and Power Moons stay progression. -/
def keptMoons (preferDemotingMultimoons : Bool) (threshold mms pms : ℕ) : ℕ × ℕ :=
  if preferDemotingMultimoons then
    let pmsKept := min pms threshold
    let remainder := threshold - pmsKept
    (if 0 < remainder then min mms ((remainder + 2) / 3) else 0, pmsKept)
  else
    let mmsKept := min mms (threshold / 3)
    (mmsKept, min pms (threshold - 3 * mmsKept))

/-- One gate of `_demote_surplus_kingdom_moons`; Ruined is exempt. -/
def demoteKingdom (prefer : Bool) (pool : List Item) (gate : String × ℕ) : List Item :=
  if gate.1 = "Ruined" then pool
  else
    let kept := keptMoons prefer gate.2 (progCount (multiMoon gate.1) pool)
      (progCount (powerMoon gate.1) pool)
    demoteAfter (powerMoon gate.1) kept.2 (demoteAfter (multiMoon gate.1) kept.1 pool)

/-- `_demote_surplus_kingdom_moons`. -/
def demoteSurplusKingdomMoons (pool : List Item) (gates : Dict String ℕ) (prefer : Bool) :
    List Item :=
  gates.entries.foldl (demoteKingdom prefer) pool

/-- `_demote_mobility_only_abilities`, with the copies of Progressive Crouch so far. -/
def demoteMobilityOnlyAbilities : ℕ → List Item → List Item
  | _, [] => []
  | kept, it :: rest =>
      if ¬ it.advancement then it :: demoteMobilityOnlyAbilities kept rest
      else if it.name = "Spin Throw" ∨ it.name = "Ledge Grab" then
        { it with classification := .useful } :: demoteMobilityOnlyAbilities kept rest
      else if it.name = "Progressive Crouch" then
        (if 1 < kept + 1 then { it with classification := .useful } else it) ::
          demoteMobilityOnlyAbilities (kept + 1) rest
      else it :: demoteMobilityOnlyAbilities kept rest

/-- The pool after `after_create_items`, and the rolled gates where they are rolled. -/
structure CreatedItems where
  pool : List Item
  rolledKingdomGates : Option (Dict String ℕ)

/-- `after_create_items`. -/
def afterCreateItems (randomizeKingdomGates multiMoonShuffle : Bool) (rng : Random)
    (pool : List Item) : CreatedItems :=
  let rolled :=
    if randomizeKingdomGates then
      some (rollKingdomGates rng kingdomMoonGates
        (poolGateCapacities pool kingdomMoonGates.keys))
    else none
  { pool := demoteMobilityOnlyAbilities 0
      (demoteSurplusKingdomMoons pool (rolled.getD kingdomMoonGates) multiMoonShuffle)
    rolledKingdomGates := rolled }

/-! ## The gate as a requirement -/

/-- What `KingdomMoons` returns: a truth value, or alternatives of item counts. -/
inductive Requirement where
  | always
  | never
  | anyOf (clauses : List (List (String × ℕ)))

/-- A requirement in a state that holds so many items of each name. -/
def Requirement.eval (held : String → ℕ) : Requirement → Bool
  | always => true
  | never => false
  | anyOf clauses => clauses.any fun clause => clause.all fun item => item.2 ≤ held item.1

/-- The loop of `KingdomMoons` over the counts of Multi-Moons; `none` where it returns. -/
def kingdomClauses (kingdom : String) (n pmPool : ℕ) : List ℕ → Option (List (List (String × ℕ)))
  | [] => some []
  | mm :: mms =>
      let pmNeeded := n - 3 * mm
      if pmPool < pmNeeded then kingdomClauses kingdom n pmPool mms
      else
        let sub := (if 0 < mm then [(multiMoon kingdom, mm)] else []) ++
          if 0 < pmNeeded then [(powerMoon kingdom, pmNeeded)] else []
        if sub = [] then none else (kingdomClauses kingdom n pmPool mms).map (sub :: ·)

/-- `KingdomMoons`, for a pool that has so many items of each name. -/
def kingdomMoons (rolled : Option (Dict String ℕ)) (itemsCounts : String → ℕ) (kingdom : String)
    (n : ℤ) : Requirement :=
  let n : ℤ := ((rolled.bind (·.get? kingdom)).map fun gate : ℕ => (gate : ℤ)).getD n
  if n ≤ 0 then .always
  else
    match kingdomClauses kingdom n.toNat (itemsCounts (powerMoon kingdom))
      (List.range (itemsCounts (multiMoon kingdom) + 1)) with
    | none => .always
    | some [] => .never
    | some clauses => .anyOf clauses

/-! ## The names of the moons -/

theorem powerMoon_inj {kingdom kingdom' : String} (h : powerMoon kingdom = powerMoon kingdom') :
    kingdom = kingdom' := by
  have lists := congrArg String.toList h
  simp only [powerMoon, String.toList_append] at lists
  exact String.ext (List.append_cancel_right lists)

theorem multiMoon_inj {kingdom kingdom' : String} (h : multiMoon kingdom = multiMoon kingdom') :
    kingdom = kingdom' := by
  have lists := congrArg String.toList h
  simp only [multiMoon, String.toList_append] at lists
  exact String.ext (List.append_cancel_right lists)

/-- The names end differently. -/
theorem append_ne {suffix suffix' : String} {n : ℕ}
    (differ : suffix.toList.reverse[n]? ≠ suffix'.toList.reverse[n]?)
    (long : n < suffix.toList.length) (long' : n < suffix'.toList.length) (a b : String) :
    a ++ suffix ≠ b ++ suffix' := by
  intro h
  have lists := congrArg (fun s => s.toList.reverse[n]?) h
  simp only [String.toList_append, List.reverse_append] at lists
  rw [List.getElem?_append_left (by rwa [List.length_reverse]),
    List.getElem?_append_left (by rwa [List.length_reverse])] at lists
  exact differ lists

theorem powerMoon_ne_multiMoon (kingdom kingdom' : String) :
    powerMoon kingdom ≠ multiMoon kingdom' := by
  exact append_ne (n := 5) (by decide) (by decide) (by decide) kingdom kingdom'

/-- The moons of a gated kingdom. -/
def IsMoon (name : String) : Prop := ∃ kingdom, name = powerMoon kingdom ∨ name = multiMoon kingdom

/-! ## What is demoted -/

theorem progCount_cons (name : String) (it : Item) (rest : List Item) :
    progCount name (it :: rest) =
      progCount name rest + if it.name = name ∧ it.classification = .progression then 1 else 0 := by
  simp only [progCount, List.countP_cons, Bool.and_eq_true, decide_eq_true_eq]

/-- The items that stay progression are the kept ones. -/
theorem progCount_demoteAfter (name : String) (keep : ℕ) (pool : List Item) :
    progCount name (demoteAfter name keep pool) = min keep (progCount name pool) := by
  induction pool generalizing keep with
  | nil => exact (Nat.min_zero keep).symm
  | cons it rest ih =>
      unfold demoteAfter
      split_ifs with prog
      · cases keep with
        | zero =>
            have demoted : ¬ (it.name = name ∧ ItemClassification.filler = .progression) :=
              fun h => ItemClassification.noConfusion h.2
            simp only [progCount_cons, if_neg demoted, ih]
            omega
        | succ keep =>
            simp only [progCount_cons, if_pos prog, ih]
            omega
      · simp only [progCount_cons, if_neg prog, ih, Nat.add_zero]

theorem progCount_demoteAfter_of_ne {name name' : String} (other : name' ≠ name) (keep : ℕ)
    (pool : List Item) : progCount name' (demoteAfter name keep pool) = progCount name' pool := by
  induction pool generalizing keep with
  | nil => rfl
  | cons it rest ih =>
      unfold demoteAfter
      split_ifs with prog
      · have not_it : it.name ≠ name' := fun same => other (same.symm.trans prog.1)
        cases keep with
        | zero => simp only [progCount_cons, ih, not_it, false_and, if_false]
        | succ keep => simp only [progCount_cons, ih]
      · simp only [progCount_cons, ih]

theorem progCount_demoteKingdom_of_ne (prefer : Bool) (pool : List Item) {gate : String × ℕ}
    {kingdom : String} (other : kingdom ≠ gate.1) :
    progCount (multiMoon kingdom) (demoteKingdom prefer pool gate) =
        progCount (multiMoon kingdom) pool ∧
      progCount (powerMoon kingdom) (demoteKingdom prefer pool gate) =
        progCount (powerMoon kingdom) pool := by
  have multi : multiMoon kingdom ≠ multiMoon gate.1 := fun same => other (multiMoon_inj same)
  have power : powerMoon kingdom ≠ powerMoon gate.1 := fun same => other (powerMoon_inj same)
  unfold demoteKingdom
  split_ifs
  · exact ⟨rfl, rfl⟩
  · simp only [progCount_demoteAfter_of_ne (powerMoon_ne_multiMoon _ _).symm,
      progCount_demoteAfter_of_ne (powerMoon_ne_multiMoon _ _),
      progCount_demoteAfter_of_ne multi, progCount_demoteAfter_of_ne power, and_self]

/-- The counts of Multi-Moons and Power Moons that a gate leaves progression. -/
def leftMoons (prefer : Bool) (gate : String × ℕ) (mms pms : ℕ) : ℕ × ℕ :=
  if gate.1 = "Ruined" then (mms, pms) else keptMoons prefer gate.2 mms pms

theorem keptMoons_le (prefer : Bool) (threshold mms pms : ℕ) :
    (keptMoons prefer threshold mms pms).1 ≤ mms ∧ (keptMoons prefer threshold mms pms).2 ≤ pms := by
  cases prefer with
  | true =>
      simp only [keptMoons, if_true]
      split_ifs
      · omega
      · omega
  | false =>
      simp only [keptMoons, Bool.false_eq_true, if_false]
      omega

theorem progCount_demoteKingdom (prefer : Bool) (pool : List Item) (gate : String × ℕ) :
    (progCount (multiMoon gate.1) (demoteKingdom prefer pool gate),
        progCount (powerMoon gate.1) (demoteKingdom prefer pool gate)) =
      leftMoons prefer gate (progCount (multiMoon gate.1) pool)
        (progCount (powerMoon gate.1) pool) := by
  unfold demoteKingdom leftMoons
  split_ifs
  · rfl
  · have le := keptMoons_le prefer gate.2 (progCount (multiMoon gate.1) pool)
      (progCount (powerMoon gate.1) pool)
    simp only [progCount_demoteAfter, progCount_demoteAfter_of_ne (powerMoon_ne_multiMoon _ _),
      progCount_demoteAfter_of_ne (powerMoon_ne_multiMoon _ _).symm, Nat.min_eq_left le.1,
      Nat.min_eq_left le.2]

/-- The gates that come before and after leave the moons of a kingdom alone. -/
theorem progCount_foldl_of_not_mem (prefer : Bool) {kingdom : String}
    {entries : List (String × ℕ)} (absent : kingdom ∉ entries.map Prod.fst) (pool : List Item) :
    progCount (multiMoon kingdom) (entries.foldl (demoteKingdom prefer) pool) =
        progCount (multiMoon kingdom) pool ∧
      progCount (powerMoon kingdom) (entries.foldl (demoteKingdom prefer) pool) =
        progCount (powerMoon kingdom) pool := by
  induction entries generalizing pool with
  | nil => exact ⟨rfl, rfl⟩
  | cons gate rest ih =>
      simp only [List.map_cons, List.mem_cons, not_or] at absent
      have first := progCount_demoteKingdom_of_ne prefer pool absent.1
      have later := ih absent.2 (demoteKingdom prefer pool gate)
      exact ⟨later.1.trans first.1, later.2.trans first.2⟩

/-- What stays progression of the moons of a gated kingdom. -/
theorem progCount_demoteSurplus (pool : List Item) (gates : Dict String ℕ) (prefer : Bool)
    {gate : String × ℕ} (h : gate ∈ gates.entries) :
    (progCount (multiMoon gate.1) (demoteSurplusKingdomMoons pool gates prefer),
        progCount (powerMoon gate.1) (demoteSurplusKingdomMoons pool gates prefer)) =
      leftMoons prefer gate (progCount (multiMoon gate.1) pool)
        (progCount (powerMoon gate.1) pool) := by
  unfold demoteSurplusKingdomMoons
  have distinct := gates.distinct
  generalize gates.entries = entries at h distinct
  induction entries generalizing pool with
  | nil => exact absurd h List.not_mem_nil
  | cons first rest ih =>
      obtain ⟨absent, distinct⟩ := List.nodup_cons.1 distinct
      rw [List.foldl_cons]
      rcases List.mem_cons.1 h with rfl | later
      · have others := progCount_foldl_of_not_mem prefer absent (demoteKingdom prefer pool gate)
        rw [others.1, others.2, progCount_demoteKingdom]
      · have other : gate.1 ≠ first.1 := by
          intro same
          exact absent (same ▸ List.mem_map_of_mem later)
        have same := progCount_demoteKingdom_of_ne prefer pool other
        rw [ih _ later distinct, same.1, same.2]

/-- The abilities that are demoted are no moons. -/
theorem progCount_demoteMobility {name : String} (moon : IsMoon name) (kept : ℕ)
    (pool : List Item) :
    progCount name (demoteMobilityOnlyAbilities kept pool) = progCount name pool := by
  have apart (ability : String) (last : ability.toList.getLast? ≠ some 'n') : ability ≠ name := by
    rintro rfl
    obtain ⟨kingdom, power | multi⟩ := moon
    · rw [power, powerMoon, String.toList_append] at last
      exact last (by simp)
    · rw [multi, multiMoon, String.toList_append] at last
      exact last (by simp)
  induction pool generalizing kept with
  | nil => rfl
  | cons it rest ih =>
      unfold demoteMobilityOnlyAbilities
      split_ifs with advances mobility crouch copies
      · have not_moon : it.name ≠ name := by
          rcases mobility with spin | ledge
          · exact spin ▸ apart "Spin Throw" (by decide)
          · exact ledge ▸ apart "Ledge Grab" (by decide)
        simp only [progCount_cons, ih, not_moon, false_and, if_false]
      · have not_moon : it.name ≠ name := crouch ▸ apart "Progressive Crouch" (by decide)
        simp only [progCount_cons, ih, not_moon, false_and, if_false]
      · simp only [progCount_cons, ih]
      · simp only [progCount_cons, ih]
      · simp only [progCount_cons, ih]

/-- Power Moons first always covers a gate that the pool covers; Multi-Moons first rounds
down, and then needs the Power Moons of the remainder. -/
theorem leftMoons_covers_iff (prefer : Bool) (gate : String × ℕ) {mms pms : ℕ}
    (capacity : gate.2 ≤ 3 * mms + pms) :
    gate.2 ≤ 3 * (leftMoons prefer gate mms pms).1 + (leftMoons prefer gate mms pms).2 ↔
      gate.1 = "Ruined" ∨ prefer = true ∨ mms ≤ gate.2 / 3 ∨ gate.2 % 3 ≤ pms := by
  unfold leftMoons
  by_cases ruined : gate.1 = "Ruined"
  · simp only [ruined, if_true, true_or, iff_true]
    exact capacity
  · simp only [ruined, if_false, false_or]
    cases prefer with
    | true =>
        simp only [keptMoons, if_true, true_or, iff_true]
        split_ifs
        · omega
        · omega
    | false =>
        simp only [keptMoons, Bool.false_eq_true, if_false, false_or]
        omega

/-! ## When the requirement holds -/

/-- No clause is empty, and one holds when its counts are held. -/
theorem kingdomClauses_eval (kingdom : String) {n : ℕ} (positive : 0 < n) (pmPool : ℕ)
    (held : String → ℕ) (mms : List ℕ) :
    ∃ clauses, kingdomClauses kingdom n pmPool mms = some clauses ∧
      ((Requirement.anyOf clauses).eval held = true ↔
        ∃ mm ∈ mms, n - 3 * mm ≤ pmPool ∧ mm ≤ held (multiMoon kingdom) ∧
          n - 3 * mm ≤ held (powerMoon kingdom)) := by
  induction mms with
  | nil =>
      refine ⟨[], rfl, ?_⟩
      constructor
      · exact fun h => absurd h Bool.false_ne_true
      · rintro ⟨mm, member, -⟩
        exact absurd member List.not_mem_nil
  | cons mm mms ih =>
      obtain ⟨clauses, found, holds⟩ := ih
      simp only [kingdomClauses]
      by_cases lacking : pmPool < n - 3 * mm
      · refine ⟨clauses, by rw [if_pos lacking, found], ?_⟩
        simp only [holds, List.mem_cons, exists_eq_or_imp, lacking.not_ge, false_and, false_or]
      · have some_item : (if 0 < mm then [(multiMoon kingdom, mm)] else []) ++
            (if 0 < n - 3 * mm then [(powerMoon kingdom, n - 3 * mm)] else []) ≠ [] := by
          by_cases multi : 0 < mm
          · simp [multi]
          · have power : 0 < n - 3 * mm := by omega
            simp [power]
        refine ⟨_, by rw [if_neg lacking, if_neg some_item, found, Option.map_some], ?_⟩
        have clause : (((if 0 < mm then [(multiMoon kingdom, mm)] else []) ++
              (if 0 < n - 3 * mm then [(powerMoon kingdom, n - 3 * mm)] else [])).all
                fun item => item.2 ≤ held item.1) = true ↔
            mm ≤ held (multiMoon kingdom) ∧ n - 3 * mm ≤ held (powerMoon kingdom) := by
          rw [List.all_append, Bool.and_eq_true]
          apply and_congr
          · split_ifs with multi
            · simp
            · simp only [List.all_nil, true_iff]
              omega
          · split_ifs with power
            · simp
            · simp only [List.all_nil, true_iff]
              omega
        simp only [Requirement.eval, List.any_cons, Bool.or_eq_true, clause] at holds ⊢
        simp only [holds, List.mem_cons, exists_eq_or_imp]
        have enough : n - 3 * mm ≤ pmPool := by omega
        simp only [enough, true_and]

/-- A state with no more moons than the pool satisfies the requirement exactly when its
effective moons reach the gate. -/
theorem kingdomMoons_eval (rolled : Option (Dict String ℕ)) (itemsCounts held : String → ℕ)
    {kingdom : String} {gate : ℕ} (same : ∀ g ∈ rolled.bind (·.get? kingdom), g = gate)
    (multi : held (multiMoon kingdom) ≤ itemsCounts (multiMoon kingdom))
    (power : held (powerMoon kingdom) ≤ itemsCounts (powerMoon kingdom)) :
    (kingdomMoons rolled itemsCounts kingdom gate).eval held = true ↔
      gate ≤ 3 * held (multiMoon kingdom) + held (powerMoon kingdom) := by
  have effective : ((rolled.bind (·.get? kingdom)).map fun gate : ℕ => (gate : ℤ)).getD (gate : ℤ) =
      gate := by
    cases entry : rolled.bind (·.get? kingdom) with
    | none => rfl
    | some g => rw [same g entry, Option.map_some, Option.getD_some]
  simp only [kingdomMoons, effective]
  by_cases zero : gate = 0
  · subst zero
    exact iff_of_true rfl (Nat.zero_le _)
  · have positive : 0 < gate := Nat.pos_of_ne_zero zero
    rw [if_neg (by omega), Int.toNat_natCast]
    obtain ⟨clauses, found, holds⟩ := kingdomClauses_eval kingdom positive
      (itemsCounts (powerMoon kingdom)) held (List.range (itemsCounts (multiMoon kingdom) + 1))
    have some_mm : (∃ mm ∈ List.range (itemsCounts (multiMoon kingdom) + 1),
        gate - 3 * mm ≤ itemsCounts (powerMoon kingdom) ∧ mm ≤ held (multiMoon kingdom) ∧
          gate - 3 * mm ≤ held (powerMoon kingdom)) ↔
        gate ≤ 3 * held (multiMoon kingdom) + held (powerMoon kingdom) := by
      constructor
      · rintro ⟨mm, -, -, few, enough⟩
        omega
      · intro covered
        refine ⟨held (multiMoon kingdom), List.mem_range.2 (by omega), ?_, le_rfl, ?_⟩
        · omega
        · omega
    rw [found, ← some_mm, ← holds]
    cases clauses with
    | nil => rfl
    | cons clause clauses => rfl

/-! ## The pool after `after_create_items` -/

section

variable (randomizeKingdomGates multiMoonShuffle : Bool) (rng : Random) (pool : List Item)

/-- The gates that the seed is played with. -/
def CreatedItems.gates (c : CreatedItems) : Dict String ℕ :=
  c.rolledKingdomGates.getD kingdomMoonGates

theorem progCount_le (name : String) (pool : List Item) : progCount name pool ≤ countName name pool :=
  List.countP_mono_left fun it _ h => by
    simp only [Bool.and_eq_true] at h
    exact h.1

theorem progCount_of_all {name : String} {pool : List Item}
    (all : ∀ it ∈ pool, it.name = name → it.classification = .progression) :
    progCount name pool = countName name pool := by
  apply List.countP_congr
  intro it member
  simp only [Bool.and_eq_true, decide_eq_true_eq, and_iff_left_iff_imp]
  exact all it member

variable {randomizeKingdomGates multiMoonShuffle rng pool}

/-- The moons that stay progression cover a gate that the pool covers, and then satisfy its
requirement, exactly where the exempt kingdom, Power Moons first, or enough Power Moons
for what Multi-Moons leave over make up for the rounding. -/
theorem demotion_covers_gate_iff
    (progression : ∀ it ∈ pool, IsMoon it.name → it.classification = .progression)
    {kingdom : String} {gate : ℕ}
    (isGate : (kingdom, gate) ∈
      (afterCreateItems randomizeKingdomGates multiMoonShuffle rng pool).gates.entries)
    (capacity : gate ≤ 3 * countName (multiMoon kingdom) pool + countName (powerMoon kingdom) pool) :
    let created := afterCreateItems randomizeKingdomGates multiMoonShuffle rng pool
    let kept := fun name => progCount name created.pool
    (gate ≤ 3 * kept (multiMoon kingdom) + kept (powerMoon kingdom) ∧
        (kingdomMoons created.rolledKingdomGates (fun name => countName name created.pool)
          kingdom gate).eval kept = true) ↔
      kingdom = "Ruined" ∨ multiMoonShuffle = true ∨
        countName (multiMoon kingdom) pool ≤ gate / 3 ∨
          gate % 3 ≤ countName (powerMoon kingdom) pool := by
  intro created kept
  have is_multi : IsMoon (multiMoon kingdom) := ⟨kingdom, .inr rfl⟩
  have is_power : IsMoon (powerMoon kingdom) := ⟨kingdom, .inl rfl⟩
  have left := progCount_demoteSurplus pool
    (afterCreateItems randomizeKingdomGates multiMoonShuffle rng pool).gates multiMoonShuffle isGate
  have all_multi : progCount (multiMoon kingdom) pool = countName (multiMoon kingdom) pool :=
    progCount_of_all fun it member named => progression it member (named ▸ is_multi)
  have all_power : progCount (powerMoon kingdom) pool = countName (powerMoon kingdom) pool :=
    progCount_of_all fun it member named => progression it member (named ▸ is_power)
  rw [all_multi, all_power, Prod.ext_iff] at left
  have kept_multi : kept (multiMoon kingdom) = (leftMoons multiMoonShuffle (kingdom, gate)
      (countName (multiMoon kingdom) pool) (countName (powerMoon kingdom) pool)).1 :=
    (progCount_demoteMobility is_multi 0 _).trans left.1
  have kept_power : kept (powerMoon kingdom) = (leftMoons multiMoonShuffle (kingdom, gate)
      (countName (multiMoon kingdom) pool) (countName (powerMoon kingdom) pool)).2 :=
    (progCount_demoteMobility is_power 0 _).trans left.2
  have same : ∀ g ∈ created.rolledKingdomGates.bind (·.get? kingdom), g = gate := by
    intro g rolled
    obtain ⟨gates, is_rolled, found⟩ := Option.bind_eq_some_iff.1 rolled
    have listed : (kingdom, gate) ∈ gates.entries := by
      have is_gates : created.gates = gates := by
        rw [CreatedItems.gates, is_rolled, Option.getD_some]
      rw [← is_gates]
      exact isGate
    exact Option.some.inj (found.symm.trans (Dict.get?_eq_some.2 listed))
  have requirement := kingdomMoons_eval created.rolledKingdomGates
    (fun name => countName name created.pool) kept same (progCount_le _ _) (progCount_le _ _)
  rw [requirement, and_self, kept_multi, kept_power]
  exact leftMoons_covers_iff multiMoonShuffle (kingdom, gate) capacity

/-- A pool with so many moons of one kingdom, all progression. -/
def moonsOf (kingdom : String) (mms pms : ℕ) : List Item :=
  List.replicate mms ⟨multiMoon kingdom, .progression⟩ ++
    List.replicate pms ⟨powerMoon kingdom, .progression⟩

theorem moonsOf_progression (kingdom : String) (mms pms : ℕ) :
    ∀ it ∈ moonsOf kingdom mms pms, IsMoon it.name → it.classification = .progression := by
  intro it member _
  rcases List.mem_append.1 member with multi | power
  · rw [List.eq_of_mem_replicate multi]
  · rw [List.eq_of_mem_replicate power]

/-- The vanilla gate of Cascade over a Multi-Moon and two Power Moons. -/
theorem demotion_covers_gate_cascade :
    let created := afterCreateItems false false default (moonsOf "Cascade" 1 2)
    let kept := fun name => progCount name created.pool
    5 ≤ 3 * kept (multiMoon "Cascade") + kept (powerMoon "Cascade") ∧
      (kingdomMoons created.rolledKingdomGates (fun name => countName name created.pool)
        "Cascade" 5).eval kept = true :=
  (demotion_covers_gate_iff (moonsOf_progression "Cascade" 1 2)
    (show ("Cascade", 5) ∈ (afterCreateItems false false default (moonsOf "Cascade" 1 2)).gates.entries
      by decide) (by decide)).2 (by decide)

/-- Of three Multi-Moons and a Power Moon of Lake, 10 effective moons, seven stay
progression for the gate of 8. -/
theorem demotion_uncovers_lake :
    let created := afterCreateItems false false default (moonsOf "Lake" 3 1)
    let kept := fun name => progCount name created.pool
    created.gates.get? "Lake" = some 8 ∧
      3 * countName (multiMoon "Lake") (moonsOf "Lake" 3 1) +
        countName (powerMoon "Lake") (moonsOf "Lake" 3 1) = 10 ∧
      3 * kept (multiMoon "Lake") + kept (powerMoon "Lake") = 7 ∧
      (kingdomMoons created.rolledKingdomGates (fun name => countName name created.pool)
        "Lake" 8).eval kept = false := by
  decide

end

end SmoArchipelago.World
