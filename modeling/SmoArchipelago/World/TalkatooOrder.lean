import SmoArchipelago.Bridge.DataPackage
import SmoArchipelago.Library.Dict
import SmoArchipelago.Library.Sweep
import SmoArchipelago.Library.Interleave

/-! # The Talkatoo order

The pool moons of a slot are put into one order by taking a reachable one at a time, and
the order is split by kingdom. An order is sound if each moon can be reached with what
comes before it; the state that answers what is reachable sweeps all locations each time
it collects.

## Implementation notes

Upstream keeps the advancement items that are held and the locations that were swept. Its
sweep is a parameter: it takes what it reaches among the given locations, and leaves
nothing there. The random source answers each choice with a number. -/

namespace SmoArchipelago.World

open Library Sweep

variable {Loc Item : Type}

/-! ## The locations of a slot -/

/-- The characters that `_LOC_PREFIX_RE` allows before the colon. -/
def prefixChar (c : Char) : Bool := c.isAlpha || c.toNat = 0x27 || c = ' '

/-- `_split_kingdom_prefix`: the kingdom and the shine id of a name, which is one line. -/
def splitKingdomPrefix (name : String) : Option (String × String) :=
  let kingdom := name.toList.takeWhile (· ≠ ':')
  match name.toList.drop kingdom.length with
  | [] => none
  | _ :: shine =>
      if kingdom ≠ [] ∧ kingdom.all prefixChar ∧ shine ≠ [] then
        some (Bridge.strip Bridge.isSpace (.ofList kingdom),
          Bridge.strip Bridge.isSpace (.ofList shine))
      else none

/-- The filled locations of a multiworld, as the generator of one slot sees them. The
location table of the slot names no shine of a kingdom twice. -/
structure Filled (Loc Item : Type) where
  locations : List Loc
  mine : Loc → Bool
  name : Loc → String
  placed : Loc → Option Item
  itemName : Item → String
  advancement : Item → Bool
  /-- What can be reached with the advancement items that are held. -/
  canReach : Multiset Item → Loc → Bool
  precollected : Multiset Item
  distinct : locations.Nodup
  mono : ∀ {h h' : Multiset Item} {l : Loc}, h ≤ h' → canReach h l = true → canReach h' l = true
  shines : ∀ l ∈ locations, ∀ l' ∈ locations, mine l = true → mine l' = true → ∀ moon,
    splitKingdomPrefix (name l) = some moon → splitKingdomPrefix (name l') = some moon → l = l'

namespace Filled

variable (W : Filled Loc Item) (progressionNames : List String)

/-- The advancement item at a location. -/
def advItem (l : Loc) : Option Item := (W.placed l).filter W.advancement

def rules : Rules Loc Item := ⟨W.advItem, W.canReach, W.mono⟩

/-- The kingdom and the shine id of a pool moon. -/
def poolMoon (l : Loc) : Option (String × String) :=
  if W.mine l ∧ W.name l ∉ progressionNames ∧
      (W.placed l).map W.itemName ≠ some "__Victory__" then
    (splitKingdomPrefix (W.name l)).filter (·.1 ≠ "Capture")
  else none

def kingdom (l : Loc) : Option String := (W.poolMoon progressionNames l).map Prod.fst

/-- `collect_pool_per_kingdom`. -/
def collectPoolPerKingdom : Dict String (List Loc) :=
  .group (W.kingdom progressionNames) W.locations

/-- All pool moons, kingdom by kingdom. -/
def allPool : List Loc := (W.collectPoolPerKingdom progressionNames).values.flatten

variable {W progressionNames}

theorem mem_allPool {l : Loc} :
    l ∈ W.allPool progressionNames ↔ l ∈ W.locations ∧ ∃ moon, W.poolMoon progressionNames l = some moon := by
  rw [allPool, collectPoolPerKingdom, Dict.mem_values_group, kingdom, Option.isSome_map,
    Option.isSome_iff_exists]

theorem nodup_allPool : (W.allPool progressionNames).Nodup :=
  Dict.nodup_values_group _ W.distinct

theorem mem_kingdoms {k : String} :
    k ∈ (W.collectPoolPerKingdom progressionNames).keys ↔
      ∃ l ∈ W.allPool progressionNames, W.kingdom progressionNames l = some k := by
  rw [collectPoolPerKingdom, Dict.mem_keys_group]
  apply exists_congr
  intro l
  constructor
  · rintro ⟨listed, here⟩
    obtain ⟨moon, found, -⟩ := Option.map_eq_some_iff.1 here
    exact ⟨mem_allPool.2 ⟨listed, moon, found⟩, here⟩
  · rintro ⟨inPool, here⟩
    exact ⟨(mem_allPool.1 inPool).1, here⟩

theorem poolMoon_mine {l : Loc} {moon : String × String}
    (h : W.poolMoon progressionNames l = some moon) :
    W.mine l = true ∧ splitKingdomPrefix (W.name l) = some moon := by
  unfold poolMoon at h
  split_ifs at h with listed
  exact ⟨listed.1, (Option.filter_eq_some_iff.1 h).1⟩

/-- A pool moon is told by its kingdom and its shine id. -/
theorem poolMoon_injective {l l' : Loc} (inPool : l ∈ W.allPool progressionNames)
    (inPool' : l' ∈ W.allPool progressionNames)
    (same : W.poolMoon progressionNames l = W.poolMoon progressionNames l') : l = l' := by
  obtain ⟨listed, moon, found⟩ := mem_allPool.1 inPool
  obtain ⟨listed', -⟩ := mem_allPool.1 inPool'
  obtain ⟨mine, split⟩ := poolMoon_mine found
  obtain ⟨mine', split'⟩ := poolMoon_mine (same ▸ found)
  exact W.shines l listed l' listed' mine mine' moon split split'

end Filled

/-! ## The state of upstream -/

/-- A collection state: the advancement items held, and the locations that were swept. -/
structure CollectionState (Loc Item : Type) where
  held : Multiset Item
  advancements : List Loc

/-- The part of upstream that the order rests on. -/
structure Upstream (W : Filled Loc Item) where
  /-- `sweep_for_advancements(locations)`. -/
  sweepForAdvancements : CollectionState Loc Item → List Loc → CollectionState Loc Item
  /-- Whether `collect` sweeps after an item; it does after an item that changes the state. -/
  sweepsAfter : Item → Bool
  sweeps_advancement : ∀ i, W.advancement i = true → sweepsAfter i = true
  /-- A sweep takes locations that it reaches, each once, and none is left. -/
  sweeps : ∀ s places, ∃ T,
    Course W.rules {l | l ∈ places ∧ l ∉ s.advancements} s.held T ∧
      sweepForAdvancements s places = ⟨s.held + gained W.advItem T, T ++ s.advancements⟩ ∧
      Swept W.rules {l | l ∈ places} (s.held + gained W.advItem T) (T ++ s.advancements)

namespace Upstream

variable {W : Filled Loc Item} (U : Upstream W)

variable (W) in
/-- Only advancement items are held. -/
def addItem (s : CollectionState Loc Item) (i : Item) : CollectionState Loc Item :=
  if W.advancement i then { s with held := i ::ₘ s.held } else s

/-- `CollectionState.collect` without `prevent_sweep`. -/
def collect (s : CollectionState Loc Item) (i : Item) : CollectionState Loc Item :=
  if U.sweepsAfter i then U.sweepForAdvancements (addItem W s i) W.locations else addItem W s i

variable [DecidableEq Loc]

/-! ## Building the order -/

/-- `find_safe_permutation_with_oracle`, for a list of `n` locations. -/
def findSafePermutation {σ : Type} (name : Loc → String) (canReach : σ → Loc → Bool)
    (collect : σ → Loc → σ) : (rng : ℕ → ℕ) → (n : ℕ) → σ → List Loc → Option (List Loc)
  | _, 0, _, _ => some []
  | rng, n + 1, s, remaining =>
      let reachable := (remaining.filter (canReach s)).mergeSort fun l l' => name l ≤ name l'
      match reachable[rng 0 % reachable.length]? with
      | none => none
      | some pick =>
          (findSafePermutation name canReach collect (fun k => rng (k + 1)) n (collect s pick)
            (remaining.erase pick)).map (pick :: ·)

/-- The state of `_make_ap_oracles`: swept over the locations of the slot outside the pool. -/
def startState (pool : List Loc) : CollectionState Loc Item :=
  U.sweepForAdvancements ⟨W.precollected, []⟩ (W.locations.filter fun l => W.mine l ∧ l ∉ pool)

/-- The `collect` oracle. -/
def collectAt (s : CollectionState Loc Item) (l : Loc) : CollectionState Loc Item :=
  match W.placed l with
  | some i => U.collect s i
  | none => s

/-- The order of all pool moons, where one is found. -/
def globalOrder (progressionNames : List String) (rng : ℕ → ℕ) : Option (List Loc) :=
  let pool := W.allPool progressionNames
  findSafePermutation W.name (fun s l => W.canReach s.held l) U.collectAt rng pool.length
    (U.startState pool) pool

/-- The moons of an order that are in a kingdom, by their shine ids. -/
def perKingdom (progressionNames : List String) (kingdom : String) (order : List Loc) :
    List String :=
  order.filterMap fun l =>
    ((W.poolMoon progressionNames l).filter (·.1 = kingdom)).map Prod.snd

/-- `build_talkatoo_order`: the order of each kingdom of the pool, or no order. -/
def buildTalkatooOrder (progressionNames : List String) (rng : ℕ → ℕ) :
    Option (List (String × List String)) :=
  (U.globalOrder progressionNames rng).map fun order =>
    (W.collectPoolPerKingdom progressionNames).keys.map fun kingdom =>
      (kingdom, perKingdom (W := W) progressionNames kingdom order)

end Upstream

end SmoArchipelago.World
