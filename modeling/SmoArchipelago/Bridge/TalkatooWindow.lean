import SmoArchipelago.Bridge.Context
import SmoArchipelago.Library.Dict
import SmoArchipelago.Library.Interleave

/-! # The windows of Talkatoo

The client names of each kingdom the next moons of its order that are not checked. If the orders
come from one order in which each moon is reachable in its turn, some window always has a moon
that can be reached.

## Implementation notes

A moon is a kingdom with a shine id. What can be reached is a relation between the moons whose
items are there and a moon; what lies outside the pool is part of it. -/

namespace SmoArchipelago.Bridge

open Library Interleave

/-- A kingdom with a shine id. -/
abbrev PoolMoon := String × String

/-- The name of the location. -/
def PoolMoon.locName (m : PoolMoon) : String := m.1 ++ ": " ++ m.2

/-- `_TALKATOO_WINDOW` -/
def talkatooWindow : ℕ := 3

namespace Context

variable (ctx : Context)

/-- `loc_id is not None and loc_id in checked` -/
def talkatooChecked (m : PoolMoon) : Bool :=
  match ctx.dp.locationNameToId m.locName with
  | some locId => decide (locId ∈ ctx.checkedLocations)
  | none => false

/-- `_compute_talkatoo_cursor` -/
def computeTalkatooCursor (talkatooOrder : Dict String (List String)) (kingdom : String) : ℕ :=
  (talkatooOrder.getD kingdom []).findIdx fun shineId => !ctx.talkatooChecked (kingdom, shineId)

/-- The loop over the order from the cursor, which stops when the window is full. -/
def fillWindow (kingdom : String) : ℕ → List String → List String
  | 0, _ => []
  | _, [] => []
  | room + 1, shineId :: rest =>
      if ctx.talkatooChecked (kingdom, shineId) then fillWindow kingdom (room + 1) rest
      else shineId :: fillWindow kingdom room rest

/-- `_build_talkatoo_pool_phase5`: the kingdoms that have a window. -/
def buildTalkatooPoolPhase5 (talkatooOrder : Dict String (List String)) : List (String × List String) :=
  (talkatooOrder.entries.map fun e =>
    (e.1, ctx.fillWindow e.1 talkatooWindow
      (e.2.drop (ctx.computeTalkatooCursor talkatooOrder e.1)))).filter fun e => e.2 ≠ []

/-- The moons of an order that are not checked. -/
def unchecked (kingdom : String) (order : List String) : List String :=
  order.filter fun shineId => !ctx.talkatooChecked (kingdom, shineId)

variable {ctx}

theorem fillWindow_eq (kingdom : String) (room : ℕ) (order : List String) :
    ctx.fillWindow kingdom room order = (ctx.unchecked kingdom order).take room := by
  induction order generalizing room with
  | nil => cases room <;> rfl
  | cons shineId rest ih =>
      cases room with
      | zero => rfl
      | succ room =>
          rw [fillWindow, unchecked]
          split_ifs with checked
          · rw [ih, List.filter_cons_of_neg (by rw [checked]; exact Bool.false_ne_true), unchecked]
          · rw [ih, List.filter_cons_of_pos (by simpa using checked), List.take_succ_cons, unchecked]

/-- What lies before the cursor is checked. -/
theorem unchecked_drop_findIdx (kingdom : String) (order : List String) :
    ctx.unchecked kingdom (order.drop (order.findIdx fun shineId => !ctx.talkatooChecked (kingdom, shineId))) =
      ctx.unchecked kingdom order := by
  induction order with
  | nil => rfl
  | cons shineId rest ih =>
      rw [List.findIdx_cons]
      by_cases checked : ctx.talkatooChecked (kingdom, shineId) = true
      · rw [checked, Bool.not_true, cond_false, List.drop_succ_cons, ih, unchecked, unchecked,
          List.filter_cons_of_neg (by rw [checked]; exact Bool.false_ne_true)]
      · rw [Bool.not_eq_true] at checked
        rw [checked, Bool.not_false, cond_true, List.drop_zero]

/-- A window lists the first moons that are not checked. -/
theorem mem_buildTalkatooPool {talkatooOrder : Dict String (List String)} {e : String × List String} :
    e ∈ ctx.buildTalkatooPoolPhase5 talkatooOrder ↔
      e.1 ∈ talkatooOrder.keys ∧ e.2 ≠ [] ∧
        e.2 = (ctx.unchecked e.1 (talkatooOrder.getD e.1 [])).take talkatooWindow := by
  have window (e : String × List String) (member : e ∈ talkatooOrder.entries) :
      ctx.fillWindow e.1 talkatooWindow (e.2.drop (ctx.computeTalkatooCursor talkatooOrder e.1)) =
        (ctx.unchecked e.1 (talkatooOrder.getD e.1 [])).take talkatooWindow := by
    rw [fillWindow_eq, computeTalkatooCursor, Dict.getD_of_mem member, unchecked_drop_findIdx]
  rw [buildTalkatooPoolPhase5, List.mem_filter, List.mem_map, decide_eq_true_eq]
  constructor
  · rintro ⟨⟨e', member, rfl⟩, some_moon⟩
    have key : e'.1 ∈ talkatooOrder.keys := List.mem_map_of_mem member
    exact ⟨key, some_moon, window e' member⟩
  · rintro ⟨key, some_moon, filled⟩
    obtain ⟨e', member, same⟩ := List.mem_map.1 key
    refine ⟨⟨e', member, Prod.ext same ?_⟩, some_moon⟩
    dsimp only
    rw [window e' member, filled, same]

end Context

/-! ## One order behind the orders of the kingdoms -/

/-- An order of moons in which each is reachable with the items of those before it. -/
structure GlobalOrder where
  moons : List PoolMoon
  /-- The moon can be reached with the items of the moons and what lies outside the pool. -/
  Reach : Set PoolMoon → PoolMoon → Prop
  mono : ∀ {P P' m}, P ⊆ P' → Reach P m → Reach P' m
  inTurn : ∀ {before m after}, moons = before ++ m :: after → Reach {x | x ∈ before} m

/-- The moons of a kingdom in an order. -/
def ofKingdom (kingdom : String) (moons : List PoolMoon) : List String :=
  moons.filterMap fun m => if m.1 = kingdom then some m.2 else none

/-- The orders of the kingdoms are the restrictions of the order. -/
def GlobalOrder.Restricts (G : GlobalOrder) (talkatooOrder : Dict String (List String)) : Prop :=
  ∀ kingdom, talkatooOrder.getD kingdom [] = ofKingdom kingdom G.moons

/-- The names of the moons have ids. -/
def Context.Knows (ctx : Context) (G : GlobalOrder) (locId : PoolMoon → ℤ) : Prop :=
  ∀ m ∈ G.moons, ctx.dp.locationNameToId m.locName = some (locId m)

/-- Some window has an unchecked moon that is reachable with the items of the checked ones, no
window has a checked moon, and a kingdom with an unchecked moon has a window. -/
structure Context.Progresses (ctx : Context) (G : GlobalOrder) (locId : PoolMoon → ℤ)
    (pool : List (String × List String)) : Prop where
  reachable : (∃ m ∈ G.moons, locId m ∉ ctx.checkedLocations) →
    ∃ e ∈ pool, ∃ shineId ∈ e.2, (e.1, shineId) ∈ G.moons ∧ locId (e.1, shineId) ∉ ctx.checkedLocations ∧
      G.Reach {m | m ∈ G.moons ∧ locId m ∈ ctx.checkedLocations} (e.1, shineId)
  unchecked : ∀ e ∈ pool, ∀ shineId ∈ e.2, locId (e.1, shineId) ∉ ctx.checkedLocations
  nonempty : ∀ m ∈ G.moons, locId m ∉ ctx.checkedLocations → ∃ e ∈ pool, e.1 = m.1 ∧ e.2 ≠ []

section Windows

variable {ctx : Context} {G : GlobalOrder} {locId : PoolMoon → ℤ}

theorem mem_ofKingdom {kingdom shineId : String} {moons : List PoolMoon} :
    shineId ∈ ofKingdom kingdom moons ↔ (kingdom, shineId) ∈ moons := by
  rw [ofKingdom, List.mem_filterMap]
  constructor
  · rintro ⟨m, member, found⟩
    split_ifs at found with same
    cases found
    exact same ▸ member
  · intro member
    exact ⟨_, member, if_pos rfl⟩

theorem ofKingdom_append (kingdom : String) (moons moons' : List PoolMoon) :
    ofKingdom kingdom (moons ++ moons') = ofKingdom kingdom moons ++ ofKingdom kingdom moons' :=
  List.filterMap_append

theorem checked_iff (known : ctx.Knows G locId) {m : PoolMoon} (member : m ∈ G.moons) :
    ctx.talkatooChecked m = true ↔ locId m ∈ ctx.checkedLocations := by
  rw [Context.talkatooChecked, known m member]
  exact decide_eq_true_iff

theorem mem_unchecked (known : ctx.Knows G locId) {kingdom shineId : String} :
    shineId ∈ ctx.unchecked kingdom (ofKingdom kingdom G.moons) ↔
      (kingdom, shineId) ∈ G.moons ∧ locId (kingdom, shineId) ∉ ctx.checkedLocations := by
  rw [Context.unchecked, List.mem_filter, mem_ofKingdom]
  apply and_congr_right
  intro member
  rw [Bool.not_eq_true', ← Bool.not_eq_true, checked_iff known member]

theorem take_window_ne_nil {l : List String} (h : l ≠ []) : l.take talkatooWindow ≠ [] := by
  intro nothing
  rcases List.take_eq_nil_iff.1 nothing with zero | empty
  · exact absurd zero (by decide)
  · exact h empty

/-- An unchecked moon gives its kingdom a window. -/
theorem window_of_unchecked {talkatooOrder : Dict String (List String)} (restricts : G.Restricts talkatooOrder)
    (known : ctx.Knows G locId) {m : PoolMoon} (member : m ∈ G.moons)
    (free : locId m ∉ ctx.checkedLocations) :
    (m.1, (ctx.unchecked m.1 (ofKingdom m.1 G.moons)).take talkatooWindow) ∈
      ctx.buildTalkatooPoolPhase5 talkatooOrder := by
  have here := (mem_unchecked known).2 ⟨member, free⟩
  rw [Context.mem_buildTalkatooPool, restricts]
  refine ⟨?_, take_window_ne_nil (List.ne_nil_of_mem here), rfl⟩
  by_contra absent
  have nothing := restricts m.1
  rw [Dict.getD_of_not_mem absent] at nothing
  exact absurd (mem_ofKingdom.2 member) (nothing ▸ List.not_mem_nil)

/-- The first unchecked moon of the global order heads the window of its kingdom. -/
theorem exists_reachable_window {talkatooOrder : Dict String (List String)}
    (restricts : G.Restricts talkatooOrder) (known : ctx.Knows G locId)
    (left : ∃ m ∈ G.moons, locId m ∉ ctx.checkedLocations) :
    ∃ e ∈ ctx.buildTalkatooPoolPhase5 talkatooOrder, ∃ shineId ∈ e.2, (e.1, shineId) ∈ G.moons ∧
      locId (e.1, shineId) ∉ ctx.checkedLocations ∧
      G.Reach {m | m ∈ G.moons ∧ locId m ∈ ctx.checkedLocations} (e.1, shineId) := by
  obtain ⟨before, m, after, split, free, checked⟩ := exists_first left
  have member : m ∈ G.moons := split ▸ List.mem_append_right before List.mem_cons_self
  have checked_before (x : PoolMoon) (here : x ∈ before) :
      x ∈ G.moons ∧ locId x ∈ ctx.checkedLocations :=
    ⟨split ▸ List.mem_append_left _ here, not_not.1 (checked x here)⟩
  refine ⟨_, window_of_unchecked restricts known member free, m.2, ?_, member, free, ?_⟩
  · have skipped : ctx.unchecked m.1 (ofKingdom m.1 before) = [] := by
      rw [Context.unchecked, List.filter_eq_nil_iff]
      intro shineId here
      obtain ⟨listed, done⟩ := checked_before _ (mem_ofKingdom.1 here)
      rw [(checked_iff known listed).2 done]
      exact Bool.false_ne_true
    have first : ofKingdom m.1 (m :: after) = m.2 :: ofKingdom m.1 after :=
      List.filterMap_cons_some (if_pos rfl)
    have kept : (!ctx.talkatooChecked (m.1, m.2)) = true := by
      rw [Bool.not_eq_true', ← Bool.not_eq_true, checked_iff known member]
      exact free
    have head : ctx.unchecked m.1 (ofKingdom m.1 G.moons) =
        m.2 :: ctx.unchecked m.1 (ofKingdom m.1 after) := by
      calc
        ctx.unchecked m.1 (ofKingdom m.1 G.moons) =
            ctx.unchecked m.1 (ofKingdom m.1 before) ++
              ctx.unchecked m.1 (m.2 :: ofKingdom m.1 after) := by
          rw [split, ofKingdom_append, first]
          exact List.filter_append ..
        _ = _ := by
          rw [skipped, List.nil_append]
          exact List.filter_cons_of_pos kept
    rw [head, talkatooWindow, List.take_succ_cons]
    exact List.mem_cons_self
  · exact G.mono checked_before (G.inTurn split)

/-- Whatever is checked, the windows progress. -/
theorem buildTalkatooPool_progresses (ctx : Context) (G : GlobalOrder) (locId : PoolMoon → ℤ)
    (talkatooOrder : Dict String (List String)) (restricts : G.Restricts talkatooOrder)
    (known : ctx.Knows G locId) :
    ctx.Progresses G locId (ctx.buildTalkatooPoolPhase5 talkatooOrder) := by
  refine ⟨exists_reachable_window restricts known, fun e member shineId here => ?_,
    fun m member free => ?_⟩
  · have filled := (Context.mem_buildTalkatooPool.1 member).2.2
    rw [restricts] at filled
    rw [filled] at here
    exact ((mem_unchecked known).1 (List.mem_of_mem_take here)).2
  · refine ⟨_, window_of_unchecked restricts known member free, rfl, ?_⟩
    exact take_window_ne_nil (List.ne_nil_of_mem ((mem_unchecked known).2 ⟨member, free⟩))

end Windows

/-- Moons of Cap and Sand by turns, each but the first behind the item of the one before it. -/
def hopMoons : List PoolMoon :=
  [("Cap", "Frog-Jumping Above the Fog"), ("Sand", "Ice Cave Treasure"),
    ("Cap", "Good Evening, Captain Toad!"), ("Sand", "Atop the Highest Tower")]

/-- The moons whose items a moon of this order is behind. -/
def hopNeeds (m : PoolMoon) : List PoolMoon := ((hopMoons.zip hopMoons.tail).filter (·.2 = m)).map Prod.fst

def hopOrder : GlobalOrder where
  moons := hopMoons
  Reach held m := ∀ n ∈ hopNeeds m, n ∈ held
  mono more needs n member := more (needs n member)
  inTurn {before m after} split := by
    have turns : ∀ i < 4, ∀ m ∈ hopMoons[i]?, ∀ n ∈ hopNeeds m, n ∈ hopMoons.take i := by decide
    have short : before.length < 4 := by
      have lengths := congrArg List.length split
      rw [List.length_append, List.length_cons] at lengths
      change 4 = _ at lengths
      omega
    have here : hopMoons[before.length]? = some m := by
      rw [split, List.getElem?_append_right le_rfl, Nat.sub_self]
      rfl
    have taken : hopMoons.take before.length = before := by rw [split, List.take_left' rfl]
    intro n needed
    exact taken ▸ turns before.length short m here n needed

/-- The first moon is checked, and the last one, which was released. -/
def hopContext : Context where
  dp := { samplePackage with
    locationNameToId := fun name =>
      if name = "Cap: Frog-Jumping Above the Fog" then some 11
      else if name = "Sand: Ice Cave Treasure" then some 21
      else if name = "Cap: Good Evening, Captain Toad!" then some 12
      else if name = "Sand: Atop the Highest Tower" then some 22
      else none }
  checkedLocations := {11, 22}

def hopIds (m : PoolMoon) : ℤ := (hopContext.dp.locationNameToId m.locName).getD 0

def hopOrders : Dict String (List String) :=
  ⟨[("Cap", ["Frog-Jumping Above the Fog", "Good Evening, Captain Toad!"]),
    ("Sand", ["Ice Cave Treasure", "Atop the Highest Tower"])], by decide⟩

theorem hopOrders_progress :
    hopContext.Progresses hopOrder hopIds (hopContext.buildTalkatooPoolPhase5 hopOrders) ∧
      hopContext.buildTalkatooPoolPhase5 hopOrders =
        [("Cap", ["Good Evening, Captain Toad!"]), ("Sand", ["Ice Cave Treasure"])] := by
  have restricts : hopOrder.Restricts hopOrders := by
    intro kingdom
    by_cases cap : kingdom = "Cap"
    · rw [cap]
      decide
    · by_cases sand : kingdom = "Sand"
      · rw [sand]
        decide
      · have cap' : ¬ "Cap" = kingdom := fun same => cap same.symm
        have sand' : ¬ "Sand" = kingdom := fun same => sand same.symm
        simp [Dict.getD, Dict.get?, Dict.find, ofKingdom, hopOrder, hopMoons, hopOrders, cap', sand']
  have known : hopContext.Knows hopOrder hopIds := by
    change ∀ m ∈ hopMoons, hopContext.dp.locationNameToId m.locName = some (hopIds m)
    decide
  exact ⟨buildTalkatooPool_progresses hopContext hopOrder hopIds hopOrders restricts known, by decide⟩

end SmoArchipelago.Bridge
