import SmoArchipelago.Switch.ApState

/-! # The ability table

Every `ability_state` message replaces the table; the counts that rose are compared with
the replaced one, and each further copy that unlocks no move is announced by a bubble.

## Implementation notes

The table is the list of its live slots. The number of the bubbles that found room is
returned beside the state. -/

namespace SmoArchipelago.Switch

open Library ApProtocol Json

structure SystemBubble where
  text : CStr 64
  deriving DecidableEq, Inhabited

abbrev kAbilityStateMax : ℕ := 32
abbrev kAbilityTableMax : ℕ := kAbilityStateMax

structure AbilityTable where
  abilityGateDisabled : Bool := false
  abilityTable : List AbilityEntry := []
  inboundSystemBubbles : SpscRing SystemBubble 16 := RingBuffer.empty 16 default

/-- The chains of `abilityMoveAtLevel`. -/
def kChains : List (String × List String) :=
  [("Progressive Crouch", ["Crouch", "Roll", "Roll Boost"]),
    ("Progressive Ground Pound", ["Ground Pound", "Dive"]),
    ("Progressive Jump", ["Double Jump", "Triple Jump"]),
    ("Wall Slide", ["Wall Slide"])]

/-- The move at a level of an ability, or none past the end of its chain. -/
def abilityMoveAtLevel (ability : CStr kCheckFieldCap) (level : ℤ) : Option (List UInt8) :=
  if level < 1 then none
  else
    match kChains.find? fun c => ability.bytes = ascii c.1 with
    | some c => if level ≤ c.2.length then c.2[(level - 1).toNat]?.map ascii else none
    | none => if level = 1 then some ability.bytes else none

/-- The bubbles pushed so far by one message. -/
structure Announced where
  bubbles : SpscRing SystemBubble 16
  count : ℕ

namespace Announced

def spareAbility : SystemBubble := ⟨CStr.ofBytes (ascii "Spare ability - +100 coins!")⟩

/-- A full ring drops the bubble. -/
def push (a : Announced) : Announced :=
  match a.bubbles.push spareAbility with
  | some bubbles => ⟨bubbles, a.count + 1⟩
  | none => a

/-- Room in the ring, which keeps one slot free. -/
def room (a : Announced) : ℕ := 15 - a.bubbles.toList.length

theorem push_of_room {a : Announced} (h : 0 < a.room) :
    a.push.count = a.count + 1 ∧ a.push.room = a.room - 1 := by
  have room : a.bubbles.HasRoom := by
    apply (RingBuffer.hasRoom_iff _).2
    rw [Announced.room] at h
    omega
  have longer := RingBuffer.toList_pushed room spareAbility
  rw [push, RingBuffer.push_of_room room]
  constructor
  · rfl
  · simp only [Announced.room, longer, List.length_append, List.length_singleton]
    omega

theorem push_of_full {a : Announced} (h : a.room = 0) : a.push = a := by
  have full : ¬ a.bubbles.HasRoom := by
    intro room
    have short := (RingBuffer.hasRoom_iff _).1 room
    rw [Announced.room] at h
    omega
  rw [push, RingBuffer.push_of_full full]

/-- Of `k` bubbles those are counted that find room. -/
theorem push_iterate (k : ℕ) (a : Announced) : (push^[k] a).count = a.count + min k a.room := by
  induction k generalizing a with
  | zero => simp
  | succ k ih =>
      rw [Function.iterate_succ_apply, ih]
      cases left : a.room with
      | zero => rw [push_of_full left, left, Nat.min_zero, Nat.min_zero]
      | succ r =>
          obtain ⟨count, room⟩ := push_of_room (a := a) (by omega)
          rw [count, room, left]
          omega

end Announced

def announceLevel (ability : CStr kCheckFieldCap) (a : Announced) (level : ℤ) : Announced :=
  match abilityMoveAtLevel ability level with
  | none => a.push
  | some _ => a

/-- The levels after `prior` up to `count`. -/
def levels (prior count : ℤ) : List ℤ :=
  (List.range (count - prior).toNat).map fun i : ℕ => prior + 1 + i

/-- Compare an entry with the count in the replaced table. -/
def announceEntry (priorCount : CStr kCheckFieldCap → ℤ) (a : Announced) (e : AbilityEntry) :
    Announced :=
  if e.ability.isEmpty then a
  else if e.count ≤ priorCount e.ability then a
  else (levels (priorCount e.ability) e.count).foldl (announceLevel e.ability) a

/-- The count of the first slot of that name. -/
def priorCount (table : List AbilityEntry) (name : CStr kCheckFieldCap) : ℤ :=
  match table.find? fun slot => slot.ability = name with
  | some slot => slot.count
  | none => 0

def applyAbilityState (entries : List AbilityEntry) (enforce : Bool) (s : AbilityTable) :
    AbilityTable × ℕ :=
  let shown := entries.take kAbilityTableMax
  let a := shown.foldl (announceEntry (priorCount s.abilityTable)) ⟨s.inboundSystemBubbles, 0⟩
  ({ abilityGateDisabled := !enforce, abilityTable := shown, inboundSystemBubbles := a.bubbles },
    a.count)

/-- The newly reached levels of an entry that unlock no move. -/
def newSpares (priorCount : CStr kCheckFieldCap → ℤ) (e : AbilityEntry) : ℕ :=
  if e.ability.isEmpty then 0
  else (levels (priorCount e.ability) e.count).countP fun level =>
    abilityMoveAtLevel e.ability level = none

theorem foldl_announceLevel (ability : CStr kCheckFieldCap) (a : Announced) (ls : List ℤ) :
    ls.foldl (announceLevel ability) a =
      Announced.push^[ls.countP fun level => abilityMoveAtLevel ability level = none] a := by
  induction ls generalizing a with
  | nil => rfl
  | cons level ls ih =>
      rw [List.foldl_cons, ih, announceLevel]
      cases move : abilityMoveAtLevel ability level with
      | none => simp [move]
      | some m => simp [move]

theorem announceEntry_eq (priorCount : CStr kCheckFieldCap → ℤ) (a : Announced)
    (e : AbilityEntry) :
    announceEntry priorCount a e = Announced.push^[newSpares priorCount e] a := by
  rw [announceEntry, newSpares]
  split_ifs with unnamed known
  · rfl
  · have no_levels : levels (priorCount e.ability) e.count = [] := by
      have none_above : (e.count - priorCount e.ability).toNat = 0 := by omega
      rw [levels, none_above]
      rfl
    rw [no_levels]
    rfl
  · exact foldl_announceLevel e.ability a _

theorem foldl_announceEntry (priorCount : CStr kCheckFieldCap → ℤ) (a : Announced)
    (es : List AbilityEntry) :
    es.foldl (announceEntry priorCount) a =
      Announced.push^[(es.map (newSpares priorCount)).sum] a := by
  induction es generalizing a with
  | nil => rfl
  | cons e es ih =>
      rw [List.foldl_cons, ih, announceEntry_eq, List.map_cons, List.sum_cons, Nat.add_comm,
        Function.iterate_add_apply]

/-- A message announces its new spare levels as far as the ring has room for them. -/
theorem applyAbilityState_announced (entries : List AbilityEntry) (enforce : Bool)
    (s : AbilityTable) :
    (applyAbilityState entries enforce s).2 =
      min ((entries.take kAbilityTableMax).map (newSpares (priorCount s.abilityTable))).sum
        (15 - s.inboundSystemBubbles.toList.length) := by
  rw [applyAbilityState, foldl_announceEntry, Announced.push_iterate, Nat.zero_add, Announced.room]

/-! ## Reading the gate -/

def abilityCount (s : AbilityTable) (name : CStr kCheckFieldCap) : ℤ :=
  if name.isEmpty then 0 else priorCount s.abilityTable name

/-- Whether a move is open; `forceUnlock` is the lever of the debug console. -/
def abilityAtLeast (forceUnlock : Bool) (s : AbilityTable) (name : CStr kCheckFieldCap)
    (level : ℤ) : Bool :=
  forceUnlock || s.abilityGateDisabled || decide (level ≤ abilityCount s name)

end SmoArchipelago.Switch
