import Mathlib

/-! # Fixed buffers of the Switch module

Text lives in `char[cap]` fields and lists in arrays with a count. A text field is
read as a C string, so its value is the bytes before the terminator; an array is
read up to its count, and what lies above is whatever was stored there before. -/

namespace SmoArchipelago.Switch

/-- The text of a `char[cap]` field: it leaves room for its terminator. -/
@[ext]
structure CStr (cap : ℕ) where
  bytes : List UInt8
  short : bytes.length < cap
  noNul : 0 ∉ bytes
  deriving DecidableEq

/-! The capacities of the fields and of the queues, which are not 0. -/

instance neZero32 : NeZero (32 : ℕ) := ⟨Nat.succ_ne_zero _⟩
instance neZero64 : NeZero (64 : ℕ) := ⟨Nat.succ_ne_zero _⟩
instance neZero128 : NeZero (128 : ℕ) := ⟨Nat.succ_ne_zero _⟩
instance neZero256 : NeZero (256 : ℕ) := ⟨Nat.succ_ne_zero _⟩
instance neZero512 : NeZero (512 : ℕ) := ⟨Nat.succ_ne_zero _⟩

namespace CStr

variable {cap : ℕ} [NeZero cap]

/-- `copyFixedFieldN`: keep what fits, and read up to the first NUL. -/
def ofBytes (bs : List UInt8) : CStr cap where
  bytes := (bs.take (cap - 1)).takeWhile (· != 0)
  short := by
    have cut := (List.takeWhile_prefix (l := bs.take (cap - 1)) (· != 0)).length_le
    have pos := Nat.pos_of_neZero cap
    rw [List.length_take] at cut
    omega
  noNul h := by simpa using List.mem_takeWhile_imp h

instance : Inhabited (CStr cap) := ⟨ofBytes []⟩

/-- `copyFixedField` from another field. -/
def copy {cap' : ℕ} (s : CStr cap') : CStr cap := ofBytes s.bytes

/-- The first byte is the terminator. -/
def isEmpty (s : CStr cap) : Bool := s.bytes.isEmpty

end CStr

/-- An array with a fill count. -/
structure Filled (α : Type) (cap : ℕ) where
  slots : Vector α cap
  count : ℕ
  count_le : count ≤ cap

namespace Filled

variable {α : Type} {cap : ℕ}

/-- The entries below the count. -/
def live (xs : Filled α cap) : List α := xs.slots.toList.take xs.count

/-- `count = 0`; the slots keep their contents. -/
def clear (xs : Filled α cap) : Filled α cap := ⟨xs.slots, 0, Nat.zero_le cap⟩

/-- Overwrite the first slot above the count. -/
def writeNext (xs : Filled α cap) (a : α) (room : xs.count < cap) : Filled α cap :=
  ⟨xs.slots.set xs.count a, xs.count, xs.count_le⟩

/-- Store at the count and raise it. -/
def push (xs : Filled α cap) (a : α) (room : xs.count < cap) : Filled α cap :=
  ⟨xs.slots.set xs.count a, xs.count + 1, room⟩

/-- Store if there is room; otherwise report the overflow. -/
def add (xs : Filled α cap) (a : α) : Filled α cap × Bool :=
  if room : xs.count < cap then (xs.push a room, false) else (xs, true)

/-- All slots hold one value. -/
def fill (a : α) : Filled α cap := ⟨Vector.replicate cap a, 0, Nat.zero_le cap⟩

@[simp] theorem length_live (xs : Filled α cap) : xs.live.length = xs.count := by
  simp [live, xs.count_le]

@[simp] theorem live_clear (xs : Filled α cap) : xs.clear.live = [] := rfl

theorem live_push (xs : Filled α cap) (a : α) (room : xs.count < cap) :
    (xs.push a room).live = xs.live ++ [a] := by
  simp only [live, push, Vector.toList_set]
  rw [List.take_succ_eq_append_getElem (by simpa using room), List.getElem_set_self]
  congr 1
  exact List.take_set_of_le le_rfl

/-- Storing depends on the entries alone. -/
theorem add_agree {xs ys : Filled α cap} (h : xs.live = ys.live) (a : α) :
    (xs.add a).1.live = (ys.add a).1.live ∧ (xs.add a).2 = (ys.add a).2 := by
  have counts : xs.count = ys.count := by rw [← length_live, h, length_live]
  by_cases room : xs.count < cap
  · have room' : ys.count < cap := counts ▸ room
    simp only [add, dif_pos room, dif_pos room', live_push, h, and_self]
  · have room' : ¬ ys.count < cap := counts ▸ room
    simp only [add, dif_neg room, dif_neg room', h, and_self]

end Filled

end SmoArchipelago.Switch
