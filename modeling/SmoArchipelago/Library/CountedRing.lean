import SmoArchipelago.Library.RingBuffer

/-! # A ring with a count and a flag in every slot

The ring keeps two cursors and the number of its entries, so all its slots can be in use, and
each slot says whether it is. Its meaning is the queue `toList`. -/

namespace SmoArchipelago.Library

structure CountedRing (α : Type*) (n : ℕ) where
  slots : Fin n → α
  live : Fin n → Bool
  head : Fin n
  tail : Fin n
  count : ℕ

namespace CountedRing

open RingBuffer (next)

variable {α : Type*} {n : ℕ}

/-- The slot of the `k`-th entry. -/
def slot (r : CountedRing α n) (k : ℕ) : Fin n := ⟨(r.head + k) % n, Nat.mod_lt _ r.head.pos⟩

/-- The queue the ring stands for, front first. -/
def toList (r : CountedRing α n) : List α := (List.range r.count).map fun k => r.slots (r.slot k)

/-- Store at the tail. -/
def push (r : CountedRing α n) (a : α) : CountedRing α n where
  slots := Function.update r.slots r.tail a
  live := Function.update r.live r.tail true
  head := r.head
  tail := next r.tail
  count := r.count + 1

/-- Take the front entry off. -/
def dropHead (r : CountedRing α n) : CountedRing α n where
  slots := r.slots
  live := Function.update r.live r.head false
  head := next r.head
  tail := r.tail
  count := r.count - 1

/-- The live slots are those from the head on, as many as are counted, and the tail comes next. -/
structure Ordered (r : CountedRing α n) : Prop where
  bound : r.count ≤ n
  tail : r.tail = r.slot r.count
  live : ∀ i, r.live i = true ↔ ∃ k < r.count, i = r.slot k

theorem slot_val (r : CountedRing α n) {k : ℕ} (small : k ≤ n) :
    (r.slot k : ℕ) = if (r.head : ℕ) + k < n then (r.head : ℕ) + k else (r.head : ℕ) + k - n := by
  have head := r.head.isLt
  exact wrap_eq (by omega)

theorem slot_zero (r : CountedRing α n) : r.slot 0 = r.head := Fin.ext (Nat.mod_eq_of_lt r.head.isLt)

theorem next_slot (r : CountedRing α n) (k : ℕ) : next (r.slot k) = r.slot (k + 1) := by
  apply Fin.ext
  change ((r.head + k) % n + 1) % n = (r.head + (k + 1)) % n
  rw [Nat.mod_add_mod, add_assoc]

theorem slot_dropHead (r : CountedRing α n) (k : ℕ) : r.dropHead.slot k = r.slot (k + 1) := by
  apply Fin.ext
  change ((r.head + 1) % n + k) % n = (r.head + (k + 1)) % n
  rw [Nat.mod_add_mod, add_assoc, Nat.add_comm 1 k]

/-- Different entries are in different slots. -/
theorem slot_inj (r : CountedRing α n) {k l : ℕ} (hk : k < n) (hl : l < n)
    (same : r.slot k = r.slot l) : k = l := by
  have head := r.head.isLt
  have values := congrArg Fin.val same
  rw [slot_val r hk.le, slot_val r hl.le] at values
  split_ifs at values <;> omega

theorem Ordered.push {r : CountedRing α n} (h : r.Ordered) (room : r.count < n) (a : α) :
    (r.push a).Ordered := by
  refine ⟨room, ?_, fun i => ?_⟩
  · change next r.tail = r.slot (r.count + 1)
    rw [h.tail, next_slot]
  · change Function.update r.live r.tail true i = true ↔ ∃ k < r.count + 1, i = r.slot k
    by_cases new : i = r.tail
    · rw [new, Function.update_self]
      exact iff_of_true rfl ⟨r.count, Nat.lt_succ_self _, h.tail⟩
    · rw [Function.update_of_ne new, h.live]
      constructor
      · rintro ⟨k, small, here⟩
        exact ⟨k, Nat.lt_succ_of_lt small, here⟩
      · rintro ⟨k, small, here⟩
        refine ⟨k, lt_of_le_of_ne (Nat.le_of_lt_succ small) fun last => new ?_, here⟩
        rw [here, last, h.tail]

theorem toList_push {r : CountedRing α n} (h : r.Ordered) (room : r.count < n) (a : α) :
    (r.push a).toList = r.toList ++ [a] := by
  change (List.range (r.count + 1)).map (fun k => Function.update r.slots r.tail a (r.slot k)) = _
  rw [List.range_succ, List.map_append, List.map_singleton, ← h.tail, Function.update_self]
  congr 1
  apply List.map_congr_left
  intro k member
  have small := List.mem_range.1 member
  apply Function.update_of_ne
  intro same
  rw [h.tail] at same
  exact small.ne (r.slot_inj (small.trans room) room same)

theorem Ordered.dropHead {r : CountedRing α n} (h : r.Ordered) (some : 0 < r.count) :
    r.dropHead.Ordered := by
  have bound := h.bound
  refine ⟨(Nat.sub_le _ _).trans bound, ?_, fun i => ?_⟩
  · rw [slot_dropHead]
    change r.tail = r.slot (r.count - 1 + 1)
    rw [Nat.sub_add_cancel some]
    exact h.tail
  · change Function.update r.live r.head false i = true ↔ ∃ k < r.count - 1, i = r.dropHead.slot k
    by_cases front : i = r.head
    · rw [front, Function.update_self]
      refine iff_of_false Bool.false_ne_true ?_
      rintro ⟨k, small, here⟩
      rw [slot_dropHead, ← slot_zero r] at here
      exact absurd (r.slot_inj (by omega) (by omega) here) (Nat.succ_ne_zero k).symm
    · rw [Function.update_of_ne front, h.live]
      constructor
      · rintro ⟨k, small, here⟩
        cases k with
        | zero => exact absurd (here.trans (slot_zero r)) front
        | succ k => exact ⟨k, by omega, here.trans (slot_dropHead r k).symm⟩
      · rintro ⟨k, small, here⟩
        exact ⟨k + 1, by omega, here.trans (slot_dropHead r k)⟩

theorem toList_dropHead {r : CountedRing α n} (some : 0 < r.count) :
    r.toList = r.slots r.head :: r.dropHead.toList := by
  obtain ⟨m, count⟩ := Nat.exists_eq_add_of_lt some
  have size : r.count = m + 1 := by omega
  have less : r.dropHead.count = m := by
    change r.count - 1 = m
    omega
  rw [toList, toList, size, less, List.range_succ_eq_map, List.map_cons, slot_zero, List.map_map]
  congr 1
  apply List.map_congr_left
  intro k _
  exact congrArg r.slots (slot_dropHead r k).symm

end CountedRing

end SmoArchipelago.Library
