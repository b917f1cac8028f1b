import Mathlib

/-! # Bounded single-producer single-consumer ring

The ring keeps one slot free to tell full from empty, so a ring of `n` slots
holds `n - 1` entries. Its meaning is the queue `toList`, and each operation is
the FIFO operation on that list. -/

namespace SmoArchipelago.Library

/-- A cursor that passes the end once wraps to the front. -/
theorem wrap_eq {n a : ℕ} (h : a < 2 * n) : a % n = if a < n then a else a - n := by
  split_ifs with small
  · exact Nat.mod_eq_of_lt small
  · rw [Nat.mod_eq_sub_mod (by omega), Nat.mod_eq_of_lt (by omega)]

/-- A ring buffer with its two cursors. -/
structure RingBuffer (α : Type*) (n : ℕ) where
  buf : Vector α n
  head : Fin n
  tail : Fin n

namespace RingBuffer

variable {α : Type*} {n : ℕ}

/-- The slot after `i`, wrapping at the end. -/
def next (i : Fin n) : Fin n := ⟨(i + 1) % n, Nat.mod_lt _ i.pos⟩

/-- Store an entry at the head, or report a full ring. -/
def push (r : RingBuffer α n) (v : α) : Option (RingBuffer α n) :=
  if next r.head = r.tail then none
  else some { r with buf := r.buf.set r.head v, head := next r.head }

/-- The front entry, if the ring is not empty. -/
def peek (r : RingBuffer α n) : Option α :=
  if r.tail = r.head then none else some r.buf[r.tail]

/-- Advance past the front entry. -/
def popDiscard (r : RingBuffer α n) : RingBuffer α n := { r with tail := next r.tail }

/-- Take the front entry off. -/
def pop (r : RingBuffer α n) : Option (α × RingBuffer α n) :=
  (r.peek).map fun v => (v, r.popDiscard)

/-- Number of entries between the cursors. -/
def pending (r : RingBuffer α n) : ℕ := (r.head + n - r.tail) % n

/-- The slot holding the `k`-th entry. -/
def slot (r : RingBuffer α n) (k : ℕ) : Fin n := ⟨(r.tail + k) % n, Nat.mod_lt _ r.tail.pos⟩

/-- The queue the ring stands for, front first. -/
def toList (r : RingBuffer α n) : List α :=
  (List.range r.pending).map fun k => r.buf[r.slot k]

/-- Room for one more entry. -/
def HasRoom (r : RingBuffer α n) : Prop := next r.head ≠ r.tail

instance (r : RingBuffer α n) : Decidable r.HasRoom := inferInstanceAs (Decidable (_ ≠ _))

theorem pending_eq (r : RingBuffer α n) :
    r.pending = if r.tail ≤ r.head then (r.head : ℕ) - r.tail
      else (r.head : ℕ) + n - r.tail := by
  have hh := r.head.isLt
  have ht := r.tail.isLt
  rw [pending, wrap_eq (by omega)]
  simp only [Fin.le_def]
  split_ifs <;> omega

theorem next_val (i : Fin n) : (next i : ℕ) = if (i : ℕ) + 1 < n then (i : ℕ) + 1 else 0 := by
  have hi := i.isLt
  change ((i : ℕ) + 1) % n = _
  rw [wrap_eq (by omega)]
  split_ifs <;> omega

theorem slot_val (r : RingBuffer α n) {k : ℕ} (hk : k < n) :
    (r.slot k : ℕ) = if (r.tail : ℕ) + k < n then (r.tail : ℕ) + k else (r.tail : ℕ) + k - n := by
  have ht := r.tail.isLt
  exact wrap_eq (by omega)

theorem pending_lt (r : RingBuffer α n) : r.pending < n := Nat.mod_lt _ r.head.pos

@[simp] theorem length_toList (r : RingBuffer α n) : r.toList.length = r.pending := by
  simp [toList]

/-- The ring is full exactly when all slots but one are taken. -/
theorem hasRoom_iff (r : RingBuffer α n) : r.HasRoom ↔ r.toList.length < n - 1 := by
  have hh := r.head.isLt
  have ht := r.tail.isLt
  rw [length_toList, pending_eq, HasRoom, ne_eq, Fin.ext_iff, next_val]
  simp only [Fin.le_def]
  split_ifs <;> omega

theorem push_of_room {r : RingBuffer α n} (h : r.HasRoom) (v : α) :
    r.push v = some { r with buf := r.buf.set r.head v, head := next r.head } :=
  if_neg h

theorem push_of_full {r : RingBuffer α n} (h : ¬ r.HasRoom) (v : α) : r.push v = none :=
  if_pos (not_not.1 h)

theorem pending_pushed {r : RingBuffer α n} (h : r.HasRoom) (v : α) :
    ({ r with buf := r.buf.set r.head v, head := next r.head } : RingBuffer α n).pending =
      r.pending + 1 := by
  have hh := r.head.isLt
  have ht := r.tail.isLt
  have room : (next r.head : ℕ) ≠ r.tail := fun e => h (Fin.ext e)
  rw [next_val] at room
  rw [pending_eq, pending_eq]
  simp only [Fin.le_def, next_val]
  split_ifs at room ⊢ <;> omega

theorem slot_ne_head (r : RingBuffer α n) {k : ℕ} (hk : k < r.pending) : r.slot k ≠ r.head := by
  have hn := r.pending_lt
  have hh := r.head.isLt
  have ht := r.tail.isLt
  rw [ne_eq, Fin.ext_iff, slot_val r (by omega)]
  rw [pending_eq] at hk
  simp only [Fin.le_def] at hk
  split_ifs at hk ⊢ <;> omega

theorem slot_pending (r : RingBuffer α n) : r.slot r.pending = r.head := by
  have hn := r.pending_lt
  have hh := r.head.isLt
  have ht := r.tail.isLt
  rw [Fin.ext_iff, slot_val r hn, pending_eq]
  simp only [Fin.le_def]
  split_ifs <;> omega

/-- A push with room appends its entry to the queue. -/
theorem toList_pushed {r : RingBuffer α n} (h : r.HasRoom) (v : α) :
    ({ r with buf := r.buf.set r.head v, head := next r.head } : RingBuffer α n).toList =
      r.toList ++ [v] := by
  rw [toList, pending_pushed h, List.range_succ, List.map_append, List.map_singleton]
  congr 1
  · apply List.map_congr_left
    intro k hk
    have distinct : (r.head : ℕ) ≠ r.slot k := fun e =>
      slot_ne_head r (List.mem_range.1 hk) (Fin.ext e.symm)
    exact Vector.getElem_set_ne r.head.isLt (r.slot k).isLt distinct
  · have at_head : (r.slot r.pending : ℕ) = r.head := congrArg Fin.val (slot_pending r)
    simp only [List.cons.injEq, and_true]
    change (r.buf.set r.head v)[(r.slot r.pending : ℕ)] = v
    simp [at_head]

/-- An unchecked push: the entry is queued if there is room and gone if not. -/
theorem toList_push_getD (r : RingBuffer α n) (v : α) :
    ((r.push v).getD r).toList = if r.HasRoom then r.toList ++ [v] else r.toList := by
  split_ifs with h
  · rw [push_of_room h]
    exact toList_pushed h v
  · rw [push_of_full h, Option.getD_none]

theorem empty_iff (r : RingBuffer α n) : r.tail = r.head ↔ r.pending = 0 := by
  have hh := r.head.isLt
  have ht := r.tail.isLt
  rw [pending_eq, Fin.ext_iff]
  simp only [Fin.le_def]
  split_ifs <;> omega

theorem toList_eq_cons {r : RingBuffer α n} (h : 0 < r.pending) :
    r.toList = r.buf[r.tail] :: r.popDiscard.toList := by
  have hn := r.pending_lt
  have ht := r.tail.isLt
  have hh := r.head.isLt
  have shorter : r.popDiscard.pending = r.pending - 1 := by
    rw [pending_eq, pending_eq] at *
    simp only [Fin.le_def, popDiscard, next_val] at *
    split_ifs at * <;> omega
  obtain ⟨m, hm⟩ : ∃ m, r.pending = m + 1 := ⟨r.pending - 1, by omega⟩
  have first : r.slot 0 = r.tail := by
    rw [Fin.ext_iff, slot_val r (by omega)]; simp
  have later (k : ℕ) (hk : k < m) : r.slot (k + 1) = r.popDiscard.slot k := by
    rw [Fin.ext_iff, slot_val r (by omega), slot_val _ (by omega)]
    simp only [popDiscard, next_val]
    split_ifs <;> omega
  rw [toList, toList, shorter, hm, Nat.add_sub_cancel, List.range_succ_eq_map,
    List.map_cons, List.map_map]
  congr 1
  · exact congrArg (fun i : Fin n => r.buf[i]) first
  · apply List.map_congr_left
    intro k hk
    exact congrArg (fun i : Fin n => r.buf[i]) (later k (List.mem_range.1 hk))

/-- Peeking reads the front of the queue. -/
theorem peek_eq (r : RingBuffer α n) : r.peek = r.toList.head? := by
  by_cases h : r.tail = r.head
  · have none_left : r.toList = [] := by
      rw [← List.length_eq_zero_iff, length_toList, ← empty_iff, h]
    rw [peek, if_pos h, none_left, List.head?_nil]
  · have some_left : 0 < r.pending := Nat.pos_of_ne_zero fun e => h ((empty_iff r).2 e)
    rw [peek, if_neg h, toList_eq_cons some_left, List.head?_cons]

/-- Discarding the front of a non-empty ring is the tail of its queue. -/
theorem toList_popDiscard {r : RingBuffer α n} {v : α} {vs : List α} (h : r.toList = v :: vs) :
    r.popDiscard.toList = vs := by
  have some_left : 0 < r.pending := by rw [← length_toList, h]; simp
  rw [toList_eq_cons some_left] at h
  exact (List.cons.inj h).2

/-- Popping is the FIFO pop of the queue. -/
theorem pop_eq (r : RingBuffer α n) :
    r.pop.map (fun p => (p.1, p.2.toList)) =
      match r.toList with
      | [] => none
      | v :: vs => some (v, vs) := by
  rw [pop, peek_eq]
  cases h : r.toList with
  | nil => rfl
  | cons v vs => simp [toList_popDiscard h]

/-- Discard entries until the ring is empty. -/
def drain (r : RingBuffer α n) : RingBuffer α n := popDiscard^[r.pending] r

@[simp] theorem toList_drain (r : RingBuffer α n) : r.drain.toList = [] := by
  have all (vs : List α) (r : RingBuffer α n) (h : r.toList = vs) :
      (popDiscard^[vs.length] r).toList = [] := by
    induction vs generalizing r with
    | nil => exact h
    | cons v vs ih =>
        rw [List.length_cons, Function.iterate_succ_apply]
        exact ih _ (toList_popDiscard h)
  rw [drain, ← length_toList]
  exact all r.toList r rfl

/-- A ring with both cursors at its first slot. -/
def empty (n : ℕ) [NeZero n] (fill : α) : RingBuffer α n := ⟨Vector.replicate n fill, 0, 0⟩

@[simp] theorem toList_empty (n : ℕ) [NeZero n] (fill : α) : (empty n fill).toList = [] := by
  rw [← List.length_eq_zero_iff, length_toList, ← empty_iff]
  rfl

end RingBuffer

end SmoArchipelago.Library
