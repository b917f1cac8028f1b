import Mathlib

/-! # The smallest keys

A table of bounded size that is filled in sorted order holds the smallest keys. A key
that has lost its place does not come back while keys are only added. -/

namespace SmoArchipelago.Library

variable {α : Type*} [LinearOrder α]

/-- The first `n` keys in sorted order. -/
def smallest (n : ℕ) (l : List α) : List α := (l.insertionSort (· ≤ ·)).take n

/-- A key is among the first `n` when fewer than `n` keys lie below it. -/
theorem mem_take_iff {l : List α} (sorted : l.Pairwise (· < ·)) {x : α} (h : x ∈ l) (n : ℕ) :
    x ∈ l.take n ↔ l.countP (· < x) < n := by
  induction l generalizing n with
  | nil => cases h
  | cons a l ih =>
      obtain ⟨least, rest⟩ := List.pairwise_cons.1 sorted
      cases n with
      | zero => simp
      | succ n =>
          rw [List.take_succ_cons, List.mem_cons, List.countP_cons]
          by_cases first : x = a
          · have none_below : l.countP (· < x) = 0 := by
              apply List.countP_eq_zero.2
              intro y later
              simpa [first] using (least y later).le
            rw [none_below]
            simp [first]
          · have later : x ∈ l := (List.mem_cons.1 h).resolve_left first
            have below : decide (a < x) = true := decide_eq_true (least x later)
            rw [ih rest later, if_pos below]
            simp [first]

theorem mem_smallest_iff {l : List α} (distinct : l.Nodup) (x : α) (n : ℕ) :
    x ∈ smallest n l ↔ x ∈ l ∧ l.countP (· < x) < n := by
  have order : (l.insertionSort (· ≤ ·)).Pairwise (· < ·) := by
    have perm := List.perm_insertionSort (· ≤ ·) l
    have different := (perm.nodup_iff.2 distinct)
    apply (List.Pairwise.and (List.pairwise_insertionSort (· ≤ ·) l) different).imp
    exact fun h => lt_of_le_of_ne h.1 h.2
  have perm := List.perm_insertionSort (· ≤ ·) l
  constructor
  · intro h
    have member : x ∈ l.insertionSort (· ≤ ·) := List.mem_of_mem_take h
    have few := (mem_take_iff order member n).1 h
    rw [perm.countP_eq] at few
    exact ⟨perm.mem_iff.1 member, few⟩
  · intro ⟨member, few⟩
    apply (mem_take_iff order (perm.mem_iff.2 member) n).2
    rw [perm.countP_eq]
    exact few

/-- Adding keys only pushes a key back. -/
theorem mem_smallest_of_subset {l l' : List α} (distinct : l.Nodup) (distinct' : l'.Nodup)
    (sub : l ⊆ l') {x : α} (here : x ∈ l) {n : ℕ} (h : x ∈ smallest n l') : x ∈ smallest n l := by
  apply (mem_smallest_iff distinct x n).2
  constructor
  · exact here
  · calc l.countP (· < x) ≤ l'.countP (· < x) :=
          (List.subperm_of_subset distinct sub).countP_le _
      _ < n := ((mem_smallest_iff distinct' x n).1 h).2

end SmoArchipelago.Library
