import SmoArchipelago.Library.Runs
import SmoArchipelago.Switch.ApState

/-! # The hash set against a finite set

The loop of `tryInsert` over machine words is the linear probing of the library, so the
table is a finite set with a bound on its size, whatever the hashes are and wherever the
probes wrap around. -/

namespace SmoArchipelago.Switch

open Library Runs

/-- The slots and the count of the set with `2 ^ k` slots; a `size_t` holds no larger power. -/
abbrev HashSlots (k : Fin 64) := RawTable UInt64 (2 ^ (k : ℕ))

namespace HashSlots

variable {k : Fin 64}

instance neZero_slots (k : Fin 64) : NeZero (2 ^ (k : ℕ)) := ⟨(Nat.two_pow_pos _).ne'⟩

theorem mask_toNat (k : Fin 64) : (UInt64.ofNat (2 ^ (k : ℕ)) - 1).toNat = 2 ^ (k : ℕ) - 1 := by
  have small : 2 ^ (k : ℕ) < 2 ^ 64 := Nat.pow_lt_pow_right (by decide) k.isLt
  have size : (UInt64.ofNat (2 ^ (k : ℕ))).toNat = 2 ^ (k : ℕ) := by
    rw [UInt64.toNat_ofNat', Nat.mod_eq_of_lt small]
  rw [UInt64.toNat_sub_of_le, size, UInt64.toNat_one]
  rw [UInt64.le_iff_toNat_le, size]
  exact Nat.two_pow_pos _

/-- `(h + i) & (N - 1)`. -/
def slotIndex (k : Fin 64) (h i : UInt64) : Fin (2 ^ (k : ℕ)) :=
  ⟨((h + i) &&& (UInt64.ofNat (2 ^ (k : ℕ)) - 1)).toNat, by
    rw [UInt64.toNat_and, mask_toNat]
    exact lt_of_le_of_lt Nat.and_le_right (Nat.sub_one_lt (Nat.two_pow_pos _).ne')⟩

/-- The sum may wrap around at `2 ^ 64`, of which the number of slots is a divisor. -/
theorem slotIndex_eq (k : Fin 64) (h i : UInt64) :
    slotIndex k h i = RawTable.probe h.toNat i.toNat := by
  ext
  rw [FlatHashSet.probe_eq_mask k.isLt.le rfl]
  change ((h + i) &&& (UInt64.ofNat (2 ^ (k : ℕ)) - 1)).toNat = _
  rw [UInt64.toNat_and, mask_toNat]

/-- The loop of `tryInsert` from a value of its counter, with so many rounds left. -/
def probeLoop (h : UInt64) (t : HashSlots k) : ℕ → UInt64 → Bool × HashSlots k
  | 0, _ => (false, t)
  | rounds + 1, i =>
      let cur := t.slots[slotIndex k h i]
      if cur = 0 then (true, ⟨t.slots.set (slotIndex k h i) h, t.size + 1⟩)
      else if cur = h then (false, t)
      else probeLoop h t rounds (i + 1)

def tryInsert (h : UInt64) (t : HashSlots k) : Bool × HashSlots k :=
  probeLoop (FlatHashSet.stored h) t (2 ^ (k : ℕ)) 0

def reset (_ : HashSlots k) : HashSlots k := ⟨Vector.replicate _ 0, 0⟩

/-- The words in the slots that are not free. -/
def live (t : HashSlots k) : Finset UInt64 := (t.stored 0).toFinset

theorem probeLoop_eq (h : UInt64) (t : HashSlots k) {rounds d : ℕ} (bound : d + rounds ≤ 2 ^ 64) :
    probeLoop h t rounds (UInt64.ofNat d) = RawTable.insertFrom 0 h.toNat h t rounds d := by
  induction rounds generalizing d with
  | zero => rfl
  | succ rounds ih =>
      have counter : (UInt64.ofNat d).toNat = d := by
        rw [UInt64.toNat_ofNat', Nat.mod_eq_of_lt (by omega)]
      have next : UInt64.ofNat d + 1 = UInt64.ofNat (d + 1) := by
        rw [UInt64.ofNat_add]
        rfl
      have slot : slotIndex k h (UInt64.ofNat d) = RawTable.probe h.toNat d := by
        rw [slotIndex_eq, counter]
      simp only [probeLoop, RawTable.insertFrom, slot, next, ih (show d + 1 + rounds ≤ 2 ^ 64 by omega)]

theorem tryInsert_eq (h : UInt64) (t : HashSlots k) :
    tryInsert h t = RawTable.insertFrom 0 (FlatHashSet.stored h).toNat (FlatHashSet.stored h) t
      (2 ^ (k : ℕ)) 0 :=
  probeLoop_eq _ t (by
    rw [Nat.zero_add]
    exact Nat.pow_le_pow_right (by decide) k.isLt.le)

end HashSlots

/-! ## Runs -/

inductive HashCall where
  | tryInsert (h : UInt64)
  | reset

namespace HashCall

variable {k : Fin 64}

def step (t : HashSlots k) : HashCall → HashSlots k
  | tryInsert h => (HashSlots.tryInsert h t).2
  | reset => HashSlots.reset t

/-- A set as it is built: every slot free. -/
def start : HashSlots k := ⟨Vector.replicate _ 0, 0⟩

/-- The words that were inserted since the last reset. -/
def inserted (calls : List HashCall) : Finset UInt64 :=
  calls.foldl (fun words call =>
    match call with
    | tryInsert h => insert (FlatHashSet.stored h) words
    | reset => ∅) ∅

theorem inserted_concat (calls : List HashCall) (h : UInt64) :
    inserted (calls ++ [tryInsert h]) = insert (FlatHashSet.stored h) (inserted calls) := by
  simp [inserted, List.foldl_append]

theorem inserted_reset (calls : List HashCall) : inserted (calls ++ [reset]) = ∅ := by
  simp [inserted, List.foldl_append]

/-- What a table holds of the words that were inserted. -/
structure Holds (words : Finset UInt64) (t : HashSlots k) : Prop where
  valid : t.Valid 0 UInt64.toNat
  sound : t.live ⊆ words
  complete : t.size < 2 ^ (k : ℕ) → t.live = words

theorem holds_start : Holds (k := k) ∅ start where
  valid := RawTable.valid_empty rfl (by simp [start, RawTable.stored])
  sound := by simp [start, HashSlots.live, RawTable.stored]
  complete := by simp [start, HashSlots.live, RawTable.stored]

theorem size_eq_card {words : Finset UInt64} {t : HashSlots k} (holds : Holds words t) :
    t.size = t.live.card := by
  rw [HashSlots.live, List.toFinset_card_of_nodup holds.valid.distinct, holds.valid.size_eq]

theorem mem_live {t : HashSlots k} {h : UInt64} : h ∈ t.live ↔ h ∈ t.stored 0 := List.mem_toFinset

/-- An insertion into a table of the set. -/
theorem Holds.tryInsert {words : Finset UInt64} {t : HashSlots k} (holds : Holds words t)
    (h : UInt64) :
    Holds (insert (FlatHashSet.stored h) words) (HashSlots.tryInsert h t).2 ∧
      ((HashSlots.tryInsert h t).1 = true ↔
        FlatHashSet.stored h ∉ t.live ∧ t.size < 2 ^ (k : ℕ)) := by
  rw [HashSlots.tryInsert_eq, mem_live]
  by_cases old : FlatHashSet.stored h ∈ t.stored 0
  · rw [RawTable.insert_of_mem holds.valid old]
    have known : insert (FlatHashSet.stored h) words = words :=
      Finset.insert_eq_of_mem (holds.sound (mem_live.2 old))
    refine ⟨known.symm ▸ holds, iff_of_false Bool.false_ne_true fun new => new.1 old⟩
  by_cases full : ∀ i : Fin (2 ^ (k : ℕ)), t.slots[i] ≠ 0
  · rw [RawTable.insert_of_full old full]
    have size := (RawTable.full_iff holds.valid).1 full
    refine ⟨⟨holds.valid, holds.sound.trans (Finset.subset_insert _ _), fun room => ?_⟩,
      iff_of_false Bool.false_ne_true fun new => absurd new.2 (not_lt.2 size)⟩
    exact absurd room (not_lt.2 size)
  · have room : t.size < 2 ^ (k : ℕ) := not_le.1 fun size => full ((RawTable.full_iff holds.valid).2 size)
    simp only [not_forall, not_not] at full
    obtain ⟨accepted, perm, valid⟩ :=
      RawTable.insert_of_new holds.valid (FlatHashSet.stored_ne_zero h) old full
    have live : HashSlots.live (RawTable.insertFrom 0 (FlatHashSet.stored h).toNat
        (FlatHashSet.stored h) t (2 ^ (k : ℕ)) 0).2 = insert (FlatHashSet.stored h) words := by
      rw [HashSlots.live, List.toFinset_eq_of_perm _ _ perm, List.toFinset_cons]
      change insert _ t.live = _
      rw [holds.complete room]
    exact ⟨⟨valid, live.subset, fun _ => live⟩, iff_of_true accepted ⟨old, room⟩⟩

theorem holds_run (calls : List HashCall) :
    Holds (inserted calls) (run step (start : HashSlots k) calls) := by
  induction calls using List.reverseRecOn with
  | nil => exact holds_start
  | append_singleton calls call ih =>
      rw [run_append]
      cases call with
      | tryInsert h =>
          rw [inserted_concat]
          exact (ih.tryInsert h).1
      | reset =>
          rw [inserted_reset]
          exact holds_start

/-- After any calls, a word is taken exactly where it was not inserted since the last reset and
a slot is left, and the count is the number of words stored. -/
theorem hashSet_refines (k : Fin 64) (calls : List HashCall) (h : UInt64) :
    let t : HashSlots k := run step start calls
    ((HashSlots.tryInsert h t).1 = true ↔
        FlatHashSet.stored h ∉ inserted calls ∧ t.live.card < 2 ^ (k : ℕ)) ∧
      t.size = t.live.card ∧ t.live.card = min (inserted calls).card (2 ^ (k : ℕ)) ∧
      t.live ⊆ inserted calls ∧
      (FlatHashSet.stored h ∈ t.live → (HashSlots.tryInsert h t).1 = false) := by
  intro t
  have holds : Holds (inserted calls) t := holds_run calls
  have size : t.size = t.live.card := size_eq_card holds
  obtain ⟨-, taken⟩ := holds.tryInsert h
  refine ⟨?_, size, ?_, holds.sound, fun stored => ?_⟩
  · rw [taken, ← size]
    refine and_congr_left fun room => ?_
    rw [holds.complete room]
  · by_cases room : t.size < 2 ^ (k : ℕ)
    · rw [← holds.complete room, min_eq_left (size ▸ room.le)]
    · have slots : t.live.card ≤ 2 ^ (k : ℕ) := by
        rw [← size, holds.valid.size_eq]
        exact (List.length_filter_le _ _).trans Vector.length_toList.le
      have least := Finset.card_le_card holds.sound
      omega
  · have refused := mt taken.1 fun new => new.1 stored
    exact Bool.not_eq_true _ ▸ refused

end HashCall

end SmoArchipelago.Switch
