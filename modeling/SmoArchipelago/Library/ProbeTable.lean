import Mathlib

/-! # Fixed-capacity set with linear probing

A table of `n` slots where one key marks a free slot. Insertion walks from the
key's start slot to the first slot that is free or holds the key.

## Implementation notes

`Valid` is the probing invariant: no free slot lies before a stored key on the
key's own walk. `ProbeTable` carries it, so membership is decided by the walk. -/

namespace SmoArchipelago.Library

/-- Slots and the number of keys stored. -/
structure RawTable (κ : Type*) (n : ℕ) where
  slots : Vector κ n
  size : ℕ

namespace RawTable

variable {κ : Type*} [DecidableEq κ] {n : ℕ}

/-- The slot `d` places after a start position. -/
def probe [NeZero n] (start d : ℕ) : Fin n := ⟨(start + d) % n, Nat.mod_lt _ (Nat.pos_of_neZero n)⟩

/-- Walk at most the given number of slots from distance `d`; `true` iff inserted. -/
def insertFrom [NeZero n] (free : κ) (start : ℕ) (k : κ) (t : RawTable κ n) :
    ℕ → ℕ → Bool × RawTable κ n
  | 0, _ => (false, t)
  | m + 1, d =>
      let cur := t.slots[(probe start d : Fin n)]
      if cur = free then
        (true, ⟨t.slots.set (probe start d : Fin n) k, t.size + 1⟩)
      else if cur = k then (false, t)
      else insertFrom free start k t m (d + 1)

/-- The keys in the table. -/
def stored (free : κ) (t : RawTable κ n) : List κ :=
  t.slots.toList.filter fun k => decide (k ≠ free)

/-- Every stored key is met on its walk before a free slot; keys are distinct. -/
structure Valid [NeZero n] (free : κ) (start : κ → ℕ) (t : RawTable κ n) : Prop where
  reach : ∀ k ∈ t.stored free, ∃ d < n, t.slots[(probe (start k) d : Fin n)] = k ∧
    ∀ d' < d, t.slots[(probe (start k) d' : Fin n)] ≠ free
  size_eq : t.size = (t.stored free).length
  distinct : (t.stored free).Nodup

theorem mem_stored {free k : κ} {t : RawTable κ n} :
    k ∈ t.stored free ↔ k ≠ free ∧ ∃ i : Fin n, t.slots[i] = k := by
  simp only [stored, List.mem_filter, Vector.mem_toList_iff, decide_eq_true_eq,
    Vector.mem_iff_getElem]
  constructor
  · rintro ⟨⟨i, hi, rfl⟩, ne⟩
    exact ⟨ne, ⟨i, hi⟩, rfl⟩
  · rintro ⟨ne, i, rfl⟩
    exact ⟨⟨i, i.isLt, rfl⟩, ne⟩

/-- Every slot lies on every walk of full length. -/
theorem exists_probe [NeZero n] (start : ℕ) (i : Fin n) :
    ∃ d < n, (probe start d : Fin n) = i := by
  have hi := i.isLt
  have hs := Nat.mod_lt start (Nat.pos_of_neZero n)
  refine ⟨(i + n - start % n) % n, Nat.mod_lt _ (Nat.pos_of_neZero n), Fin.ext ?_⟩
  change (start + (i + n - start % n) % n) % n = i
  rw [← Nat.mod_add_mod, Nat.add_mod_mod, show start % n + (i + n - start % n) = i + n by omega,
    Nat.add_mod_right, Nat.mod_eq_of_lt hi]

/-- Overwriting a dropped entry by a kept one adds it to the filtered list. -/
theorem filter_set_perm {α : Type*} (p : α → Bool) (k : α) (hk : p k = true) :
    ∀ (l : List α) (i : ℕ) (hi : i < l.length), p l[i] = false →
      ((l.set i k).filter p).Perm (k :: l.filter p)
  | a :: l, 0, _, ha => by
      simp only [List.getElem_cons_zero] at ha
      simp [hk, ha]
  | a :: l, i + 1, hi, ha => by
      have ih := filter_set_perm p k hk l i (by simpa using hi) (by simpa using ha)
      by_cases kept : p a = true
      · simp only [List.set_cons_succ, List.filter_cons_of_pos kept]
        exact (ih.cons a).trans (List.Perm.swap k a _)
      · simp only [List.set_cons_succ, List.filter_cons_of_neg kept]
        exact ih

/-- Storing a key in a free slot adds exactly that key. -/
theorem stored_set_perm {free k : κ} (hk : k ≠ free) {t : RawTable κ n} {i : Fin n}
    (hfree : t.slots[i] = free) (size : ℕ) :
    ((⟨t.slots.set i k, size⟩ : RawTable κ n).stored free).Perm (k :: t.stored free) := by
  simp only [stored, Vector.toList_set]
  refine filter_set_perm _ k (by simpa using hk) _ _ (by simp) ?_
  simpa using hfree

/-- What the walk finds: the key, a free slot it fills, or neither. -/
theorem insertFrom_cases [NeZero n] (free : κ) (start : ℕ) (k : κ) (t : RawTable κ n)
    (m d : ℕ) :
    (∃ e, d ≤ e ∧ e < d + m ∧ (∀ d', d ≤ d' → d' < e →
        t.slots[(probe start d' : Fin n)] ≠ free ∧ t.slots[(probe start d' : Fin n)] ≠ k) ∧
      ((t.slots[(probe start e : Fin n)] = free ∧ insertFrom free start k t m d =
          (true, ⟨t.slots.set (probe start e : Fin n) k, t.size + 1⟩)) ∨
        (t.slots[(probe start e : Fin n)] = k ∧ t.slots[(probe start e : Fin n)] ≠ free ∧
          insertFrom free start k t m d = (false, t)))) ∨
    ((∀ d', d ≤ d' → d' < d + m → t.slots[(probe start d' : Fin n)] ≠ free ∧
        t.slots[(probe start d' : Fin n)] ≠ k) ∧ insertFrom free start k t m d = (false, t)) := by
  induction m generalizing d with
  | zero => exact .inr ⟨fun d' h h' => absurd h' (by omega), rfl⟩
  | succ m ih =>
      by_cases hfree : t.slots[(probe start d : Fin n)] = free
      · refine .inl ⟨d, le_rfl, by omega, fun d' h h' => absurd h' (by omega), .inl ⟨hfree, ?_⟩⟩
        simp only [insertFrom, if_pos hfree]
      · by_cases hk : t.slots[(probe start d : Fin n)] = k
        · refine .inl ⟨d, le_rfl, by omega, fun d' h h' => absurd h' (by omega),
            .inr ⟨hk, hfree, ?_⟩⟩
          simp only [insertFrom, if_neg hfree, if_pos hk]
        · have unfolded : insertFrom free start k t (m + 1) d =
              insertFrom free start k t m (d + 1) := by
            simp only [insertFrom, if_neg hfree, if_neg hk]
          have here (d' : ℕ) (h : d ≤ d') (h' : ¬ d + 1 ≤ d') :
              t.slots[(probe start d' : Fin n)] ≠ free ∧
                t.slots[(probe start d' : Fin n)] ≠ k := by
            obtain rfl : d' = d := by omega
            exact ⟨hfree, hk⟩
          rw [unfolded]
          rcases ih (d + 1) with ⟨e, low, high, before, found⟩ | ⟨before, notFound⟩
          · refine .inl ⟨e, by omega, by omega, fun d' h h' => ?_, found⟩
            by_cases past : d + 1 ≤ d'
            · exact before d' past h'
            · exact here d' h past
          · refine .inr ⟨fun d' h h' => ?_, notFound⟩
            by_cases past : d + 1 ≤ d'
            · exact before d' past (by omega)
            · exact here d' h past

variable [NeZero n] {free : κ} {start : κ → ℕ} {t : RawTable κ n}

/-- A stored key is refused. -/
theorem insert_of_mem (valid : t.Valid free start) {k : κ} (hk : k ∈ t.stored free) :
    insertFrom free (start k) k t n 0 = (false, t) := by
  obtain ⟨d, hd, at_d, path⟩ := valid.reach k hk
  rcases insertFrom_cases free (start k) k t n 0 with
    ⟨e, -, -, before, ⟨is_free, -⟩ | ⟨-, -, same⟩⟩ | ⟨-, same⟩
  · -- the key itself would have stopped the walk before that free slot
    have later : d < e := by
      rcases lt_trichotomy e d with h | h | h
      · exact absurd is_free (path e h)
      · exact absurd (at_d.symm.trans (h ▸ is_free)) (mem_stored.1 hk).1
      · exact h
    exact absurd at_d (before d (Nat.zero_le d) later).2
  · exact same
  · exact same

/-- A new key is refused by a table without a free slot. -/
theorem insert_of_full {k : κ} (hk : k ∉ t.stored free)
    (full : ∀ i : Fin n, t.slots[i] ≠ free) :
    insertFrom free (start k) k t n 0 = (false, t) := by
  rcases insertFrom_cases free (start k) k t n 0 with
    ⟨e, -, -, -, ⟨is_free, -⟩ | ⟨is_key, not_free, -⟩⟩ | ⟨-, same⟩
  · exact absurd is_free (full _)
  · exact absurd (mem_stored.2 ⟨is_key ▸ not_free, _, is_key⟩) hk
  · exact same

/-- A new key goes to a free slot, and the table stays valid. -/
theorem insert_of_new (valid : t.Valid free start) {k : κ} (hne : k ≠ free)
    (hk : k ∉ t.stored free) (room : ∃ i : Fin n, t.slots[i] = free) :
    (insertFrom free (start k) k t n 0).1 = true ∧
      ((insertFrom free (start k) k t n 0).2.stored free).Perm (k :: t.stored free) ∧
      (insertFrom free (start k) k t n 0).2.Valid free start := by
  rcases insertFrom_cases free (start k) k t n 0 with
    ⟨e, -, he, before, ⟨is_free, inserted⟩ | ⟨is_key, not_free, -⟩⟩ | ⟨all, -⟩
  · rw [inserted]
    have perm := stored_set_perm hne is_free (t.size + 1)
    refine ⟨rfl, perm, ?_, ?_, ?_⟩
    · intro k' hk'
      have elsewhere (d : ℕ) (h : t.slots[(probe (start k') d : Fin n)] ≠ free) :
          (t.slots.set (probe (start k) e : Fin n) k)[(probe (start k') d : Fin n)] =
            t.slots[(probe (start k') d : Fin n)] := by
        refine Vector.getElem_set_ne (Fin.isLt _) (Fin.isLt _) fun same => h ?_
        rw [← is_free]
        exact congrArg (fun i : Fin n => t.slots[i]) (Fin.ext same.symm)
      rcases List.mem_cons.1 (perm.mem_iff.1 hk') with rfl | old
      · refine ⟨e, by omega, Vector.getElem_set_self _, fun d' h => ?_⟩
        have occupied := (before d' (Nat.zero_le d') h).1
        exact (elsewhere d' occupied).symm ▸ occupied
      · obtain ⟨d, hd, at_d, path⟩ := valid.reach k' old
        have occupied : t.slots[(probe (start k') d : Fin n)] ≠ free :=
          at_d.symm ▸ (mem_stored.1 old).1
        refine ⟨d, hd, (elsewhere d occupied).trans at_d, fun d' h => ?_⟩
        exact (elsewhere d' (path d' h)).symm ▸ path d' h
    · rw [perm.length_eq, List.length_cons, valid.size_eq]
    · exact perm.nodup_iff.2 (List.nodup_cons.2 ⟨hk, valid.distinct⟩)
  · exact absurd (mem_stored.2 ⟨is_key ▸ not_free, _, is_key⟩) hk
  · obtain ⟨i, hi⟩ := room
    obtain ⟨d, hd, rfl⟩ := exists_probe (start k) i
    exact absurd hi (all d (Nat.zero_le d) (by omega)).1

/-- The stored keys fill the table exactly when no slot is free. -/
theorem full_iff (valid : t.Valid free start) :
    (∀ i : Fin n, t.slots[i] ≠ free) ↔ n ≤ t.size := by
  have total : t.slots.toList.length = n := Vector.length_toList
  rw [valid.size_eq]
  constructor
  · intro full
    have kept : t.stored free = t.slots.toList := by
      refine List.filter_eq_self.2 fun k hk => ?_
      obtain ⟨i, hi, rfl⟩ := Vector.mem_iff_getElem.1 (Vector.mem_toList_iff.1 hk)
      simpa using full ⟨i, hi⟩
    rw [kept, total]
  · intro long i is_free
    have kept : t.stored free = t.slots.toList := by
      refine List.filter_sublist.eq_of_length (le_antisymm (List.length_filter_le _ _) ?_)
      exact total.le.trans long
    have mem : t.slots[i] ∈ t.stored free := by rw [kept]; simp
    exact (mem_stored.1 mem).1 is_free

theorem valid_empty (size_zero : t.size = 0) (all_free : t.stored free = []) :
    t.Valid free start where
  reach k hk := by rw [all_free] at hk; cases hk
  size_eq := by rw [all_free, size_zero]; rfl
  distinct := by rw [all_free]; exact List.nodup_nil

end RawTable

/-- A linear-probing set with its invariant. -/
structure ProbeTable (κ : Type*) [DecidableEq κ] (n : ℕ) [NeZero n] (free : κ) (start : κ → ℕ) where
  raw : RawTable κ n
  valid : raw.Valid free start

namespace ProbeTable

variable {κ : Type*} [DecidableEq κ] {n : ℕ} [NeZero n] {free : κ} {start : κ → ℕ}

/-- The keys in the table. -/
def keys (t : ProbeTable κ n free start) : List κ := t.raw.stored free

/-- Number of keys in the table. -/
def size (t : ProbeTable κ n free start) : ℕ := t.raw.size

theorem size_eq (t : ProbeTable κ n free start) : t.size = t.keys.length := t.valid.size_eq

private theorem insert_valid (t : ProbeTable κ n free start) (k : κ) (hk : k ≠ free) :
    (RawTable.insertFrom free (start k) k t.raw n 0).2.Valid free start := by
  by_cases mem : k ∈ t.raw.stored free
  · rw [RawTable.insert_of_mem t.valid mem]
    exact t.valid
  · by_cases full : ∀ i : Fin n, t.raw.slots[i] ≠ free
    · rw [RawTable.insert_of_full mem full]
      exact t.valid
    · simp only [not_forall, not_not] at full
      exact (RawTable.insert_of_new t.valid hk mem full).2.2

/-- Insert a key; `true` iff it was not stored and a slot was free. -/
def tryInsert (t : ProbeTable κ n free start) (k : κ) (hk : k ≠ free) :
    Bool × ProbeTable κ n free start :=
  ((RawTable.insertFrom free (start k) k t.raw n 0).1,
    ⟨(RawTable.insertFrom free (start k) k t.raw n 0).2, insert_valid t k hk⟩)

/-- A table of free slots. -/
def reset : ProbeTable κ n free start :=
  ⟨⟨Vector.replicate n free, 0⟩, RawTable.valid_empty rfl (by simp [RawTable.stored])⟩

@[simp] theorem keys_reset : (reset : ProbeTable κ n free start).keys = [] := by
  simp [keys, reset, RawTable.stored]

/-- The insertion reports true exactly for a new key and a table with room. -/
theorem tryInsert_fst (t : ProbeTable κ n free start) (k : κ) (hk : k ≠ free) :
    (t.tryInsert k hk).1 = true ↔ k ∉ t.keys ∧ t.size < n := by
  by_cases mem : k ∈ t.raw.stored free
  · simp [tryInsert, RawTable.insert_of_mem t.valid mem, keys, mem]
  · have full_iff := RawTable.full_iff t.valid
    by_cases full : ∀ i : Fin n, t.raw.slots[i] ≠ free
    · simp only [tryInsert, RawTable.insert_of_full mem full, Bool.false_eq_true, false_iff,
        not_and, not_lt]
      exact fun _ => full_iff.1 full
    · have room : t.size < n := not_le.1 fun h => full (full_iff.2 h)
      simp only [not_forall, not_not] at full
      simp only [tryInsert, (RawTable.insert_of_new t.valid hk mem full).1, true_iff]
      exact ⟨mem, room⟩

/-- An accepted key joins the table. -/
theorem keys_tryInsert {t : ProbeTable κ n free start} {k : κ} {hk : k ≠ free}
    (h : (t.tryInsert k hk).1 = true) : (t.tryInsert k hk).2.keys.Perm (k :: t.keys) := by
  obtain ⟨mem, room⟩ := (tryInsert_fst t k hk).1 h
  have not_full : ¬ ∀ i : Fin n, t.raw.slots[i] ≠ free := fun full =>
    absurd room (not_lt.2 ((RawTable.full_iff t.valid).1 full))
  simp only [not_forall, not_not] at not_full
  exact (RawTable.insert_of_new t.valid hk mem not_full).2.1

/-- A refused key leaves the table as it was. -/
theorem tryInsert_refused {t : ProbeTable κ n free start} {k : κ} {hk : k ≠ free}
    (h : (t.tryInsert k hk).1 = false) : (t.tryInsert k hk).2 = t := by
  by_cases mem : k ∈ t.raw.stored free
  · simp [tryInsert, RawTable.insert_of_mem t.valid mem]
  · by_cases full : ∀ i : Fin n, t.raw.slots[i] ≠ free
    · simp [tryInsert, RawTable.insert_of_full mem full]
    · simp only [not_forall, not_not] at full
      have accepted : (t.tryInsert k hk).1 = true := (RawTable.insert_of_new t.valid hk mem full).1
      rw [h] at accepted
      cases accepted

end ProbeTable

end SmoArchipelago.Library
