import Mathlib

/-! # Insertion-ordered dictionaries

A write to a key that is present keeps the key's place; a new key goes to the end.
Keys are distinct by construction, so a lookup has one answer. -/

namespace SmoArchipelago.Library

/-- A dictionary as the list of its entries in insertion order. -/
structure Dict (κ ν : Type*) where
  entries : List (κ × ν)
  distinct : (entries.map Prod.fst).Nodup

namespace Dict

variable {κ ν : Type*}

@[ext] theorem ext {d d' : Dict κ ν} (h : d.entries = d'.entries) : d = d' := by
  cases d
  cases d'
  cases h
  rfl

def empty : Dict κ ν := ⟨[], List.nodup_nil⟩

def values (d : Dict κ ν) : List ν := d.entries.map Prod.snd

def keys (d : Dict κ ν) : List κ := d.entries.map Prod.fst

def size (d : Dict κ ν) : ℕ := d.entries.length

variable [DecidableEq κ]

/-- Overwrite the entry of the key, or append one. -/
def write (k : κ) (v : ν) : List (κ × ν) → List (κ × ν)
  | [] => [(k, v)]
  | e :: es => if e.1 = k then (k, v) :: es else e :: write k v es

theorem mem_keys_write (k k' : κ) (v : ν) (es : List (κ × ν)) :
    k' ∈ (write k v es).map Prod.fst ↔ k' = k ∨ k' ∈ es.map Prod.fst := by
  induction es with
  | nil => simp [write]
  | cons e es ih =>
      unfold write
      split_ifs with here
      · simp [here]
      · simp only [List.map_cons, List.mem_cons, ih]
        constructor
        · rintro (first | found | later)
          · exact .inr (.inl first)
          · exact .inl found
          · exact .inr (.inr later)
        · rintro (found | first | later)
          · exact .inr (.inl found)
          · exact .inl first
          · exact .inr (.inr later)

theorem nodup_write (k : κ) (v : ν) {es : List (κ × ν)} (h : (es.map Prod.fst).Nodup) :
    ((write k v es).map Prod.fst).Nodup := by
  induction es with
  | nil => exact List.nodup_singleton k
  | cons e es ih =>
      have parts := List.nodup_cons.1 h
      unfold write
      split_ifs with here
      · apply List.nodup_cons.2
        rw [← here]
        exact parts
      · apply List.nodup_cons.2
        constructor
        · intro member
          apply (mem_keys_write k e.1 v es).1 member |>.elim
          · exact here
          · exact parts.1
        · exact ih parts.2

def find (k : κ) : List (κ × ν) → Option ν
  | [] => none
  | e :: es => if e.1 = k then some e.2 else find k es

theorem find_write (k k' : κ) (v : ν) (es : List (κ × ν)) :
    find k' (write k v es) = if k' = k then some v else find k' es := by
  induction es with
  | nil => simp [write, find, eq_comm]
  | cons e es ih =>
      unfold write
      by_cases here : e.1 = k
      · rw [if_pos here]
        simp only [find]
        by_cases same : k' = k
        · simp [same]
        · have other : ¬ k = k' := fun h => same h.symm
          rw [if_neg other, if_neg same, here, if_neg other]
      · rw [if_neg here]
        simp only [find, ih]
        by_cases same : k' = k
        · rw [same, if_neg here, if_pos rfl, if_pos rfl]
        · simp only [if_neg same]

def get? (d : Dict κ ν) (k : κ) : Option ν := find k d.entries

def getD (d : Dict κ ν) (k : κ) (fallback : ν) : ν := (d.get? k).getD fallback

def set (d : Dict κ ν) (k : κ) (v : ν) : Dict κ ν := ⟨write k v d.entries, nodup_write k v d.distinct⟩

@[simp] theorem get?_empty (k : κ) : (empty : Dict κ ν).get? k = none := rfl

theorem get?_set (d : Dict κ ν) (k k' : κ) (v : ν) :
    (d.set k v).get? k' = if k' = k then some v else d.get? k' :=
  find_write k k' v d.entries

theorem find_eq_some {es : List (κ × ν)} (distinct : (es.map Prod.fst).Nodup) {k : κ} {v : ν} :
    find k es = some v ↔ (k, v) ∈ es := by
  induction es with
  | nil => simp [find]
  | cons e es ih =>
      obtain ⟨fresh, rest⟩ := List.nodup_cons.1 distinct
      simp only [find, List.mem_cons]
      split_ifs with here
      · constructor
        · intro same
          exact .inl (Prod.ext here.symm (Option.some.inj same).symm)
        · rintro (first | later)
          · rw [← first]
          · exact absurd (List.mem_map_of_mem later) (here ▸ fresh)
      · rw [ih rest]
        constructor
        · exact .inr
        · rintro (first | later)
          · exact absurd (congrArg Prod.fst first).symm here
          · exact later

theorem get?_eq_some {d : Dict κ ν} {k : κ} {v : ν} : d.get? k = some v ↔ (k, v) ∈ d.entries :=
  find_eq_some d.distinct

/-- A key that is not there is written at the end. -/
theorem write_of_not_mem {k : κ} (v : ν) {es : List (κ × ν)} (absent : k ∉ es.map Prod.fst) :
    write k v es = es ++ [(k, v)] := by
  induction es with
  | nil => rfl
  | cons e es ih =>
      rw [List.map_cons, List.mem_cons, not_or] at absent
      have other : ¬ e.1 = k := fun same => absent.1 same.symm
      rw [write, if_neg other, ih absent.2, List.cons_append]

theorem length_write_of_mem {k : κ} (v : ν) {es : List (κ × ν)} (member : k ∈ es.map Prod.fst) :
    (write k v es).length = es.length := by
  induction es with
  | nil => cases member
  | cons e es ih =>
      unfold write
      split_ifs with here
      · rfl
      · rw [List.map_cons, List.mem_cons] at member
        have later := member.resolve_left fun same => here same.symm
        rw [List.length_cons, ih later, List.length_cons]

theorem entries_set_of_not_mem {d : Dict κ ν} {k : κ} (absent : k ∉ d.keys) (v : ν) :
    (d.set k v).entries = d.entries ++ [(k, v)] :=
  write_of_not_mem v absent

theorem keys_set_of_mem {d : Dict κ ν} {k : κ} (member : k ∈ d.keys) (v : ν) :
    (d.set k v).keys = d.keys := by
  have step (es : List (κ × ν)) (here : k ∈ es.map Prod.fst) :
      (write k v es).map Prod.fst = es.map Prod.fst := by
    induction es with
    | nil => cases here
    | cons e es ih =>
        unfold write
        split_ifs with same
        · rw [List.map_cons, List.map_cons, same]
        · rw [List.map_cons, List.mem_cons] at here
          rw [List.map_cons, List.map_cons, ih (here.resolve_left fun h => same h.symm)]
  exact step d.entries member

/-- A new key takes one more entry. -/
theorem size_set_le (d : Dict κ ν) (k : κ) (v : ν) {n : ℕ} (few : d.size ≤ n)
    (room : k ∈ d.keys ∨ d.size < n) : (d.set k v).size ≤ n := by
  by_cases member : k ∈ d.keys
  · exact (length_write_of_mem v member).trans_le few
  · rw [size, entries_set_of_not_mem member, List.length_append]
    exact room.resolve_left member

theorem getD_of_mem {d : Dict κ ν} {e : κ × ν} (h : e ∈ d.entries) (fallback : ν) :
    d.getD e.1 fallback = e.2 := by
  rw [getD, get?_eq_some.2 h, Option.getD_some]

theorem getD_of_not_mem {d : Dict κ ν} {k : κ} (h : k ∉ d.keys) (fallback : ν) :
    d.getD k fallback = fallback := by
  cases here : d.get? k with
  | none => rw [getD, here, Option.getD_none]
  | some v => exact absurd (List.mem_map_of_mem (get?_eq_some.1 here)) h

theorem mem_keys_set (d : Dict κ ν) (k k' : κ) (v : ν) :
    k' ∈ (d.set k v).keys ↔ k' = k ∨ k' ∈ d.keys :=
  mem_keys_write k k' v d.entries

theorem mem_keys_iff {d : Dict κ ν} {k : κ} : k ∈ d.keys ↔ ∃ v, d.get? k = some v := by
  constructor
  · intro h
    obtain ⟨e, member, rfl⟩ := List.mem_map.1 h
    exact ⟨e.2, get?_eq_some.2 member⟩
  · rintro ⟨v, found⟩
    exact List.mem_map_of_mem (get?_eq_some.1 found)

section Writes

variable {ι : Type*} (key : ι → κ) (f : ι → ν)

theorem mem_keys_foldl_set (l : List ι) (d : Dict κ ν) (k : κ) :
    k ∈ (l.foldl (fun d i => d.set (key i) (f i)) d).keys ↔ k ∈ l.map key ∨ k ∈ d.keys := by
  induction l generalizing d with
  | nil => simp
  | cons i l ih =>
      rw [List.foldl_cons, ih, mem_keys_set, List.map_cons, List.mem_cons]
      constructor
      · rintro (later | first | old)
        · exact .inl (.inr later)
        · exact .inl (.inl first)
        · exact .inr old
      · rintro ((first | later) | old)
        · exact .inr (.inl first)
        · exact .inl later
        · exact .inr (.inr old)

/-- Writes under keys that tell the indices apart. -/
theorem get?_foldl_set [DecidableEq ι] (apart : Function.Injective key) (l : List ι)
    (d : Dict κ ν) (i : ι) :
    (l.foldl (fun d i => d.set (key i) (f i)) d).get? (key i) =
      if i ∈ l then some (f i) else d.get? (key i) := by
  induction l generalizing d with
  | nil => rfl
  | cons j l ih =>
      rw [List.foldl_cons, ih, get?_set]
      by_cases later : i ∈ l
      · rw [if_pos later, if_pos (List.mem_cons_of_mem j later)]
      · by_cases first : i = j
        · simp [first]
        · have other : ¬ key i = key j := fun same => first (apart same)
          simp [later, first, other]

end Writes

section Group

variable {ι : Type*} (key : ι → Option κ)

/-- Append to the list under the key, where there is a key. -/
def addTo (d : Dict κ (List ι)) (i : ι) : Dict κ (List ι) :=
  match key i with
  | some k => d.set k (d.getD k [] ++ [i])
  | none => d

/-- The members of a list by key, in the order in which they stand there. -/
def group (l : List ι) : Dict κ (List ι) := l.foldl (addTo key) empty

theorem getD_addTo (d : Dict κ (List ι)) (i : ι) (k : κ) :
    (d.addTo key i).getD k [] = d.getD k [] ++ [i].filter fun j => key j = some k := by
  cases found : key i with
  | none => simp [addTo, found]
  | some k' =>
      by_cases same : k = k'
      · simp [addTo, found, getD, get?_set, same]
      · have other : ¬ k' = k := fun h => same h.symm
        simp [addTo, found, getD, get?_set, same, other]

theorem mem_keys_addTo (d : Dict κ (List ι)) (i : ι) (k : κ) :
    k ∈ (d.addTo key i).keys ↔ key i = some k ∨ k ∈ d.keys := by
  cases found : key i with
  | none => simp [addTo, found]
  | some k' => simp [addTo, found, mem_keys_set, eq_comm]

theorem getD_group (l : List ι) (k : κ) :
    (group key l).getD k [] = l.filter fun i => key i = some k := by
  have step (d : Dict κ (List ι)) :
      (l.foldl (addTo key) d).getD k [] = d.getD k [] ++ l.filter fun i => key i = some k := by
    induction l generalizing d with
    | nil => exact (List.append_nil _).symm
    | cons i l ih =>
        rw [List.foldl_cons, ih, getD_addTo, List.append_assoc, ← List.filter_append,
          List.singleton_append]
  exact step empty

theorem mem_keys_group (l : List ι) (k : κ) :
    k ∈ (group key l).keys ↔ ∃ i ∈ l, key i = some k := by
  have step (d : Dict κ (List ι)) :
      k ∈ (l.foldl (addTo key) d).keys ↔ (∃ i ∈ l, key i = some k) ∨ k ∈ d.keys := by
    induction l generalizing d with
    | nil => simp
    | cons i l ih =>
        rw [List.foldl_cons, ih, mem_keys_addTo, List.exists_mem_cons_iff, or_assoc]
        exact or_left_comm
  exact (step empty).trans (or_iff_left List.not_mem_nil)

theorem entry_group {l : List ι} {e : κ × List ι} (member : e ∈ (group key l).entries) :
    e.2 = l.filter fun i => key i = some e.1 := by
  rw [← getD_group, getD_of_mem member]

/-- The groups together are the members that have a key. -/
theorem mem_values_group {l : List ι} {i : ι} :
    i ∈ (group key l).values.flatten ↔ i ∈ l ∧ (key i).isSome := by
  rw [values, List.mem_flatten]
  constructor
  · rintro ⟨g, member, here⟩
    obtain ⟨e, entry, rfl⟩ := List.mem_map.1 member
    rw [entry_group key entry, List.mem_filter, decide_eq_true_eq] at here
    exact ⟨here.1, Option.isSome_iff_exists.2 ⟨e.1, here.2⟩⟩
  · rintro ⟨listed, keyed⟩
    obtain ⟨k, found⟩ := Option.isSome_iff_exists.1 keyed
    obtain ⟨e, entry, rfl⟩ := List.mem_map.1 ((mem_keys_group key l k).2 ⟨i, listed, found⟩)
    refine ⟨e.2, List.mem_map_of_mem entry, ?_⟩
    rw [entry_group key entry, List.mem_filter, decide_eq_true_eq]
    exact ⟨listed, found⟩

theorem nodup_values_group {l : List ι} (distinct : l.Nodup) :
    (group key l).values.flatten.Nodup := by
  rw [List.nodup_flatten]
  constructor
  · intro g member
    obtain ⟨e, entry, rfl⟩ := List.mem_map.1 member
    rw [entry_group key entry]
    exact distinct.filter _
  · rw [values, List.pairwise_map]
    have keys_apart := List.pairwise_map.1 (group key l).distinct
    apply keys_apart.imp_of_mem
    intro e e' entry entry' apart i here here'
    rw [entry_group key entry, List.mem_filter, decide_eq_true_eq] at here
    rw [entry_group key entry', List.mem_filter, decide_eq_true_eq] at here'
    exact apart (Option.some.inj (here.2.symm.trans here'.2))

end Group

/-- Drop the entry of a key. -/
def erase (d : Dict κ ν) (k : κ) : Dict κ ν where
  entries := d.entries.filter fun e => e.1 ≠ k
  distinct := d.distinct.sublist (List.filter_sublist.map Prod.fst)

theorem get?_erase (d : Dict κ ν) (k k' : κ) :
    (d.erase k).get? k' = if k' = k then none else d.get? k' := by
  apply Option.ext
  intro v
  rw [get?_eq_some, erase, List.mem_filter]
  split_ifs with same
  · simp [same]
  · simp [same, get?_eq_some]

theorem mem_keys_erase (d : Dict κ ν) (k k' : κ) :
    k' ∈ (d.erase k).keys ↔ k' ≠ k ∧ k' ∈ d.keys := by
  simp only [mem_keys_iff, get?_erase]
  split_ifs with same <;> simp [same]

/-- A sum over the entries is a sum over any keys that cover them. -/
theorem sum_entries (d : Dict κ ℕ) {f : κ → ℕ → ℕ} (zero : ∀ k, f k 0 = 0) {K : Finset κ}
    (cover : ∀ k ∈ d.keys, k ∈ K) :
    (d.entries.map fun e => f e.1 e.2).sum = ∑ k ∈ K, f k (d.getD k 0) := by
  have here : d.keys.toFinset ⊆ K := fun k h => cover k (List.mem_toFinset.1 h)
  have outside : ∀ k ∈ K, k ∉ d.keys.toFinset → f k (d.getD k 0) = 0 := by
    intro k _ absent
    rw [getD_of_not_mem fun h => absent (List.mem_toFinset.2 h), zero]
  rw [← Finset.sum_subset here outside, List.sum_toFinset _ (show d.keys.Nodup from d.distinct), keys,
    List.map_map]
  congr 1
  apply List.map_congr_left
  intro e member
  rw [Function.comp_apply, getD_of_mem member]

/-- A write replaces one summand. -/
theorem sum_values_set (d : Dict κ ℕ) (k : κ) (v : ℕ) :
    (d.set k v).values.sum + d.getD k 0 = d.values.sum + v := by
  have step (es : List (κ × ℕ)) :
      ((write k v es).map Prod.snd).sum + (find k es).getD 0 = (es.map Prod.snd).sum + v := by
    induction es with
    | nil => simp [write, find]
    | cons e es ih =>
        unfold write find
        split_ifs with here
        · simp only [List.map_cons, List.sum_cons, Option.getD_some]
          omega
        · simp only [List.map_cons, List.sum_cons]
          omega
  exact step d.entries

theorem eq_empty {d : Dict κ ν} (h : ∀ k, d.get? k = none) : d = empty := by
  apply ext
  cases entries : d.entries with
  | nil => rfl
  | cons e es =>
      have absent := h e.1
      rw [get?, entries, find, if_pos rfl] at absent
      cases absent

/-- Add to the count under a key, which starts at zero. -/
def bump (d : Dict κ ℕ) (k : κ) (w : ℕ) : Dict κ ℕ := d.set k (d.getD k 0 + w)

theorem mem_keys_bump (d : Dict κ ℕ) (k k' : κ) (w : ℕ) :
    k' ∈ (d.bump k w).keys ↔ k' = k ∨ k' ∈ d.keys :=
  mem_keys_set d k k' _

theorem getD_bump (d : Dict κ ℕ) (k k' : κ) (w : ℕ) :
    (d.bump k w).getD k' 0 = d.getD k' 0 + if k' = k then w else 0 := by
  unfold bump getD
  rw [get?_set]
  by_cases same : k' = k
  · rw [if_pos same, if_pos same, same]
    rfl
  · rw [if_neg same, if_neg same, Nat.add_zero]

end Dict

section LastWrite

variable {ι σ α : Type*}

/-- The last value that the members of a list give, if any gives one. -/
def lastOf (f : ι → Option α) : List ι → Option α
  | [] => none
  | i :: l => (lastOf f l).or (f i)

theorem exists_of_lastOf {f : ι → Option α} {l : List ι} {a : α} (last : lastOf f l = some a) :
    ∃ i ∈ l, f i = some a := by
  induction l with
  | nil => cases last
  | cons i l ih =>
      rcases Option.or_eq_some_iff.1 last with later | ⟨-, here⟩
      · obtain ⟨j, member, tells⟩ := ih later
        exact ⟨j, List.mem_cons_of_mem _ member, tells⟩
      · exact ⟨i, List.mem_cons_self, here⟩

theorem lastOf_eq_none {f : ι → Option α} {l : List ι} :
    lastOf f l = none ↔ ∀ i ∈ l, f i = none := by
  induction l with
  | nil => simp [lastOf]
  | cons i l ih => simp [lastOf, ih, and_comm]

theorem lastOf_congr {f g : ι → Option α} {l : List ι} (same : ∀ i ∈ l, f i = g i) :
    lastOf f l = lastOf g l := by
  induction l with
  | nil => rfl
  | cons i l ih =>
      rw [lastOf, lastOf, ih fun j member => same j (List.mem_cons_of_mem _ member),
        same i List.mem_cons_self]

/-- Where only one value is ever given, the last one is it. -/
theorem lastOf_eq_some {f : ι → Option α} {l : List ι} {a : α}
    (only : ∀ i ∈ l, ∀ b ∈ f i, b = a) (told : ∃ i ∈ l, f i = some a) :
    lastOf f l = some a := by
  cases last : lastOf f l with
  | none =>
      obtain ⟨i, member, tells⟩ := told
      rw [lastOf_eq_none.1 last i member] at tells
      cases tells
  | some b =>
      obtain ⟨i, member, tells⟩ := exists_of_lastOf last
      rw [only i member b tells]

/-- A run of writes reads back as its last write, and as before where none wrote. -/
theorem read_foldl {step : σ → ι → σ} (read : σ → Option α) {f : ι → Option α}
    (writes : ∀ s i, read (step s i) = (f i).or (read s)) (l : List ι) (s : σ) :
    read (l.foldl step s) = (lastOf f l).or (read s) := by
  induction l generalizing s with
  | nil => rfl
  | cons i l ih => rw [List.foldl_cons, ih, writes, lastOf, Option.or_assoc]

theorem lastOf_append (f : ι → Option α) (l l' : List ι) :
    lastOf f (l ++ l') = (lastOf f l').or (lastOf f l) := by
  induction l with
  | nil => exact (Option.or_none).symm
  | cons i l ih => rw [List.cons_append, lastOf, ih, lastOf, Option.or_assoc]

/-- The member that gives the last value, with those behind it. -/
theorem lastOf_split {f : ι → Option α} {l : List ι} {a : α} :
    lastOf f l = some a ↔ ∃ l₁ i l₂, l = l₁ ++ i :: l₂ ∧ f i = some a ∧ ∀ j ∈ l₂, f j = none := by
  constructor
  · intro last
    induction l with
    | nil => cases last
    | cons i l ih =>
        rcases Option.or_eq_some_iff.1 last with later | ⟨silent, here⟩
        · obtain ⟨l₁, j, l₂, rfl, tells, behind⟩ := ih later
          exact ⟨i :: l₁, j, l₂, rfl, tells, behind⟩
        · exact ⟨[], i, l, rfl, here, lastOf_eq_none.1 silent⟩
  · rintro ⟨l₁, i, l₂, rfl, tells, behind⟩
    rw [lastOf_append, lastOf, lastOf_eq_none.2 behind, tells]
    rfl

/-- A run of writes that keep what is there reads back as its first one. -/
theorem read_foldl_first {step : σ → ι → σ} (read : σ → Option α) {f : ι → Option α}
    (writes : ∀ s i, read (step s i) = (read s).or (f i)) (l : List ι) (s : σ) :
    read (l.foldl step s) = (read s).or (l.findSome? f) := by
  induction l generalizing s with
  | nil => exact (Option.or_none).symm
  | cons i l ih =>
      rw [List.foldl_cons, ih, writes, Option.or_assoc, List.findSome?_cons]
      cases f i <;> rfl

end LastWrite

namespace Dict

variable {κ ν : Type*} [DecidableEq κ]

/-- The dictionaries hold the same, in whatever order. -/
def Same (d d' : Dict κ ν) : Prop := ∀ k, d.get? k = d'.get? k

theorem Same.size_le {d d' : Dict κ ν} (same : d.Same d') : d.size ≤ d'.size := by
  have entries : d.entries ⊆ d'.entries := by
    intro e member
    exact get?_eq_some.1 ((same e.1).symm.trans (get?_eq_some.2 member))
  exact (List.subperm_of_subset (List.Nodup.of_map Prod.fst d.distinct) entries).length_le

theorem Same.size_eq {d d' : Dict κ ν} (same : d.Same d') : d.size = d'.size :=
  le_antisymm same.size_le (Same.size_le fun k => (same k).symm)

end Dict

end SmoArchipelago.Library
