import Mathlib

/-! # Sweeps over places with items

Some places hold an item, and what is held decides which places can be reached; more items
never close a place. A sweep takes the items of reachable places one after the other
until none is left, and its result does not depend on the order in which it does. -/

namespace SmoArchipelago.Library.Sweep

variable {Loc Item : Type*}

/-- The items of some places. -/
def gained (item : Loc → Option Item) (places : List Loc) : Multiset Item :=
  Multiset.filterMap item places

section Gained

variable {item : Loc → Option Item}

@[simp] theorem gained_nil : gained item [] = 0 := rfl

@[simp] theorem gained_append (T T' : List Loc) :
    gained item (T ++ T') = gained item T + gained item T' := by
  rw [gained, ← Multiset.coe_add, Multiset.filterMap_add]
  rfl

theorem gained_cons (l : Loc) (T : List Loc) :
    gained item (l :: T) = gained item [l] + gained item T :=
  gained_append [l] T

/-- Distinct places whose items are among those of other places. -/
theorem gained_le_of_covered {T T' : List Loc} (distinct : T.Nodup)
    (covered : ∀ l ∈ T, (item l).isSome → l ∈ T') : gained item T ≤ gained item T' := by
  have only_items : gained item T = gained item (T.filter fun l => (item l).isSome) := by
    induction T with
    | nil => rfl
    | cons l T ih =>
        have others := ih distinct.of_cons fun m member => covered m (List.mem_cons_of_mem l member)
        rw [gained_cons, others]
        cases found : item l with
        | none =>
            have nothing : gained item [l] = 0 := by
              change ((List.filterMap item [l] : List Item) : Multiset Item) = 0
              rw [List.filterMap_cons_none found]
              rfl
            rw [List.filter_cons_of_neg (by rw [found]; exact Bool.false_ne_true), nothing, zero_add]
        | some i =>
            rw [List.filter_cons_of_pos (by rw [found]; rfl)]
            exact (gained_cons l _).symm
  rw [only_items]
  apply Multiset.filterMap_le_filterMap
  rw [Multiset.coe_le]
  apply List.subperm_of_subset (distinct.filter _)
  intro l member
  obtain ⟨listed, some_item⟩ := List.mem_filter.1 member
  exact covered l listed some_item

end Gained

/-- The items and the access rules of some places; an access rule that holds stays so. -/
structure Rules (Loc Item : Type*) where
  item : Loc → Option Item
  reach : Multiset Item → Loc → Bool
  mono : ∀ {h h' : Multiset Item} {l : Loc}, h ≤ h' → reach h l = true → reach h' l = true

variable (R : Rules Loc Item)

/-- Places of a set that can be taken one after the other from what is held, the last first. -/
inductive Course (S : Set Loc) (h : Multiset Item) : List Loc → Prop
  | nil : Course S h []
  | cons {T : List Loc} {l : Loc} (before : Course S h T) (among : l ∈ S) (fresh : l ∉ T)
      (reached : R.reach (h + gained R.item T) l = true) : Course S h (l :: T)

/-- A place that can be reached after taking places of the set. -/
def Obtains (S : Set Loc) (h : Multiset Item) (l : Loc) : Prop :=
  ∃ T, Course R S h T ∧ R.reach (h + gained R.item T) l = true

/-- No place of the set with an item is reachable and left. -/
def Swept (S : Set Loc) (held : Multiset Item) (T : List Loc) : Prop :=
  ∀ l ∈ S, (R.item l).isSome → R.reach held l = true → l ∈ T

variable {R} {S S' : Set Loc} {h h' : Multiset Item} {T : List Loc} {l : Loc}

theorem Course.nodup (c : Course R S h T) : T.Nodup := by
  induction c with
  | nil => exact List.nodup_nil
  | cons before among fresh reached ih => exact List.nodup_cons.2 ⟨fresh, ih⟩

theorem Course.mem (c : Course R S h T) : ∀ l ∈ T, l ∈ S := by
  induction c with
  | nil => exact fun l member => absurd member List.not_mem_nil
  | cons before among fresh reached ih => exact List.forall_mem_cons.2 ⟨among, ih⟩

theorem Course.mono (c : Course R S h T) (more : S ⊆ S') (le : h ≤ h') : Course R S' h' T := by
  induction c with
  | nil => exact .nil
  | cons before among fresh reached ih =>
      exact .cons ih (more among) fresh (R.mono (by gcongr) reached)

theorem Obtains.mono (o : Obtains R S h l) (more : S ⊆ S') (le : h ≤ h') : Obtains R S' h' l := by
  obtain ⟨T, course, reached⟩ := o
  exact ⟨T, course.mono more le, R.mono (by gcongr) reached⟩

/-- What is held at first and got at known places covers the items of a course, where
everything that can be reached with that has been taken. -/
theorem Course.covered {G C : List Loc} {held : Multiset Item}
    (c : Course R S (h + gained R.item G) T) (apart : ∀ l ∈ S, l ∉ G) (distinct : G.Nodup)
    (known : ∀ l ∈ G, (R.item l).isSome → l ∈ C) (enough : h + gained R.item C ≤ held)
    (swept : Swept R S held C) :
    (∀ l ∈ T, (R.item l).isSome → l ∈ C) ∧
      h + gained R.item G + gained R.item T ≤ held := by
  induction c with
  | nil =>
      refine ⟨fun l member => absurd member List.not_mem_nil, ?_⟩
      have le := gained_le_of_covered distinct known
      rw [gained_nil, add_zero]
      exact (by gcongr : h + gained R.item G ≤ h + gained R.item C).trans enough
  | @cons T l before among fresh reached ih =>
      obtain ⟨taken, le⟩ := ih
      have all : ∀ m ∈ l :: T, (R.item m).isSome → m ∈ C := by
        rw [List.forall_mem_cons]
        exact ⟨fun some_item => swept l among some_item (R.mono le reached), taken⟩
      refine ⟨all, ?_⟩
      have nodup : (G ++ l :: T).Nodup := by
        have later := (Course.cons before among fresh reached).nodup
        refine List.nodup_append'.2 ⟨distinct, later, fun m in_G in_T => ?_⟩
        exact apart m ((Course.cons before among fresh reached).mem m in_T) in_G
      have covered : ∀ m ∈ G ++ l :: T, (R.item m).isSome → m ∈ C := by
        intro m member
        rcases List.mem_append.1 member with first | second
        · exact known m first
        · exact all m second
      have le := gained_le_of_covered nodup covered
      rw [add_assoc, ← gained_append]
      exact (by gcongr : h + gained R.item (G ++ l :: T) ≤ h + gained R.item C).trans enough

/-! ## A sweep that computes -/

variable (R) [DecidableEq Loc]

/-- The next place that a sweep takes. -/
def next (places : List Loc) (h : Multiset Item) (T : List Loc) : Option Loc :=
  places.find? fun l => (R.item l).isSome && decide (l ∉ T) && R.reach (h + gained R.item T) l

def close (places : List Loc) (h : Multiset Item) : ℕ → List Loc → List Loc
  | 0, T => T
  | n + 1, T =>
      match next R places h T with
      | none => T
      | some l => close places h n (l :: T)

variable {R}

theorem close_course {places : List Loc} {n : ℕ} (c : Course R {l | l ∈ places ∧ (R.item l).isSome} h T) :
    Course R {l | l ∈ places ∧ (R.item l).isSome} h (close R places h n T) := by
  induction n generalizing T with
  | zero => exact c
  | succ n ih =>
      unfold close
      split
      · exact c
      · next l found =>
          have member := List.mem_of_find?_eq_some found
          have good := List.find?_some found
          simp only [Bool.and_eq_true, decide_eq_true_eq] at good
          exact ih (.cons c ⟨member, good.1.1⟩ good.1.2 good.2)

/-- After as many steps as there are places nothing is left. -/
theorem close_swept {places : List Loc} {n : ℕ}
    (c : Course R {l | l ∈ places ∧ (R.item l).isSome} h T) (enough : places.length ≤ n + T.length) :
    Swept R {l | l ∈ places} (h + gained R.item (close R places h n T)) (close R places h n T) := by
  induction n generalizing T with
  | zero =>
      have all : places ⊆ T := by
        have sub : T.Subperm places :=
          List.subperm_of_subset c.nodup fun l member => (c.mem l member).1
        exact (sub.perm_of_length_le (by omega)).symm.subset
      exact fun l member _ _ => all member
  | succ n ih =>
      unfold close
      split
      · next none_found =>
          intro l member some_item reached
          have not_next := List.find?_eq_none.1 none_found l member
          by_contra left
          exact not_next (by simp [some_item, left, reached])
      · next l found =>
          have member := List.mem_of_find?_eq_some found
          have good := List.find?_some found
          simp only [Bool.and_eq_true, decide_eq_true_eq] at good
          apply ih (.cons c ⟨member, good.1.1⟩ good.1.2 good.2)
          rw [List.length_cons]
          omega

end SmoArchipelago.Library.Sweep
