import Mathlib

/-! # Orders split by kind

An order of things of several kinds is known only kind by kind. It can be put together
again so that each thing is good after those before it, exactly if some kind is free
whenever some things are left: all that is left of it is good. -/

namespace SmoArchipelago.Library.Interleave

variable {α κ : Type*}

/-- Each thing of a list is good after the things before it. -/
def InTurn (good : List α → α → Prop) : List α → List α → Prop
  | _, [] => True
  | before, m :: rest => good before m ∧ InTurn good (before ++ [m]) rest

variable {good : List α → α → Prop}

theorem inTurn_append (before G G' : List α) :
    InTurn good before (G ++ G') ↔ InTurn good before G ∧ InTurn good (before ++ G) G' := by
  induction G generalizing before with
  | nil => simp [InTurn]
  | cons m G ih =>
      simp only [List.cons_append, InTurn, ih, List.append_assoc, List.nil_append, and_assoc]

theorem InTurn.here {before G G' : List α} {m : α} (h : InTurn good before (G ++ m :: G')) :
    good (before ++ G) m :=
  ((inTurn_append before G (m :: G')).1 h).2.1

/-- What has the property somewhere in a list has it at a first place. -/
theorem exists_first {l : List α} {p : α → Prop} (h : ∃ m ∈ l, p m) :
    ∃ l₁ m l₂, l = l₁ ++ m :: l₂ ∧ p m ∧ ∀ x ∈ l₁, ¬ p x := by
  induction l with
  | nil =>
      obtain ⟨m, member, -⟩ := h
      exact absurd member List.not_mem_nil
  | cons a l ih =>
      by_cases now : p a
      · exact ⟨[], a, l, rfl, now, fun x member => absurd member List.not_mem_nil⟩
      · have later : ∃ m ∈ l, p m := by
          obtain ⟨m, member, holds⟩ := h
          rcases List.mem_cons.1 member with rfl | rest
          · exact absurd holds now
          · exact ⟨m, rest, holds⟩
        obtain ⟨l₁, m, l₂, rfl, holds, none_before⟩ := ih later
        exact ⟨a :: l₁, m, l₂, rfl, holds, List.forall_mem_cons.2 ⟨now, none_before⟩⟩

/-- The first member with a property is found in one way only. -/
theorem first_unique {p : α → Prop} {A A' X Y : List α} {b m : α} (same : A ++ b :: X = A' ++ m :: Y)
    (notA : ∀ x ∈ A, ¬ p x) (notA' : ∀ x ∈ A', ¬ p x) (hb : p b) (hm : p m) : b = m := by
  induction A generalizing A' with
  | nil =>
      cases A' with
      | nil => exact (List.cons.inj same).1
      | cons a A' => exact absurd ((List.cons.inj same).1 ▸ hb) (notA' a List.mem_cons_self)
  | cons a A ih =>
      cases A' with
      | nil => exact absurd ((List.cons.inj same).1 ▸ hm) (notA a List.mem_cons_self)
      | cons a' A' =>
          exact ih (List.cons.inj same).2 (fun x member => notA x (List.mem_cons_of_mem a member))
            fun x member => notA' x (List.mem_cons_of_mem a' member)

variable [DecidableEq κ] (kind : α → κ)

/-- After all the things of `P` are taken, all that is left of some kind is good. -/
def Free (good : List α → α → Prop) (P Q : List α) : Prop :=
  ∃ m ∈ Q, ∀ m' ∈ Q, kind m' = kind m → good P m'

/-- The things of one kind. -/
def ofKind (l : List α) (k : κ) : List α := l.filter fun m => kind m = k

theorem ofKind_append (l l' : List α) (k : κ) :
    ofKind kind (l ++ l') k = ofKind kind l k ++ ofKind kind l' k :=
  List.filter_append l l'

theorem mem_ofKind {l : List α} {k : κ} {m : α} : m ∈ ofKind kind l k ↔ m ∈ l ∧ kind m = k := by
  rw [ofKind, List.mem_filter, decide_eq_true_eq]

theorem ofKind_cons_self (m : α) (l : List α) : ofKind kind (m :: l) (kind m) = m :: ofKind kind l (kind m) :=
  List.filter_cons_of_pos (decide_eq_true rfl)

theorem ofKind_cons_of_ne {m : α} {k : κ} (other : kind m ≠ k) (l : List α) :
    ofKind kind (m :: l) k = ofKind kind l k :=
  List.filter_cons_of_neg (by rw [decide_eq_true_eq]; exact other)

/-- The first thing of a kind can be moved to the front. -/
theorem ofKind_front {R₁ R₂ : List α} {f : α} (none_before : ∀ x ∈ R₁, kind x ≠ kind f) (k : κ) :
    ofKind kind (f :: (R₁ ++ R₂)) k = ofKind kind (R₁ ++ f :: R₂) k := by
  by_cases same : kind f = k
  · subst same
    have nothing : ofKind kind R₁ (kind f) = [] := by
      apply List.eq_nil_iff_forall_not_mem.2
      intro x member
      obtain ⟨here, kind_eq⟩ := (mem_ofKind kind).1 member
      exact none_before x here kind_eq
    rw [ofKind_cons_self, ofKind_append, ofKind_append, ofKind_cons_self, nothing]
    rfl
  · rw [ofKind_cons_of_ne kind same, ofKind_append, ofKind_append, ofKind_cons_of_ne kind same]

/-- Where some kind is always free, what is left can be put into an order in which each
thing is good in its turn, without a change of the order within a kind. -/
theorem exists_interleaving {pool before rest : List α} (split : (before ++ rest).Perm pool)
    (free : ∀ P Q, (P ++ Q).Perm pool → before ⊆ P → Q ≠ [] → Free kind good P Q) :
    ∃ G, G.Perm rest ∧ (∀ k, ofKind kind G k = ofKind kind rest k) ∧ InTurn good before G := by
  induction n : rest.length generalizing before rest with
  | zero =>
      have done : rest = [] := List.length_eq_zero_iff.1 n
      subst done
      exact ⟨[], List.Perm.refl _, fun k => rfl, trivial⟩
  | succ n ih =>
      have left : rest ≠ [] := by
        rintro rfl
        cases n
      obtain ⟨m, member, all_good⟩ := free before rest split (List.Subset.refl before) left
      obtain ⟨R₁, f, R₂, rfl, same, none_before⟩ :=
        exists_first (show ∃ x ∈ rest, kind x = kind m from ⟨m, member, rfl⟩)
      have first_good : good before f := all_good f (List.mem_append_right R₁ List.mem_cons_self) same
      have split' : (before ++ [f] ++ (R₁ ++ R₂)).Perm pool := by
        have front : (f :: (R₁ ++ R₂)).Perm (R₁ ++ f :: R₂) := List.perm_middle.symm
        rw [List.append_assoc]
        exact (front.append_left before).trans split
      have free' : ∀ P Q, (P ++ Q).Perm pool → before ++ [f] ⊆ P → Q ≠ [] → Free kind good P Q :=
        fun P Q parts sub => free P Q parts fun x here => sub (List.mem_append_left [f] here)
      obtain ⟨G, perm, kinds, turn⟩ := ih split' free' (by simp at n ⊢; omega)
      refine ⟨f :: G, (perm.cons f).trans List.perm_middle.symm, fun k => ?_, first_good, turn⟩
      rw [← ofKind_front kind fun x member => same ▸ none_before x member]
      by_cases first_kind : kind f = k
      · subst first_kind
        rw [ofKind_cons_self, ofKind_cons_self, kinds]
      · rw [ofKind_cons_of_ne kind first_kind, ofKind_cons_of_ne kind first_kind, kinds]

/-- If the order that takes what is not good before what is good can be put together again,
some kind is free. -/
theorem free_of_interleaving [DecidableEq α] {pool P Q G : List α} (distinct : pool.Nodup)
    (mono : ∀ {P P' m}, P.Nodup → P ⊆ P' → good P m → good P' m)
    (split : (P ++ Q).Perm pool) (left : Q ≠ []) (perm : G.Perm pool) (turn : InTurn good [] G)
    {bad fine : List α} (parts : (bad ++ fine).Perm Q) (none_good : ∀ m ∈ bad, ¬ good P m)
    (all_good : ∀ m ∈ fine, good P m)
    (kinds : ∀ k, ofKind kind G k = ofKind kind (P ++ (bad ++ fine)) k) : Free kind good P Q := by
  have distinct_split : (P ++ Q).Nodup := split.nodup_iff.2 distinct
  have apart : ∀ x ∈ P, x ∉ Q := fun x inP inQ => List.disjoint_of_nodup_append distinct_split inP inQ
  have first : ∃ x ∈ G, x ∈ Q := by
    obtain ⟨q, member⟩ := List.exists_mem_of_ne_nil Q left
    exact ⟨q, perm.mem_iff.2 (split.mem_iff.1 (List.mem_append_right P member)), member⟩
  obtain ⟨G₁, m, G₂, rfl, member, none_before⟩ := exists_first first
  have G_distinct := perm.nodup_iff.2 distinct
  have before_in_P : G₁ ⊆ P := by
    intro x here
    have inPool := perm.mem_iff.1 (List.mem_append_left (m :: G₂) here)
    rcases List.mem_append.1 (split.mem_iff.2 inPool) with inP | inQ
    · exact inP
    · exact absurd inQ (none_before x here)
  have m_good : good P m := mono G_distinct.of_append_left before_in_P turn.here
  refine ⟨m, member, fun m' member' same => ?_⟩
  by_contra not_good
  have m'_bad : m' ∈ bad := by
    rcases List.mem_append.1 (parts.mem_iff.2 member') with isBad | isFine
    · exact isBad
    · exact absurd (all_good m' isFine) not_good
  obtain ⟨b, B, bads⟩ := List.exists_cons_of_ne_nil
    (List.ne_nil_of_mem ((mem_ofKind kind).2 ⟨m'_bad, same⟩))
  have b_here := (mem_ofKind kind).1 (bads ▸ List.mem_cons_self : b ∈ ofKind kind bad (kind m))
  have eq := kinds (kind m)
  rw [ofKind_append, ofKind_cons_self, ofKind_append, ofKind_append, bads, List.cons_append] at eq
  have same_first : m = b := by
    refine first_unique (p := fun x => x ∈ Q) eq (fun x here => ?_) (fun x here => ?_) member ?_
    · exact none_before x ((mem_ofKind kind).1 here).1
    · exact apart x ((mem_ofKind kind).1 here).1
    · exact parts.mem_iff.1 (List.mem_append_left fine b_here.1)
  exact none_good b b_here.1 (same_first ▸ m_good)

end SmoArchipelago.Library.Interleave
