import Mathlib.Data.List.Forall2

/-! # Mapping a list into `Option`

The result of `mapM` has an image for each member, and it fails where one of them has none. -/

namespace SmoArchipelago.Library

variable {α β : Type*}

theorem mapM_isSome (f : α → Option β) (xs : List α) :
    (xs.mapM f).isSome ↔ ∀ x ∈ xs, (f x).isSome := by
  induction xs with
  | nil => simp
  | cons x xs ih =>
      rw [List.mapM_cons, List.forall_mem_cons, ← ih]
      cases f x with
      | none => simp
      | some y => cases xs.mapM f <;> simp

theorem forall₂_of_mapM {f : α → Option β} {xs : List α} {ys : List β}
    (mapped : xs.mapM f = some ys) : List.Forall₂ (fun x y => f x = some y) xs ys := by
  induction xs generalizing ys with
  | nil =>
      cases mapped
      exact .nil
  | cons x xs ih =>
      rw [List.mapM_cons] at mapped
      obtain ⟨y, image, mapped⟩ := Option.bind_eq_some_iff.1 mapped
      obtain ⟨ys', images, here⟩ := Option.bind_eq_some_iff.1 mapped
      cases here
      exact .cons image (ih images)

theorem exists_of_forall₂_left {R : α → β → Prop} {xs : List α} {ys : List β}
    (related : List.Forall₂ R xs ys) {x : α} (member : x ∈ xs) : ∃ y ∈ ys, R x y := by
  induction related with
  | nil => cases member
  | cons here _ ih =>
      rcases List.mem_cons.1 member with rfl | later
      · exact ⟨_, List.mem_cons_self, here⟩
      · obtain ⟨y, inside, holds⟩ := ih later
        exact ⟨y, List.mem_cons_of_mem _ inside, holds⟩

theorem exists_of_forall₂_right {R : α → β → Prop} {xs : List α} {ys : List β}
    (related : List.Forall₂ R xs ys) {y : β} (member : y ∈ ys) : ∃ x ∈ xs, R x y :=
  exists_of_forall₂_left related.flip member

end SmoArchipelago.Library
