/-!
# `LossRecovery.Sorting` — stable sorting by a numeric key

## Contents
- `insertByKey`: put an element in front of the first one whose key is not smaller.
- `sortByKey`: ascending keys, elements of equal key in the order they came in.
- `mem_sortByKey`, `length_sortByKey`, `sorted_sortByKey`: nothing is lost, and the keys ascend.
-/

namespace LossRecovery.Sorting

variable {α : Type}

/-- Put `x` in front of the first element whose key is not smaller. -/
def insertByKey (key : α → Nat) (x : α) : List α → List α
  | [] => [x]
  | y :: ys => if key x ≤ key y then x :: y :: ys else y :: insertByKey key x ys

/-- Sort by ascending key, keeping the order of elements of equal key. -/
def sortByKey (key : α → Nat) : List α → List α
  | [] => []
  | x :: xs => insertByKey key x (sortByKey key xs)

/-! ## Laws -/

theorem perm_insertByKey (key : α → Nat) (x : α) (xs : List α) :
    (insertByKey key x xs).Perm (x :: xs) := by
  induction xs with
  | nil => exact List.Perm.refl _
  | cons y ys ih =>
    unfold insertByKey
    split
    · exact List.Perm.refl _
    · exact (List.Perm.cons y ih).trans (List.Perm.swap x y ys)

theorem perm_sortByKey (key : α → Nat) (xs : List α) : (sortByKey key xs).Perm xs := by
  induction xs with
  | nil => exact List.Perm.refl _
  | cons x xs ih => exact (perm_insertByKey key x _).trans (List.Perm.cons x ih)

theorem mem_sortByKey {key : α → Nat} {xs : List α} {a : α} :
    a ∈ sortByKey key xs ↔ a ∈ xs :=
  (perm_sortByKey key xs).mem_iff

theorem length_sortByKey (key : α → Nat) (xs : List α) :
    (sortByKey key xs).length = xs.length :=
  (perm_sortByKey key xs).length_eq

theorem sorted_insertByKey (key : α → Nat) (x : α) {xs : List α}
    (h : xs.Pairwise (fun a b => key a ≤ key b)) :
    (insertByKey key x xs).Pairwise (fun a b => key a ≤ key b) := by
  induction xs with
  | nil => exact List.pairwise_singleton _ x
  | cons y ys ih =>
    rw [List.pairwise_cons] at h
    unfold insertByKey
    split
    · next hxy =>
      refine List.pairwise_cons.mpr ⟨fun a ha => ?_, List.pairwise_cons.mpr h⟩
      rcases List.mem_cons.mp ha with rfl | ha
      · exact hxy
      · exact Nat.le_trans hxy (h.1 a ha)
    · next hxy =>
      refine List.pairwise_cons.mpr ⟨fun a ha => ?_, ih h.2⟩
      rcases List.mem_cons.mp ((perm_insertByKey key x ys).mem_iff.mp ha) with rfl | ha
      · omega
      · exact h.1 a ha

theorem sorted_sortByKey (key : α → Nat) (xs : List α) :
    (sortByKey key xs).Pairwise (fun a b => key a ≤ key b) := by
  induction xs with
  | nil => exact List.Pairwise.nil
  | cons x xs ih => exact sorted_insertByKey key x ih

end LossRecovery.Sorting
