/-!
# `LossRecovery.Number.Total` — adding up

## Contents
- `total`: the sum of a list of natural numbers.

## Main statements
- `total_append`: the total of two lists after one another.
- `total_eq_zero_iff`: a total is zero if all its parts are.
-/

namespace LossRecovery.Number

/-- The sum of a list of natural numbers. -/
def total : List Nat → Nat
  | [] => 0
  | n :: rest => n + total rest

/-! ## Laws -/

@[simp] theorem total_nil : total [] = 0 := rfl

@[simp] theorem total_cons (n : Nat) (rest : List Nat) : total (n :: rest) = n + total rest := rfl

@[simp] theorem total_append (a b : List Nat) : total (a ++ b) = total a + total b := by
  induction a with
  | nil => simp
  | cons n rest ih => simp [ih, Nat.add_assoc]

/-- A total is zero if all its parts are. -/
theorem total_eq_zero_iff {ns : List Nat} : total ns = 0 ↔ ∀ n ∈ ns, n = 0 := by
  induction ns with
  | nil => simp
  | cons n rest ih => simp [ih]

end LossRecovery.Number
