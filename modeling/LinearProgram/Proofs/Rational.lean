import Mathlib
import LinearProgram.Scalar

/-!
# Scalars read as rational numbers

Over `Rat` the distances and sums of the solver are the usual ones. Linear
functionals on families of numbers are put together from `coordinate`.
-/

namespace LinearProgram

@[simp] theorem magnitude_eq_abs (x : Rat) : magnitude x = |x| := by
  unfold magnitude
  split
  · rename_i h
    exact (abs_of_neg h).symm
  · rename_i h
    exact (abs_of_nonneg (not_lt.1 h)).symm

theorem near_iff {ε x y : Rat} : near ε x y = true ↔ |x - y| ≤ ε := by
  simp [near]

theorem near_zero_iff {x y : Rat} : near 0 x y = true ↔ x = y := by
  rw [near_iff, abs_nonpos_iff, sub_eq_zero]

@[simp] theorem sum_eq_sum (xs : List Rat) : sum xs = xs.sum := by
  simp [sum, List.sum_eq_foldl]

/-- One coordinate, multiplied by a number. -/
noncomputable def coordinate (a : Rat) (j : Nat) : (Nat → Rat) →ₗ[Rat] Rat := a • LinearMap.proj j

@[simp] theorem coordinate_apply (a : Rat) (j : Nat) (v : Nat → Rat) :
    coordinate a j v = a * v j := rfl

theorem coordinate_zero (j : Nat) : coordinate 0 j = 0 := zero_smul Rat _

theorem coordinate_add (a b : Rat) (j : Nat) :
    coordinate (a + b) j = coordinate a j + coordinate b j := add_smul a b _

end LinearProgram
