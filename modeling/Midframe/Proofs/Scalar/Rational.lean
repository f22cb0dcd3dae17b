import Mathlib.Algebra.BigOperators.Ring.Finset
import Mathlib.Data.Rat.Cast.Order
import Mathlib.Data.Rat.Floor
import Midframe.Scalar

/-!
# Exact arithmetic

The array operations read in the rationals: nothing rounds, so that sums may be reordered and what
an operation computes can be given in closed form.
-/

namespace Midframe

/-- Rational samples. All of them are finite. -/
instance : Scalar ℚ where
  zero := 0
  one := 1
  ofNat n := n
  le a b := decide (a ≤ b)
  lt a b := decide (a < b)
  isZero a := a == 0
  isFinite _ := true
  truncate a := min a.floor.toNat (2 ^ 64 - 1)

/-- Positions are computed in the rationals too. -/
instance : Widening ℚ ℚ where
  widen := id
  narrow := id

namespace Scalar

theorem ratio_rat (num den : Nat) : (ratio num den : ℚ) = num / den := rfl

theorem nonnegative_rat (v : ℚ) : nonnegative v = max 0 v := by
  show (if decide (0 ≤ v) = true then v else 0) = max 0 v
  rw [max_def]
  simp only [decide_eq_true_eq]

/-- The whole part of a number that is no larger than a machine word can count. -/
theorem truncate_rat {v : ℚ} {n : Nat} (hv : v < n) (bound : n ≤ 2 ^ 64) : truncate v = ⌊v⌋₊ := by
  have hlt : ⌊v⌋₊ < 2 ^ 64 := by
    refine (Nat.floor_lt' (by decide)).mpr (hv.trans_le ?_)
    exact_mod_cast bound
  show min ⌊v⌋₊ (2 ^ 64 - 1) = ⌊v⌋₊
  omega

theorem isWithin_rat {v bound : ℚ} : isWithin v bound = true ↔ |v| < bound := by
  show (decide ((0 : ℚ) - bound < v) && decide (v < bound)) = true ↔ _
  rw [Bool.and_eq_true, decide_eq_true_eq, decide_eq_true_eq, zero_sub, abs_lt]

end Scalar

/-- A sum that is taken in a loop. -/
theorem fold_add_eq_sum (k : Nat) (f : Nat → ℚ) :
    Nat.fold k (fun i _ acc => acc + f i) 0 = ∑ i ∈ Finset.range k, f i := by
  induction k with
  | zero => rfl
  | succ k ih => rw [Nat.fold_succ, ih, Finset.sum_range_succ]

end Midframe
