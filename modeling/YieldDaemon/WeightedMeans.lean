import Mathlib.Tactic

namespace WeightedMeans

open Finset

/-!
# Weighted means

The mean of some values under positive weights, over an ordered field.  It does
not change when all weights are divided by the same number, it lies between the
bounds of the values, and it may be taken with weights that were normalized
first.
-/

variable {F : Type} [Field F]

/-- The values of the first positions, weighted. -/
def mean (count : Nat) (weight value : Nat → F) : F :=
  (∑ p ∈ range count, weight p * value p) / ∑ p ∈ range count, weight p

/-- A loop that adds up terms from zero on computes their sum. -/
theorem foldl_add_eq_sum (term : Nat → F) (count : Nat) :
    (List.range count).foldl (fun sum p => sum + term p) 0 =
      ∑ p ∈ range count, term p := by
  induction count with
  | zero =>
      rfl
  | succ count inductionHypothesis =>
      rw [List.range_succ, List.foldl_append, inductionHypothesis,
        sum_range_succ]
      rfl

/-- Weights that are normalized before they are used give the mean. -/
theorem sum_normalized_eq_mean
    (count : Nat)
    (weight value : Nat → F) :
    ∑ p ∈ range count,
        weight p * (1 / ∑ q ∈ range count, weight q) * value p =
      mean count weight value := by
  rw [mean, sum_div]
  refine sum_congr rfl fun p _ => ?_
  rw [mul_one_div, div_mul_eq_mul_div]

/-- Weights that are all divided by one number give the same mean. -/
theorem mean_div
    {count : Nat}
    {weight value : Nat → F}
    {divisor : F}
    (nonzero : divisor ≠ 0) :
    mean count (fun p => weight p / divisor) value =
      mean count weight value := by
  have numerator :
      ∑ p ∈ range count, weight p / divisor * value p =
        (∑ p ∈ range count, weight p * value p) / divisor := by
    rw [sum_div]
    exact sum_congr rfl fun p _ => div_mul_eq_mul_div _ _ _
  rw [mean, numerator, ← sum_div, div_div_div_cancel_right₀ nonzero, mean]

section Ordered

variable
  [LinearOrder F]
  [IsStrictOrderedRing F]
  {count : Nat}
  {weight value : Nat → F}
  {bound : F}

/-- Positive weights of at least one position have a positive sum. -/
theorem sum_weight_pos
    (positive : ∀ p, 0 < weight p)
    (nonempty : 0 < count) :
    0 < ∑ p ∈ range count, weight p :=
  sum_pos (fun p _ => positive p) ⟨0, mem_range.mpr nonempty⟩

theorem mean_le
    (positive : ∀ p, 0 < weight p)
    (nonempty : 0 < count)
    (bounded : ∀ p < count, value p ≤ bound) :
    mean count weight value ≤ bound := by
  rw [mean, div_le_iff₀ (sum_weight_pos positive nonempty), mul_sum]
  refine sum_le_sum fun p member => ?_
  rw [mul_comm bound]
  exact mul_le_mul_of_nonneg_left (bounded p (mem_range.mp member))
    (positive p).le

theorem le_mean
    (positive : ∀ p, 0 < weight p)
    (nonempty : 0 < count)
    (bounded : ∀ p < count, bound ≤ value p) :
    bound ≤ mean count weight value := by
  rw [mean, le_div_iff₀ (sum_weight_pos positive nonempty), mul_sum]
  refine sum_le_sum fun p member => ?_
  rw [mul_comm bound]
  exact mul_le_mul_of_nonneg_left (bounded p (mem_range.mp member))
    (positive p).le

end Ordered

end WeightedMeans
