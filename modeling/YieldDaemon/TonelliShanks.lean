import Mathlib.Tactic

namespace TonelliShanks

/-!
# Square roots by Tonelli and Shanks

In a field, `r` is a candidate for a root of `a` that is off by a factor `t`.
The order of `t` is a power of two below that of `c`, so a power of `c` is the
root of a correction: it halves the order of `t`, until `t` is 1.
-/

variable {F : Type} [Field F]

/-- The candidate `r` is off by `t`, whose order is below that of `c`. -/
structure Progress (a : F) (m : Nat) (c t r : F) : Prop where
  positive : 0 < m
  square : r ^ 2 = a * t
  order : t ^ 2 ^ (m - 1) = 1
  generator : c ^ 2 ^ (m - 1) = -1

/-- `i` is the least exponent for which the `2^i`-th power of `t` is 1. -/
structure LeastOrder (t : F) (i : Nat) : Prop where
  order : t ^ 2 ^ i = 1
  least : ∀ j < i, t ^ 2 ^ j ≠ 1

section Lemmas

variable
  {a c t r : F}
  {m i j k : Nat}

theorem pow_two_pow_add (t : F) (j k : Nat) :
    (t ^ 2 ^ j) ^ 2 ^ k = t ^ 2 ^ (j + k) := by
  rw [← pow_mul, ← pow_add]

/-- Powers with the odd part of the group order start the search. -/
theorem Progress.start
    {z : F}
    {q s : Nat}
    (odd : q % 2 = 1)
    (positive : 0 < s)
    (square : a ^ (q * 2 ^ (s - 1)) = 1)
    (nonSquare : z ^ (q * 2 ^ (s - 1)) = -1) :
    Progress a s (z ^ q) (a ^ q) (a ^ ((q + 1) / 2)) := by
  have exponents : (q + 1) / 2 * 2 = q + 1 := by omega
  refine ⟨positive, ?_, ?_, ?_⟩
  · rw [← pow_mul, exponents, pow_succ']
  · rw [← pow_mul, square]
  · rw [← pow_mul, nonSquare]

/-- When `t` is 1 the candidate is a root. -/
theorem Progress.done
    (progress : Progress a m c t r)
    (isOne : t = 1) :
    r ^ 2 = a := by
  rw [progress.square, isOne, mul_one]

/-- Squaring `t` reaches 1 within the bound. -/
theorem Progress.le_bound
    (progress : Progress a m c t r)
    (least : ∀ j < i, t ^ 2 ^ j ≠ 1) :
    i ≤ m - 1 := by
  by_contra beyond
  exact least (m - 1) (Nat.lt_of_not_le beyond) progress.order

/-- The power before the first 1 is -1. -/
theorem LeastOrder.half
    (least : LeastOrder t i)
    (positive : 0 < i) :
    t ^ 2 ^ (i - 1) = -1 := by
  have squared : (t ^ 2 ^ (i - 1)) ^ 2 = 1 := by
    rw [← pow_mul, ← pow_succ, Nat.sub_add_cancel positive]
    exact least.order
  have notOne := least.least (i - 1) (Nat.sub_one_lt_of_lt positive)
  exact (sq_eq_one_iff.mp squared).resolve_left notOne

/-- A correction halves the order of what the candidate is off by. -/
theorem Progress.next
    (progress : Progress a m c t r)
    (least : LeastOrder t i)
    (notOne : t ≠ 1)
    {b : F}
    (correction : b = c ^ 2 ^ (m - i - 1)) :
    Progress a i (b * b) (t * (b * b)) (r * b) := by
  have positive : 0 < i := by
    rcases Nat.eq_zero_or_pos i with rfl | positive
    · exact absurd (by simpa using least.order) notOne
    · exact positive
  have bounded := progress.le_bound least.least
  have generator : (b * b) ^ 2 ^ (i - 1) = -1 := by
    have exponents : m - i - 1 + i = m - 1 := by omega
    rw [← pow_two, ← pow_mul, ← pow_succ', Nat.sub_add_cancel positive,
      correction, pow_two_pow_add, exponents]
    exact progress.generator
  refine ⟨positive, ?_, ?_, generator⟩
  · calc
      (r * b) ^ 2 = r ^ 2 * (b * b) := by ring
      _ = a * (t * (b * b)) := by rw [progress.square]; ring
  · rw [mul_pow, least.half positive, generator]
    ring

end Lemmas

end TonelliShanks
