import Mathlib.Data.Nat.MaxPowDiv
import Mathlib.Tactic

namespace EuclideanGcd

/-!
# Greatest common divisors by recursion and by halving

The Euclidean recursion on `(b % a, a)` carries Bezout coefficients that are no
larger than the other number, which bounds every product and difference on the
way.  The binary algorithm keeps the greatest common divisor of the odd parts
and one power of two.
-/

/-- Coefficients of the greatest common divisor that the numbers bound. -/
structure Bezout (a b : Nat) (x y : Int) : Prop where
  combination : a * x + b * y = Nat.gcd a b
  left : |x| ≤ max b 1
  right : |y| ≤ max a 1
  vanishes : a = 0 → x = 0

namespace Bezout

variable {a b : Nat} {x y : Int}

theorem zero (b : Nat) : Bezout 0 b 0 1 where
  combination := by simp
  left := by simp
  right := by simp
  vanishes _ := rfl

/-- A positive left number bounds the coefficient of the right one. -/
theorem right_le (bezout : Bezout a b x y) (positive : 0 < a) : |y| ≤ a := by
  have bound := bezout.right
  omega

/-- The quotient times the coefficient stays below the number divided. -/
theorem quotient_mul_le
    (bezout : Bezout (b % a) a x y)
    (positive : 0 < a) :
    |((b / a : Nat) : Int) * x| ≤ b := by
  have small : |x| ≤ (a : Int) := by
    have bound := bezout.left
    omega
  rw [abs_mul, Nat.abs_cast]
  calc
    ((b / a : Nat) : Int) * |x| ≤ ((b / a : Nat) : Int) * a :=
      mul_le_mul_of_nonneg_left small (Int.natCast_nonneg _)
    _ ≤ b := by
      exact_mod_cast Nat.div_mul_le_self b a

/-- One step back through the Euclidean recursion. -/
theorem step
    (bezout : Bezout (b % a) a x y)
    (positive : 0 < a) :
    Bezout a b (y - ((b / a : Nat) : Int) * x) x where
  combination := by
    have divided : ((b % a : Nat) : Int) + a * ((b / a : Nat) : Int) = b := by
      exact_mod_cast Nat.mod_add_div b a
    calc
      (a : Int) * (y - ((b / a : Nat) : Int) * x) + b * x =
          ((b % a : Nat) : Int) * x + a * y := by
        rw [← divided]
        ring
      _ = Nat.gcd a b := by
        rw [bezout.combination, Nat.gcd_rec a b]
  left := by
    rcases Nat.eq_zero_or_pos (b % a) with divides | remains
    · -- Without a remainder only the last coefficient is left.
      have bound := bezout.right
      rw [bezout.vanishes divides, mul_zero, sub_zero]
      omega
    · have product : |((b / a : Nat) : Int) * x| ≤ ((b / a * a : Nat) : Int) := by
        rw [abs_mul, Nat.abs_cast, Nat.cast_mul]
        refine mul_le_mul_of_nonneg_left ?_ (Int.natCast_nonneg _)
        have bound := bezout.left
        omega
      have coefficient := bezout.right_le remains
      have difference := abs_sub y (((b / a : Nat) : Int) * x)
      have divided := Nat.mod_add_div' b a
      omega
  right := by
    have bound := bezout.left
    omega
  vanishes isZero := absurd isZero positive.ne'

/-- Coefficients of coprime numbers give an inverse of the left one. -/
theorem inverse
    (bezout : Bezout a b x y)
    (coprime : Nat.gcd a b = 1)
    {inverse : Nat}
    (reduces : (inverse : Int) ≡ x [ZMOD b]) :
    a * inverse ≡ 1 [MOD b] := by
  rw [← Int.natCast_modEq_iff, Nat.cast_mul, Nat.cast_one]
  have combination := bezout.combination
  rw [coprime, Nat.cast_one] at combination
  calc
    (a : Int) * inverse ≡ a * x [ZMOD b] := reduces.mul_left a
    _ ≡ a * x + b * y [ZMOD b] := by
      rw [Int.modEq_iff_dvd]
      exact ⟨y, by ring⟩
    _ = 1 := combination

end Bezout

/-- Reducing twice with the divisor added between gives the residue. -/
theorem tmod_add_tmod
    {divisor : Int}
    (positive : 0 < divisor)
    (value : Int) :
    (value.tmod divisor + divisor).tmod divisor = value % divisor := by
  have above := Int.lt_tmod_of_pos value positive
  rw [Int.tmod_eq_emod_of_nonneg (by omega), Int.add_emod_right, Int.tmod_def,
    Int.sub_mul_emod_self_left]

/-- A common power of two divides both numbers. -/
theorem pow_two_dvd_or_iff {a b k : Nat} :
    2 ^ k ∣ a ||| b ↔ 2 ^ k ∣ a ∧ 2 ^ k ∣ b := by
  rw [Nat.dvd_iff_mod_eq_zero, Nat.dvd_iff_mod_eq_zero,
    Nat.dvd_iff_mod_eq_zero, Nat.or_mod_two_pow, Nat.or_eq_zero_iff]

/-- A power of two does not change the divisors in common with an odd number. -/
theorem gcd_pow_two_mul
    {a b : Nat}
    (odd : Odd a)
    (k : Nat) :
    Nat.gcd a (2 ^ k * b) = Nat.gcd a b :=
  Nat.Coprime.gcd_mul_left_cancel_right b
    (Nat.Coprime.pow_left k (Nat.coprime_two_left.mpr odd))

/-- The odd part of a number that is not zero is odd and no larger. -/
theorem divMaxPow_odd
    {value : Nat}
    (nonzero : value ≠ 0) :
    Odd (value.divMaxPow 2) ∧ value.divMaxPow 2 ≤ value := by
  have divides : value.divMaxPow 2 ∣ value :=
    ⟨2 ^ padicValNat 2 value,
      (Nat.divMaxPow_mul_pow_padicValNat 2 value).symm⟩
  refine ⟨?_, Nat.le_of_dvd (Nat.pos_of_ne_zero nonzero) divides⟩
  rw [← Nat.not_even_iff_odd, even_iff_two_dvd]
  exact Nat.not_dvd_divMaxPow (by decide) nonzero

/-- The common power of two and the divisors of an odd part make up a gcd. -/
theorem gcd_eq_pow_two_mul
    {a b : Nat}
    (nonzero : a ≠ 0) :
    Nat.gcd a b =
      2 ^ padicValNat 2 (a ||| b) * Nat.gcd (a.divMaxPow 2) b := by
  have orNonzero : a ||| b ≠ 0 := fun isZero =>
    nonzero (Nat.or_eq_zero_iff.mp isZero).1
  have common (k : Nat) :
      2 ^ k ∣ a ∧ 2 ^ k ∣ b ↔ k ≤ padicValNat 2 (a ||| b) := by
    rw [← pow_two_dvd_or_iff,
      Nat.pow_dvd_iff_le_padicValNat (by decide) orNonzero]
  have odd := (divMaxPow_odd nonzero).1
  have split := Nat.pow_padicValNat_mul_divMaxPow 2 a
  generalize padicValNat 2 (a ||| b) = shift at common
  obtain ⟨dividesLeft, ⟨bRest, rfl⟩⟩ := (common shift).mpr (Nat.le_refl shift)
  have atMost : shift ≤ padicValNat 2 a :=
    (Nat.pow_dvd_iff_le_padicValNat (by decide) nonzero).mp dividesLeft
  obtain ⟨more, exponent⟩ := Nat.exists_eq_add_of_le atMost
  rw [exponent, pow_add, mul_assoc] at split
  calc
    Nat.gcd a (2 ^ shift * bRest) =
        2 ^ shift * Nat.gcd (2 ^ more * a.divMaxPow 2) bRest := by
      nth_rewrite 1 [← split]
      rw [Nat.gcd_mul_left]
    _ = 2 ^ shift * Nat.gcd (a.divMaxPow 2) bRest := by
      -- Either the left number has no more factors 2 or the right one has none.
      rcases Nat.eq_zero_or_pos more with none | further
      · rw [none, pow_zero, one_mul]
      · have rightOdd : Odd bRest := by
          rw [← Nat.not_even_iff_odd, even_iff_two_dvd]
          intro even
          have larger : shift + 1 ≤ shift :=
            (common (shift + 1)).mp
              ⟨(Nat.pow_dvd_iff_le_padicValNat (by decide) nonzero).mpr
                (by omega),
                by simpa [pow_succ] using Nat.mul_dvd_mul_left (2 ^ shift) even⟩
          exact absurd larger (Nat.not_succ_le_self shift)
        rw [Nat.gcd_comm, gcd_pow_two_mul rightOdd, Nat.gcd_comm]
    _ = 2 ^ shift * Nat.gcd (a.divMaxPow 2) (2 ^ shift * bRest) := by
      rw [gcd_pow_two_mul odd]

/-- Dividing by all factors 2 keeps the divisors in common with an odd number. -/
theorem gcd_divMaxPow
    {a : Nat}
    (odd : Odd a)
    (b : Nat) :
    Nat.gcd a (b.divMaxPow 2) = Nat.gcd a b := by
  nth_rewrite 2 [← Nat.pow_padicValNat_mul_divMaxPow 2 b]
  rw [gcd_pow_two_mul odd]

end EuclideanGcd
