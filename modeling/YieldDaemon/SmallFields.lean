import Mathlib.Data.Nat.Size
import YieldDaemon.CheckedArithmetic

namespace YieldDaemon

open CheckedArithmetic

/-!
# Powers in small fields

Square-and-multiply over a `u64` exponent.  The products are reduced by an
ordinary remainder, but the reducer still computes a Barrett reciprocal, at the
edge of 128 bits.
-/

/-- `u64::leading_zeros` -/
def leadingZeroBits (value : Nat) : Nat :=
  64 - value.size

/-- Barrett reduction: a mod m using precomputed reciprocal. -/
structure BarrettReducer where
  modulus : Nat
  reciprocal : Nat
  k : Nat
  deriving Repr, DecidableEq

namespace BarrettReducer

/-- Build the reducer of a modulus. -/
def new (profile : Profile) (modulus : Nat) : Checked BarrettReducer := do
  let k ← sub profile 32 64 (leadingZeroBits modulus)
  let bits ← mul profile 128 2 k
  let power ← shl profile 128 1 bits
  let raised ← add profile 128 power modulus
  let dividend ← sub profile 128 raised 1
  let reciprocal ← div dividend modulus
  return { modulus := modulus, reciprocal := reciprocal, k := k }

/-- Reduce a mod m, with the native remainder. -/
def reduce (reducer : BarrettReducer) (a : Nat) : Checked Nat := do
  let remainder ← rem a reducer.modulus
  return remainder % 2 ^ 64

end BarrettReducer

/-- The loop over the bits of the exponent, the least significant one first. -/
def modPowLoop
    (profile : Profile)
    (reducer : BarrettReducer)
    (base exp result : Nat) :
    Checked Nat :=
  if 0 < exp then do
    let result ←
      (if exp &&& 1 = 1 then do
        let product ← mul profile 128 result base
        reducer.reduce product
      else
        pure result)
    let square ← mul profile 128 base base
    let base ← reducer.reduce square
    modPowLoop profile reducer base (exp >>> 1) result
  else
    .ok result
termination_by exp
decreasing_by
  rw [Nat.shiftRight_one]
  omega

/-- Fast modular exponentiation for u64. -/
def modPow (profile : Profile) (base exp modulus : Nat) : Checked Nat := do
  let reducer ← BarrettReducer.new profile modulus
  let base ← rem base modulus
  modPowLoop profile reducer base exp 1

section Reducers

variable
  {profile : Profile}
  {modulus : Nat}

/-- The bit length of a modulus is computed without an overflow. -/
theorem bitLength_eq (fits : modulus < 2 ^ 64) :
    sub profile 32 64 (leadingZeroBits modulus) = .ok modulus.size := by
  have atMost : modulus.size ≤ 64 := Nat.size_le.mpr fits
  rw [leadingZeroBits, sub_of_le (Nat.sub_le 64 modulus.size),
    Nat.sub_sub_self atMost]

/-- Below 2^63 the reciprocal is computed without an overflow. -/
theorem BarrettReducer.new_returns
    (profile : Profile)
    (positive : 0 < modulus)
    (small : modulus < 2 ^ 63) :
    ∃ reducer,
      BarrettReducer.new profile modulus = .ok reducer ∧
        reducer.modulus = modulus := by
  have atMost : modulus.size ≤ 63 := Nat.size_le.mpr small
  have power : 2 ^ (2 * modulus.size) ≤ 2 ^ 126 :=
    Nat.pow_le_pow_right Nat.two_pos (by omega)
  refine ⟨⟨modulus, (2 ^ (2 * modulus.size) + modulus - 1) / modulus,
    modulus.size⟩, ?_, rfl⟩
  unfold BarrettReducer.new
  rw [bitLength_eq (small.trans (by decide)), Checked.ok_bind, mul,
    fit_of_lt (by omega), Checked.ok_bind, shl_one (by omega),
    Checked.ok_bind, add_of_lt (by omega), Checked.ok_bind,
    sub_of_le (Nat.le_add_left_of_le positive), Checked.ok_bind, div,
    if_neg positive.ne', Checked.ok_bind]
  rfl

/-- From 2^63 on the power of two is shifted out of 128 bits. -/
theorem BarrettReducer.new_overflows
    (large : 2 ^ 63 ≤ modulus)
    (fits : modulus < 2 ^ 64) :
    BarrettReducer.new .debug modulus = .error .arithmeticOverflow := by
  have atMost : modulus.size ≤ 64 := Nat.size_le.mpr fits
  have atLeast : 63 < modulus.size := Nat.lt_size.mpr large
  have exact : modulus.size = 64 := by omega
  unfold BarrettReducer.new
  rw [bitLength_eq fits, exact]
  rfl

/-- A reducer of a `u64` modulus computes the remainder. -/
theorem BarrettReducer.reduce_eq
    {reducer : BarrettReducer}
    (positive : 0 < reducer.modulus)
    (fits : reducer.modulus < 2 ^ 64)
    (a : Nat) :
    reducer.reduce a = .ok (a % reducer.modulus) := by
  have below := Nat.mod_lt a positive
  rw [BarrettReducer.reduce, rem, if_neg positive.ne', Checked.ok_bind,
    Nat.mod_eq_of_lt (below.trans fits)]
  rfl

/-- So products of two `u64` values are reduced without an overflow. -/
theorem BarrettReducer.reduceMul_eq
    {reducer : BarrettReducer}
    {left right : Nat}
    (positive : 0 < reducer.modulus)
    (fits : reducer.modulus < 2 ^ 64)
    (leftFits : left < 2 ^ 64)
    (rightFits : right < 2 ^ 64) :
    (mul profile 128 left right >>= reducer.reduce) =
      .ok (left * right % reducer.modulus) := by
  have productFits : left * right < 2 ^ 128 :=
    (Nat.mul_lt_mul'' leftFits rightFits).trans_eq (by norm_num)
  rw [mul, fit_of_lt productFits, Checked.ok_bind,
    BarrettReducer.reduce_eq positive fits]

end Reducers

section Powers

variable
  {profile : Profile}
  {base exp modulus : Nat}

/-- A power from the power of the square and the last bit of the exponent. -/
theorem pow_split (base exp : Nat) :
    base ^ exp = base ^ (exp % 2) * (base * base) ^ (exp / 2) := by
  rw [← pow_two, ← pow_mul, ← pow_add, Nat.mod_add_div]

/-- What is left of the loop after one of its rounds. -/
def remainingPower (modulus base exp result : Nat) : Nat :=
  if exp = 0 then result else result * base ^ exp % modulus

/-- A round of the loop leaves the same power. -/
theorem remainingPower_step
    (positive : 0 < exp)
    (base result : Nat) :
    remainingPower modulus (base * base % modulus) (exp / 2)
        (if exp % 2 = 1 then result * base % modulus else result) =
      remainingPower modulus base exp result := by
  have squared :
      (base * base % modulus) ^ (exp / 2) ≡ (base * base) ^ (exp / 2)
        [MOD modulus] :=
    (Nat.mod_modEq (base * base) modulus).pow (exp / 2)
  unfold remainingPower
  rw [if_neg positive.ne']
  rcases Nat.mod_two_eq_zero_or_one exp with even | odd
  · have goesOn : exp / 2 ≠ 0 := by omega
    rw [if_neg goesOn, if_neg (by omega), pow_split base exp, even,
      pow_zero, one_mul]
    exact squared.mul_left result
  · rw [if_pos odd, pow_split base exp, odd, pow_one, ← Nat.mul_assoc]
    have multiplied := (Nat.mod_modEq (result * base) modulus).mul squared
    by_cases last : exp / 2 = 0
    · rw [if_pos last, last, pow_zero, mul_one]
    · rw [if_neg last]
      exact multiplied

/-- The loop multiplies the result by the power of the base. -/
theorem modPowLoop_eq
    {reducer : BarrettReducer}
    {base result : Nat}
    (positive : 0 < reducer.modulus)
    (fits : reducer.modulus < 2 ^ 64)
    (baseFits : base < 2 ^ 64)
    (resultFits : result < 2 ^ 64) :
    modPowLoop profile reducer base exp result =
      .ok (remainingPower reducer.modulus base exp result) := by
  induction exp using Nat.strong_induction_on generalizing base result with
  | h exp inductionHypothesis =>
      rw [modPowLoop]
      split
      · next goesOn =>
          have reduced (a : Nat) : a % reducer.modulus < 2 ^ 64 :=
            (Nat.mod_lt a positive).trans fits
          have multiplied :
              (if exp &&& 1 = 1 then
                  mul profile 128 result base >>= reducer.reduce
                else
                  pure result) =
                .ok (if exp % 2 = 1 then
                    result * base % reducer.modulus
                  else
                    result) := by
            rw [Nat.and_one_is_mod]
            split
            · exact BarrettReducer.reduceMul_eq positive fits resultFits
                baseFits
            · rfl
          have nextFits :
              (if exp % 2 = 1 then
                  result * base % reducer.modulus
                else
                  result) < 2 ^ 64 := by
            split
            · exact reduced _
            · exact resultFits
          rw [multiplied, Checked.ok_bind, ← bind_assoc,
            BarrettReducer.reduceMul_eq positive fits baseFits baseFits,
            Checked.ok_bind, Nat.shiftRight_one,
            inductionHypothesis (exp / 2) (by omega) (reduced _) nextFits,
            remainingPower_step goesOn]
      · next done =>
          rw [remainingPower, if_pos (by omega)]

/-- Below 2^63 a power is the exact remainder, but for an exponent of 0. -/
theorem modPow_eq
    (profile : Profile)
    (base exp : Nat)
    (positive : 0 < modulus)
    (small : modulus < 2 ^ 63) :
    modPow profile base exp modulus =
      .ok (if exp = 0 then 1 else base ^ exp % modulus) := by
  have fits : modulus < 2 ^ 64 := small.trans (by decide)
  obtain ⟨reducer, built, rfl⟩ :=
    BarrettReducer.new_returns profile positive small
  have reduced : base % reducer.modulus < 2 ^ 64 :=
    (Nat.mod_lt base positive).trans fits
  rw [modPow, built, Checked.ok_bind, rem, if_neg positive.ne',
    Checked.ok_bind, modPowLoop_eq positive fits reduced (by decide),
    remainingPower, one_mul, Nat.pow_mod, Nat.mod_mod, ← Nat.pow_mod]

/-- The power is exact, and the reducer is built without an overflow. -/
def PowersExactly (base exp modulus : Nat) : Prop :=
  (∀ profile, modPow profile base exp modulus = .ok (base ^ exp % modulus)) ∧
    ∃ reducer, BarrettReducer.new .debug modulus = .ok reducer

/-- From 2^63 on building the reducer overflows. -/
theorem not_powersExactly_of_large
    (large : 2 ^ 63 ≤ modulus)
    (fits : modulus < 2 ^ 64) :
    ¬ PowersExactly base exp modulus := by
  rintro ⟨-, reducer, built⟩
  rw [BarrettReducer.new_overflows large fits] at built
  exact absurd built nofun

/-- Everything is 0 modulo 1, but an exponent of 0 returns 1. -/
theorem not_powersExactly_one (base : Nat) : ¬ PowersExactly base 0 1 := by
  rintro ⟨exact, -⟩
  have powerOfZero := exact .debug
  rw [modPow_eq .debug base 0 (by decide) (by decide), Nat.mod_one]
    at powerOfZero
  exact absurd (Except.ok.inj powerOfZero) (by decide)

/-- Powers are exact below 2^63, but for the exponent 0 modulo 1. -/
theorem modPow_exact_iff
    (base exp : Nat)
    (positive : 0 < modulus)
    (fits : modulus < 2 ^ 64) :
    PowersExactly base exp modulus ↔
      modulus < 2 ^ 63 ∧ (modulus ≠ 1 ∨ exp ≠ 0) := by
  constructor
  · intro exact
    have small : modulus < 2 ^ 63 := by
      by_contra large
      exact not_powersExactly_of_large (Nat.not_lt.mp large) fits exact
    refine ⟨small, ?_⟩
    by_contra degenerate
    push Not at degenerate
    obtain ⟨rfl, rfl⟩ := degenerate
    exact not_powersExactly_one base exact
  · rintro ⟨small, regular⟩
    obtain ⟨reducer, built, -⟩ :=
      BarrettReducer.new_returns .debug positive small
    refine ⟨fun profile => ?_, reducer, built⟩
    rw [modPow_eq profile base exp positive small]
    split
    · next isZero =>
        have notOne : 1 < modulus := by omega
        rw [isZero, pow_zero, Nat.mod_eq_of_lt notOne]
    · rfl

/-- The third power of 5 modulo 7 is exact, for instance. -/
theorem five_cubed_is_exact : PowersExactly 5 3 7 :=
  (modPow_exact_iff 5 3 (by decide) (by decide)).mpr ⟨by decide, .inl (by decide)⟩

/-- An exponent of 0 modulo 1 and a modulus of 2^63 both go wrong. -/
theorem degenerate_powers_are_not_exact :
    ¬ PowersExactly 5 0 1 ∧ ¬ PowersExactly 5 3 (2 ^ 63) :=
  ⟨not_powersExactly_one 5,
    not_powersExactly_of_large (Nat.le_refl _) (by decide)⟩

end Powers

end YieldDaemon
