import YieldDaemon.ConcentratedPool
import YieldDaemon.LiquidityCurve

namespace YieldDaemon

open CheckedArithmetic LiquidityCurve

/-!
# Amounts of a step

A step caps its input, and gives the output of its whole range all the same.
It overpays unless the cap pays for that output on the curve.  The amounts are
quotients of unscaled products, which fit for prices in the middle only.
-/

/-- Both prices keep a bit when shifted, and neither product overflows. -/
def InComputableRange (sqrtPriceA sqrtPriceB liquidity : Nat) : Prop :=
  2 ^ 32 ≤ min sqrtPriceA sqrtPriceB ∧
    liquidity * (max sqrtPriceA sqrtPriceB - min sqrtPriceA sqrtPriceB) <
      2 ^ 128 ∧
    (max sqrtPriceA sqrtPriceB / 2 ^ 32) *
        (min sqrtPriceA sqrtPriceB / 2 ^ 32) <
      2 ^ 128

theorem rangeFits_iff {sqrtPriceA sqrtPriceB liquidity : Nat} :
    RangeFits sqrtPriceA sqrtPriceB liquidity ↔
      InComputableRange sqrtPriceA sqrtPriceB liquidity := by
  have divisor :
      rangeDivisor sqrtPriceA sqrtPriceB =
        (max sqrtPriceA sqrtPriceB / 2 ^ 32) *
          (min sqrtPriceA sqrtPriceB / 2 ^ 32) := by
    rw [rangeDivisor, Nat.shiftRight_eq_div_pow, Nat.shiftRight_eq_div_pow]
  have nonzero :
      rangeDivisor sqrtPriceA sqrtPriceB ≠ 0 ↔
        2 ^ 32 ≤ min sqrtPriceA sqrtPriceB := by
    rw [divisor, Nat.mul_ne_zero_iff, Nat.div_ne_zero_iff,
      Nat.div_ne_zero_iff]
    constructor
    · rintro ⟨-, -, bounded⟩
      exact bounded
    · intro bounded
      have hasBits : 2 ^ 32 ≠ 0 := by
        norm_num
      exact ⟨⟨hasBits, bounded.trans min_le_max⟩, hasBits, bounded⟩
  constructor
  · rintro ⟨product, divisorFits, isNonzero⟩
    exact ⟨nonzero.mp isNonzero, product, divisor ▸ divisorFits⟩
  · rintro ⟨bounded, product, divisorFits⟩
    exact ⟨product, divisor ▸ divisorFits, nonzero.mpr bounded⟩

/--
A step neither divides by zero nor overflows exactly if its range is empty or
its prices are in the range that it can compute with.
-/
theorem computeStepAmounts_is_safe_iff
    (sqrtPriceA sqrtPriceB liquidity maxAmountIn : Nat)
    (zeroForOne : Bool) :
    (∃ amounts,
      computeStepAmounts .debug sqrtPriceA sqrtPriceB liquidity maxAmountIn
        zeroForOne = .ok amounts) ↔
      (liquidity = 0 ∨ sqrtPriceA = sqrtPriceB) ∨
        InComputableRange sqrtPriceA sqrtPriceB liquidity := by
  simp only [computeStepAmounts_debug_eq_ok, rangeFits_iff, exists_and_left,
    exists_eq', and_true]

/-- Too low prices are shifted to zero, and too high ones overflow. -/
theorem outer_prices_panic :
    computeStepAmounts .debug (2 ^ 32) (2 ^ 32 - 1) 1 1 true =
        .error .divisionByZero ∧
      computeStepAmounts .release (2 ^ 32) (2 ^ 32 - 1) 1 1 true =
        .error .divisionByZero ∧
      computeStepAmounts .debug (2 ^ 64) (2 ^ 96) (2 ^ 40) 1 false =
        .error .arithmeticOverflow := by
  decide +kernel

/-- The square root of a price in Q64.64. -/
def sqrtPrice (sqrtPriceX64 : Nat) : ℚ :=
  sqrtPriceX64 / 2 ^ 64

/-- The input that moves the price from one value to another. -/
def inputBetween (zeroForOne : Bool) (liquidity before after : ℚ) : ℚ :=
  if zeroForOne then
    liquidity * (1 / after - 1 / before)
  else
    liquidity * (after - before)

/-- The output of moving the price from one value to another. -/
def outputBetween (zeroForOne : Bool) (liquidity before after : ℚ) : ℚ :=
  if zeroForOne then
    liquidity * (before - after)
  else
    liquidity * (1 / before - 1 / after)

/-- The price that an input moves the price to. -/
def priceReached (zeroForOne : Bool) (liquidity before paid : ℚ) : ℚ :=
  if zeroForOne then
    priceAfterFirst liquidity before paid
  else
    priceAfterSecond liquidity before paid

/-- The input pays for the move to the price that it reaches. -/
theorem inputBetween_priceReached
    {zeroForOne : Bool}
    {liquidity before : ℚ}
    (hasLiquidity : liquidity ≠ 0)
    (hasPrice : before ≠ 0)
    (paid : ℚ) :
    inputBetween zeroForOne liquidity before
        (priceReached zeroForOne liquidity before paid) =
      paid := by
  cases zeroForOne with
  | true =>
      exact first_paid hasLiquidity hasPrice paid
  | false =>
      exact second_paid hasLiquidity paid

/--
The cap reaches what the curve asks for the output of the whole range.  For the
second token the whole output is `⌊L * |a - b| / 2 ^ 64⌋`, for the first one
it is divided by the product of the shifted prices.
-/
def CapPaysForRange
    (zeroForOne : Bool)
    (current next liquidity cap : Nat) : Prop :=
  let whole : Int := rangeOutput zeroForOne current next liquidity
  if zeroForOne then
    whole * liquidity * 2 ^ 128 ≤
      cap * current * (liquidity * current - whole * 2 ^ 64)
  else
    whole * liquidity * current ^ 2 ≤
      cap * 2 ^ 64 * (liquidity * 2 ^ 64 - whole * current)

instance (zeroForOne : Bool) (current next liquidity cap : Nat) :
    Decidable (CapPaysForRange zeroForOne current next liquidity cap) :=
  match zeroForOne with
  | true => inferInstanceAs (Decidable (_ ≤ (_ : Int)))
  | false => inferInstanceAs (Decidable (_ ≤ (_ : Int)))

/-- The output of the range is worth the cap on the curve if the cap pays for it. -/
theorem rangeOutput_le_iff
    {zeroForOne : Bool}
    {current next liquidity cap : Nat}
    (hasPrice : 0 < current) :
    (rangeOutput zeroForOne current next liquidity : ℚ) ≤
        outputBetween zeroForOne liquidity (sqrtPrice current)
          (priceReached zeroForOne liquidity (sqrtPrice current) cap) ↔
      CapPaysForRange zeroForOne current next liquidity cap := by
  have positive : 0 < sqrtPrice current :=
    div_pos (Nat.cast_pos.mpr hasPrice) (by norm_num)
  have isPaid : (0 : ℚ) ≤ cap :=
    Nat.cast_nonneg cap
  have scale : (0 : ℚ) < 2 ^ 128 := by
    norm_num
  rcases Nat.eq_zero_or_pos liquidity with rfl | hasLiquidity
  · have nothing :
        rangeOutput zeroForOne current next 0 = 0 :=
      rangeInput_eq_zero (.inl rfl)
    cases zeroForOne <;>
      simp [nothing, CapPaysForRange, outputBetween]
  · have hasLiquidity : (0 : ℚ) < liquidity :=
      Nat.cast_pos.mpr hasLiquidity
    cases zeroForOne with
    | true =>
        refine (le_secondReceived_iff hasLiquidity positive isPaid).trans ?_
        rw [← mul_le_mul_iff_of_pos_right scale]
        have scaled :
            (cap * sqrtPrice current *
                (liquidity * sqrtPrice current -
                  rangeOutput true current next liquidity)) * 2 ^ 128 =
              (cap * current *
                (liquidity * current -
                  rangeOutput true current next liquidity * 2 ^ 64) : ℚ) := by
          unfold sqrtPrice
          ring
        rw [scaled, CapPaysForRange, if_pos rfl, ← @Int.cast_le ℚ]
        push_cast
        rfl
    | false =>
        refine (le_firstReceived_iff hasLiquidity positive isPaid).trans ?_
        rw [← mul_le_mul_iff_of_pos_right scale]
        have asked :
            (rangeOutput false current next liquidity * liquidity *
                sqrtPrice current ^ 2) * 2 ^ 128 =
              (rangeOutput false current next liquidity * liquidity *
                current ^ 2 : ℚ) := by
          unfold sqrtPrice
          ring
        have scaled :
            (cap *
                (liquidity -
                  rangeOutput false current next liquidity *
                    sqrtPrice current)) * 2 ^ 128 =
              (cap * 2 ^ 64 *
                (liquidity * 2 ^ 64 -
                  rangeOutput false current next liquidity * current) :
                ℚ) := by
          unfold sqrtPrice
          ring
        rw [asked, scaled, CapPaysForRange, if_neg Bool.false_ne_true,
          ← @Int.cast_le ℚ]
        push_cast
        rfl

/--
The output of a step is paid for by its capped input exactly if the cap pays
for the output of the whole range.
-/
theorem step_is_paid_for_iff
    (profile : Profile)
    (current next liquidity cap : Nat)
    (zeroForOne : Bool)
    (fits : RangeFits current next liquidity) :
    ∃ taken output,
      computeStepAmounts profile current next liquidity cap zeroForOne =
          .ok (taken, output) ∧
        (liquidity ≠ 0 →
          inputBetween zeroForOne liquidity (sqrtPrice current)
              (priceReached zeroForOne liquidity (sqrtPrice current) cap) =
            cap) ∧
        ((output : ℚ) ≤
            outputBetween zeroForOne liquidity (sqrtPrice current)
              (priceReached zeroForOne liquidity (sqrtPrice current) cap) ↔
          CapPaysForRange zeroForOne current next liquidity cap) := by
  have hasPrice : 0 < current := by
    have bounded := (rangeFits_iff.mp fits).1
    omega
  have computed :
      computeStepAmounts .debug current next liquidity cap zeroForOne = _ :=
    computeStepAmounts_debug_eq_ok.mpr ⟨.inr fits, rfl⟩
  refine ⟨_, _, (computeStepAmounts_agrees profile current next liquidity cap
    zeroForOne).returns computed, ?_, rangeOutput_le_iff hasPrice⟩
  intro hasLiquidity
  refine inputBetween_priceReached (Nat.cast_ne_zero.mpr hasLiquidity) ?_ _
  exact div_ne_zero (Nat.cast_ne_zero.mpr hasPrice.ne') (by norm_num)

/-- A cap of one takes one and receives half a million in either direction. -/
theorem capped_steps_give_their_range :
    (computeStepAmounts .debug (2 ^ 64) (2 ^ 63) 1000000 1 true =
          .ok (1, 500000) ∧
        1 < rangeInput true (2 ^ 64) (2 ^ 63) 1000000 ∧
        ¬ ((500000 : ℚ) ≤
          outputBetween true 1000000 (sqrtPrice (2 ^ 64))
            (priceReached true 1000000 (sqrtPrice (2 ^ 64)) 1))) ∧
      (computeStepAmounts .debug (2 ^ 64) (2 ^ 65) 1000000 1 false =
          .ok (1, 500000) ∧
        1 < rangeInput false (2 ^ 64) (2 ^ 65) 1000000 ∧
        ¬ ((500000 : ℚ) ≤
          outputBetween false 1000000 (sqrtPrice (2 ^ 64))
            (priceReached false 1000000 (sqrtPrice (2 ^ 64)) 1))) := by
  refine ⟨⟨by decide +kernel, by decide +kernel, ?_⟩, by decide +kernel,
    by decide +kernel, ?_⟩
  · norm_num [outputBetween, priceReached, priceAfterFirst, sqrtPrice]
  · norm_num [outputBetween, priceReached, priceAfterSecond, sqrtPrice]

/-- A cap of two takes a part of its range, and pays for the rounded output. -/
theorem part_of_range_is_paid_for :
    2 < rangeInput true (2 ^ 64) (2 ^ 63) 3 ∧
      computeStepAmounts .release (2 ^ 64) (2 ^ 63) 3 2 true = .ok (2, 1) ∧
      ((1 : Nat) : ℚ) ≤
        outputBetween true (3 : Nat) (sqrtPrice (2 ^ 64))
          (priceReached true (3 : Nat) (sqrtPrice (2 ^ 64)) (2 : Nat)) := by
  have fits : RangeFits (2 ^ 64) (2 ^ 63) 3 :=
    rangeFits_iff.mpr ⟨by decide, by decide, by decide⟩
  obtain ⟨taken, output, computed, -, isPaid⟩ :=
    step_is_paid_for_iff .release (2 ^ 64) (2 ^ 63) 3 2 true fits
  have amounts :
      computeStepAmounts .release (2 ^ 64) (2 ^ 63) 3 2 true = .ok (2, 1) := by
    decide +kernel
  obtain ⟨rfl, rfl⟩ :=
    Prod.mk.inj (Except.ok.inj (computed.symm.trans amounts))
  exact ⟨by decide +kernel, amounts, isPaid.mpr (by decide +kernel)⟩

end YieldDaemon
