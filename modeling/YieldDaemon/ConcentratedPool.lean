import YieldDaemon.WhileLoop

namespace YieldDaemon

open CheckedArithmetic WhileLoop

/-!
# Concentrated liquidity

A concentrated pool has its liquidity indexed by ticks.  A swap goes from tick
to tick, and consumes what the liquidity of each range takes and gives.  Square
roots of prices are fixed-point numbers with 64 fractional bits.  The price at
a tick is computed in floating point, so it is an argument of a swap.
-/

/-- The two square-root prices of a range, the smaller one first. -/
def orderPrices (sqrtPriceA sqrtPriceB : Nat) : Nat × Nat :=
  if sqrtPriceA < sqrtPriceB then
    (sqrtPriceA, sqrtPriceB)
  else
    (sqrtPriceB, sqrtPriceA)

/-- `(liquidity * diff) / ((upper >> 32) * (lower >> 32))` -/
def firstAmount
    (profile : Profile)
    (lower upper liquidity diff : Nat) : Checked Nat := do
  let product ← mul profile 128 liquidity diff
  let divisor ← mul profile 128 (upper >>> 32) (lower >>> 32)
  div product divisor

/-- `(liquidity * diff) >> 64` -/
def secondAmount
    (profile : Profile)
    (liquidity diff : Nat) : Checked Nat := do
  let product ← mul profile 128 liquidity diff
  return product >>> 64

/-- Compute swap amounts within a single tick range. -/
def computeStepAmounts
    (profile : Profile)
    (sqrtPriceA sqrtPriceB liquidity maxAmountIn : Nat)
    (zeroForOne : Bool) : Checked (Nat × Nat) :=
  if liquidity = 0 ∨ sqrtPriceA = sqrtPriceB then
    .ok (0, 0)
  else
    let (lower, upper) := orderPrices sqrtPriceA sqrtPriceB
    -- Saturating, although the prices are in order.
    let diff := upper - lower
    if zeroForOne then do
      let amountIn ← firstAmount profile lower upper liquidity diff
      let amountOut ← secondAmount profile liquidity diff
      return (min amountIn maxAmountIn, amountOut)
    else do
      let amountIn ← secondAmount profile liquidity diff
      let amountOut ← firstAmount profile lower upper liquidity diff
      return (min amountIn maxAmountIn, amountOut)

/-- Concentrated Liquidity pool (Uniswap V3 / Orca Whirlpool style). -/
structure ConcentratedPool where
  /-- Q64.64 fixed-point sqrt(price) -/
  sqrtPriceX64 : Nat
  liquidity : Nat
  tickCurrent : Int
  /-- basis points -/
  feeRate : Nat
  /-- Tick -> liquidity delta (net liquidity change at this tick) -/
  tickData : List (Int × Int)

/-- The variables of the loop of a swap. -/
structure SwapState where
  remaining : Nat
  amountOut : Nat
  sqrtPrice : Nat
  liquidity : Nat
  tick : Int

namespace ConcentratedPool

def findNextTick (pool : ConcentratedPool) (current : Int) : Option Int :=
  ((pool.tickData.filter (fun entry => current < entry.1)).map Prod.fst).min?

def findPrevTick (pool : ConcentratedPool) (current : Int) : Option Int :=
  ((pool.tickData.filter (fun entry => entry.1 < current)).map Prod.fst).max?

/-- Find next initialized tick. -/
def tickAhead
    (pool : ConcentratedPool)
    (zeroForOne : Bool)
    (tick : Int) : Option Int :=
  if zeroForOne then pool.findPrevTick tick else pool.findNextTick tick

/-- Cross tick: update liquidity. -/
def crossTick
    (profile : Profile)
    (pool : ConcentratedPool)
    (zeroForOne : Bool)
    (liquidity : Nat)
    (nextTick : Int) : Checked Nat :=
  match pool.tickData.find? (fun entry => entry.1 = nextTick) with
  | none => .ok liquidity
  | some (_, delta) =>
    if zeroForOne then do
      let crossed ← subI128 profile (asI128 liquidity) delta
      return i128AsU128 crossed
    else do
      let crossed ← addI128 profile (asI128 liquidity) delta
      return i128AsU128 crossed

/-- A round of the loop of a swap. -/
def swapRound
    (profile : Profile)
    (tickToSqrtPrice : Int → Nat)
    (pool : ConcentratedPool)
    (feeComplement : Nat)
    (zeroForOne : Bool)
    (state : SwapState) : Checked (Round SwapState Nat) :=
  if state.remaining = 0 then
    .ok (.break state.amountOut)
  else
    match pool.tickAhead zeroForOne state.tick with
    -- No more liquidity
    | none => .ok (.break state.amountOut)
    | some nextTick => do
      let sqrtPriceNext := tickToSqrtPrice nextTick
      let (amountInStep, amountOutStep) ←
        computeStepAmounts profile state.sqrtPrice sqrtPriceNext
          state.liquidity state.remaining zeroForOne
      let product ← mul profile 128 amountInStep feeComplement
      let _feeAdjusted ← div product 10000
      let remaining := state.remaining - amountInStep
      let amountOut ← add profile 128 state.amountOut amountOutStep
      if 0 < remaining then
        let liquidity ←
          crossTick profile pool zeroForOne state.liquidity nextTick
        return .goOn ⟨remaining, amountOut, sqrtPriceNext, liquidity, nextTick⟩
      else
        return .goOn { state with remaining, amountOut }

/-- Compute swap output for concentrated liquidity. -/
def swap
    (profile : Profile)
    (tickToSqrtPrice : Int → Nat)
    (pool : ConcentratedPool)
    (amountIn : Nat)
    (zeroForOne : Bool)
    (fuel : Nat) : Fueled Nat := do
  let feeComplement ← sub profile 128 10000 pool.feeRate
  loop (swapRound profile tickToSqrtPrice pool feeComplement zeroForOne) fuel
    ⟨amountIn, 0, pool.sqrtPriceX64, pool.liquidity, pool.tickCurrent⟩

end ConcentratedPool

/-- `((upper >> 32) * (lower >> 32))` -/
def rangeDivisor (sqrtPriceA sqrtPriceB : Nat) : Nat :=
  (max sqrtPriceA sqrtPriceB >>> 32) * (min sqrtPriceA sqrtPriceB >>> 32)

/-- The liquidity times the width of a range. -/
def rangeProduct (sqrtPriceA sqrtPriceB liquidity : Nat) : Nat :=
  liquidity * (max sqrtPriceA sqrtPriceB - min sqrtPriceA sqrtPriceB)

/-- The amount of the first token that a range holds, as the code rounds it. -/
def rangeFirst (sqrtPriceA sqrtPriceB liquidity : Nat) : Nat :=
  rangeProduct sqrtPriceA sqrtPriceB liquidity /
    rangeDivisor sqrtPriceA sqrtPriceB

/-- The amount of the second token that a range holds. -/
def rangeSecond (sqrtPriceA sqrtPriceB liquidity : Nat) : Nat :=
  rangeProduct sqrtPriceA sqrtPriceB liquidity / 2 ^ 64

/-- The input that crosses a whole range. -/
def rangeInput
    (zeroForOne : Bool)
    (sqrtPriceA sqrtPriceB liquidity : Nat) : Nat :=
  if zeroForOne then
    rangeFirst sqrtPriceA sqrtPriceB liquidity
  else
    rangeSecond sqrtPriceA sqrtPriceB liquidity

/-- The output of a whole range. -/
def rangeOutput
    (zeroForOne : Bool)
    (sqrtPriceA sqrtPriceB liquidity : Nat) : Nat :=
  rangeInput (!zeroForOne) sqrtPriceA sqrtPriceB liquidity

/-- The products of a range fit, and its divisor is not zero. -/
structure RangeFits (sqrtPriceA sqrtPriceB liquidity : Nat) : Prop where
  product : rangeProduct sqrtPriceA sqrtPriceB liquidity < 2 ^ 128
  divisor : rangeDivisor sqrtPriceA sqrtPriceB < 2 ^ 128
  nonzero : rangeDivisor sqrtPriceA sqrtPriceB ≠ 0

section Amounts

variable
  {profile : Profile}
  {sqrtPriceA sqrtPriceB liquidity maxAmountIn : Nat}
  {zeroForOne : Bool}

theorem orderPrices_eq :
    orderPrices sqrtPriceA sqrtPriceB =
      (min sqrtPriceA sqrtPriceB, max sqrtPriceA sqrtPriceB) := by
  unfold orderPrices
  split
  · next less =>
      rw [min_eq_left less.le, max_eq_right less.le]
  · next notLess =>
      rw [min_eq_right (not_lt.mp notLess), max_eq_left (not_lt.mp notLess)]

/-- Nothing is held between two equal prices or without liquidity. -/
theorem rangeProduct_eq_zero
    (nothing : liquidity = 0 ∨ sqrtPriceA = sqrtPriceB) :
    rangeProduct sqrtPriceA sqrtPriceB liquidity = 0 := by
  unfold rangeProduct
  rcases nothing with rfl | rfl
  · exact Nat.zero_mul _
  · rw [max_self, min_self, Nat.sub_self, Nat.mul_zero]

theorem rangeInput_eq_zero
    (nothing : liquidity = 0 ∨ sqrtPriceA = sqrtPriceB) :
    rangeInput zeroForOne sqrtPriceA sqrtPriceB liquidity = 0 := by
  cases zeroForOne <;>
    simp [rangeInput, rangeFirst, rangeSecond, rangeProduct_eq_zero nothing]

/-- The first amount is computed in a debug build exactly if nothing overflows. -/
theorem firstAmount_debug_eq_ok {amount : Nat} :
    firstAmount .debug (min sqrtPriceA sqrtPriceB)
        (max sqrtPriceA sqrtPriceB) liquidity
        (max sqrtPriceA sqrtPriceB - min sqrtPriceA sqrtPriceB) =
      .ok amount ↔
      RangeFits sqrtPriceA sqrtPriceB liquidity ∧
        rangeFirst sqrtPriceA sqrtPriceB liquidity = amount := by
  unfold firstAmount
  simp only [Checked.bind_eq_ok, mul_debug_eq_ok, div_eq_ok]
  constructor
  · rintro ⟨_, ⟨product, rfl⟩, _, ⟨divisor, rfl⟩, nonzero, quotient⟩
    exact ⟨⟨product, divisor, nonzero⟩, quotient⟩
  · rintro ⟨fits, quotient⟩
    exact ⟨_, ⟨fits.product, rfl⟩, _, ⟨fits.divisor, rfl⟩, fits.nonzero,
      quotient⟩

theorem secondAmount_debug_eq_ok {amount : Nat} :
    secondAmount .debug liquidity
        (max sqrtPriceA sqrtPriceB - min sqrtPriceA sqrtPriceB) =
      .ok amount ↔
      rangeProduct sqrtPriceA sqrtPriceB liquidity < 2 ^ 128 ∧
        rangeSecond sqrtPriceA sqrtPriceB liquidity = amount := by
  unfold secondAmount
  simp only [Checked.bind_eq_ok, mul_debug_eq_ok, Checked.pure_eq_ok,
    Except.ok.injEq, Nat.shiftRight_eq_div_pow]
  constructor
  · rintro ⟨_, ⟨product, rfl⟩, quotient⟩
    exact ⟨product, quotient⟩
  · rintro ⟨product, quotient⟩
    exact ⟨_, ⟨product, rfl⟩, quotient⟩

/--
A debug build computes the amounts of a range exactly if the range is empty or
nothing overflows.  The input is capped, the output is that of the whole range.
-/
theorem computeStepAmounts_debug_eq_ok {amounts : Nat × Nat} :
    computeStepAmounts .debug sqrtPriceA sqrtPriceB liquidity maxAmountIn
        zeroForOne =
      .ok amounts ↔
      ((liquidity = 0 ∨ sqrtPriceA = sqrtPriceB) ∨
        RangeFits sqrtPriceA sqrtPriceB liquidity) ∧
        (min (rangeInput zeroForOne sqrtPriceA sqrtPriceB liquidity)
            maxAmountIn,
          rangeOutput zeroForOne sqrtPriceA sqrtPriceB liquidity) =
          amounts := by
  unfold computeStepAmounts
  by_cases nothing : liquidity = 0 ∨ sqrtPriceA = sqrtPriceB
  · rw [if_pos nothing, rangeOutput, rangeInput_eq_zero nothing,
      rangeInput_eq_zero nothing, Nat.zero_min, Except.ok.injEq]
    exact (and_iff_right (.inl nothing)).symm
  · rw [if_neg nothing, orderPrices_eq]
    simp only [or_iff_right nothing]
    cases zeroForOne with
    | true =>
        simp only [if_true, Checked.bind_eq_ok, firstAmount_debug_eq_ok,
          secondAmount_debug_eq_ok, Checked.pure_eq_ok, Except.ok.injEq]
        constructor
        · rintro ⟨_, ⟨fits, rfl⟩, _, ⟨-, rfl⟩, rfl⟩
          exact ⟨fits, rfl⟩
        · rintro ⟨fits, rfl⟩
          exact ⟨_, ⟨fits, rfl⟩, _, ⟨fits.product, rfl⟩, rfl⟩
    | false =>
        simp only [Bool.false_eq_true, if_false, Checked.bind_eq_ok,
          firstAmount_debug_eq_ok, secondAmount_debug_eq_ok,
          Checked.pure_eq_ok, Except.ok.injEq]
        constructor
        · rintro ⟨_, ⟨-, rfl⟩, _, ⟨fits, rfl⟩, rfl⟩
          exact ⟨fits, rfl⟩
        · rintro ⟨fits, rfl⟩
          exact ⟨_, ⟨fits.product, rfl⟩, _, ⟨fits, rfl⟩, rfl⟩

/-- Without an overflow every build computes the same amounts. -/
theorem computeStepAmounts_agrees
    (profile : Profile)
    (sqrtPriceA sqrtPriceB liquidity maxAmountIn : Nat)
    (zeroForOne : Bool) :
    Agrees
      (computeStepAmounts .debug sqrtPriceA sqrtPriceB liquidity maxAmountIn
        zeroForOne)
      (computeStepAmounts profile sqrtPriceA sqrtPriceB liquidity maxAmountIn
        zeroForOne) := by
  have firstAgrees (lower upper diff : Nat) :
      Agrees (firstAmount .debug lower upper liquidity diff)
        (firstAmount profile lower upper liquidity diff) :=
    Agrees.bind (Agrees.fit profile 128 _) fun _ =>
      Agrees.bind (Agrees.fit profile 128 _) fun _ => Agrees.refl _
  have secondAgrees (diff : Nat) :
      Agrees (secondAmount .debug liquidity diff)
        (secondAmount profile liquidity diff) :=
    Agrees.bind (Agrees.fit profile 128 _) fun _ => Agrees.refl _
  unfold computeStepAmounts
  split
  · exact Agrees.refl _
  · cases zeroForOne with
    | true =>
        exact Agrees.bind (firstAgrees _ _ _) fun _ =>
          Agrees.bind (secondAgrees _) fun _ => Agrees.refl _
    | false =>
        exact Agrees.bind (secondAgrees _) fun _ =>
          Agrees.bind (firstAgrees _ _ _) fun _ => Agrees.refl _

end Amounts

end YieldDaemon
