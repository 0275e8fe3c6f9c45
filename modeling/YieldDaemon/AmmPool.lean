import YieldDaemon.BundleConstructor

namespace YieldDaemon

open CheckedArithmetic

/-!
# Constant-product pools

The swaps of a pool and the search for the input that two pools gain most
from.  Amounts and reserves are u128 and the compared profits i128, so a profit
wraps around in a release build; a positive one is the exact profit all the
same.
-/

/-- Pool state for AMM constant-product curves (x * y = k). -/
structure AmmPool where
  reserveX : Nat
  reserveY : Nat
  feeNumerator : Nat
  feeDenominator : Nat
  poolId : Key
  reserveXFits : reserveX < 2 ^ 128
  reserveYFits : reserveY < 2 ^ 128
  deriving DecidableEq

namespace AmmPool

open StateShadow

/-- Constant-product swap: given input amount of X, compute output Y. -/
def swapXToY
    (profile : Profile)
    (pool : AmmPool)
    (amountIn : Nat) :
    Checked Nat := do
  let afterFee ←
    amountAfterFee profile amountIn pool.feeNumerator pool.feeDenominator
  let (_, _, out) ←
    constantProduct profile pool.reserveX pool.reserveY afterFee
  return out

/-- Reverse: given input amount of Y, compute output X. -/
def swapYToX
    (profile : Profile)
    (pool : AmmPool)
    (amountIn : Nat) :
    Checked Nat := do
  let afterFee ←
    amountAfterFee profile amountIn pool.feeNumerator pool.feeDenominator
  let (_, _, out) ←
    constantProduct profile pool.reserveY pool.reserveX afterFee
  return out

/-- Swap on the first pool and back on the second one, less the input. -/
def profitAt
    (profile : Profile)
    (pool1 pool2 : AmmPool)
    (input : Nat) :
    Checked Int := do
  let outB ← pool1.swapXToY profile input
  let outA ← pool2.swapYToX profile outB
  subI128 profile (asI128 outA) (asI128 input)

/-- The interval that is left to search. -/
structure InputRange where
  lo : Nat
  hi : Nat
  deriving Repr, DecidableEq

/-- Ternary search, with at most the given number of rounds. -/
def narrowInput
    (profile : Profile)
    (pool1 pool2 : AmmPool) :
    Nat → InputRange → Checked InputRange
  | 0, range => .ok range
  | rounds + 1, range =>
    if range.hi ≤ range.lo then
      .ok range
    else do
      let width ← sub profile 128 range.hi range.lo
      let m1 ← add profile 128 range.lo (width / 3)
      let m2 ← sub profile 128 range.hi (width / 3)
      let p1 ← profitAt profile pool1 pool2 m1
      let p2 ← profitAt profile pool1 pool2 m2
      if p1 < p2 then
        let lo ← add profile 128 m1 1
        narrowInput profile pool1 pool2 rounds { range with lo := lo }
      else if m2 = 0 then
        .ok range
      else
        let hi ← sub profile 128 m2 1
        narrowInput profile pool1 pool2 rounds { range with hi := hi }

/-- The best input so far and its profit. -/
structure BestInput where
  input : Nat
  profit : Int
  deriving Repr, DecidableEq

/-- Keep the better one of the best input so far and another input. -/
def tryInput
    (profile : Profile)
    (pool1 pool2 : AmmPool)
    (best : BestInput)
    (input : Nat) :
    Checked BestInput := do
  let profit ← profitAt profile pool1 pool2 input
  return if best.profit < profit then ⟨input, profit⟩ else best

/-- Optimal input for max profit across two pools. -/
def optimalArbInput
    (profile : Profile)
    (pool1 pool2 : AmmPool)
    (maxInput : Nat) :
    Checked (Nat × Nat) := do
  let range ← narrowInput profile pool1 pool2 60 ⟨1, maxInput⟩
  let top ← add profile 128 range.lo 2
  -- The converged range ends at `hi` or two above `lo`.
  let inputs := List.range' range.lo (min range.hi top + 1 - range.lo)
  let best ← inputs.foldlM (tryInput profile pool1 pool2) ⟨0, 0⟩
  return (best.input, if 0 < best.profit then best.profit.toNat else 0)

variable
  {profile : Profile}
  {pool pool1 pool2 : AmmPool}

theorem constantProduct_out_lt
    {reserveIn reserveOut afterFee newIn newOut out : Nat}
    (fits : reserveOut < 2 ^ 128)
    (returned :
      constantProduct profile reserveIn reserveOut afterFee =
        .ok (newIn, newOut, out)) :
    out < 2 ^ 128 := by
  simp only [constantProduct, Checked.bind_eq_ok] at returned
  obtain ⟨_, -, _, -, _, -, paid, subtracting, shape⟩ := returned
  obtain ⟨-, -, rfl⟩ := by simpa using Except.ok.inj shape
  exact sub_lt fits subtracting

/-- A pool pays out an amount of 128 bits. -/
theorem swapYToX_lt
    {amountIn out : Nat}
    (returned : pool.swapYToX profile amountIn = .ok out) :
    out < 2 ^ 128 := by
  simp only [swapYToX, Checked.bind_eq_ok] at returned
  obtain ⟨afterFee, -, ⟨_, _, paid⟩, trading, isPaid⟩ := returned
  obtain rfl := Except.ok.inj isPaid
  exact constantProduct_out_lt pool.reserveXFits trading

/-- Swapping the input on one pool and the output on the other gains this. -/
def Gains
    (profile : Profile)
    (pool1 pool2 : AmmPool)
    (input profit : Nat) :
    Prop :=
  ∃ outB,
    pool1.swapXToY profile input = .ok outB ∧
      pool2.swapYToX profile outB = .ok (input + profit)

/-- A positive profit is what the two swaps gain. -/
theorem profitAt_pos
    {input : Nat}
    {profit : Int}
    (small : input < 2 ^ 127)
    (positive : 0 < profit)
    (returned : profitAt profile pool1 pool2 input = .ok profit) :
    Gains profile pool1 pool2 input profit.toNat := by
  simp only [profitAt, Checked.bind_eq_ok] at returned
  obtain ⟨outB, bought, outA, sold, subtracting⟩ := returned
  have exact := subI128_pos (swapYToX_lt sold) small positive subtracting
  refine ⟨outB, bought, ?_⟩
  rw [sold]
  exact congrArg Except.ok (by omega)

section Search

variable
  {top rounds maxInput : Nat}
  {range found : InputRange}

/-- The search never raises the upper end of its range. -/
theorem narrowInput_hi
    (bounded : range.hi ≤ top)
    (returned : narrowInput profile pool1 pool2 rounds range = .ok found) :
    found.hi ≤ top := by
  induction rounds generalizing range with
  | zero =>
      obtain rfl := Except.ok.inj returned
      exact bounded
  | succ rounds inductionHypothesis =>
      rw [narrowInput] at returned
      split at returned
      · obtain rfl := Except.ok.inj returned
        exact bounded
      · next wide =>
          have ordered : range.lo ≤ range.hi := by omega
          rw [sub_of_le ordered] at returned
          simp only [Checked.ok_bind, Checked.bind_eq_ok] at returned
          obtain ⟨m1, -, m2, upper, p1, -, p2, -, continued⟩ := returned
          have third : (range.hi - range.lo) / 3 ≤ range.hi := by omega
          obtain rfl := Except.ok.inj ((sub_of_le third).symm.trans upper)
          split at continued
          · obtain ⟨lo, -, goesOn⟩ := Checked.bind_eq_ok.mp continued
            exact inductionHypothesis
              (show (⟨lo, range.hi⟩ : InputRange).hi ≤ top from bounded) goesOn
          · split at continued
            · obtain rfl := Except.ok.inj continued
              exact bounded
            · next positive =>
                have one :
                    1 ≤ range.hi - (range.hi - range.lo) / 3 :=
                  Nat.one_le_iff_ne_zero.mpr positive
                rw [sub_of_le one, Checked.ok_bind] at continued
                refine inductionHypothesis ?_ continued
                show range.hi - (range.hi - range.lo) / 3 - 1 ≤ top
                omega

/-- The best input gains its profit, unless the profit is 0. -/
def BestInput.Keeps
    (profile : Profile)
    (pool1 pool2 : AmmPool)
    (best : BestInput) :
    Prop :=
  0 < best.profit →
    best.input < 2 ^ 127 ∧
      Gains profile pool1 pool2 best.input best.profit.toNat

theorem tryInput_keeps
    {best next : BestInput}
    {input : Nat}
    (small : input < 2 ^ 127)
    (keeps : best.Keeps profile pool1 pool2)
    (returned : tryInput profile pool1 pool2 best input = .ok next) :
    next.Keeps profile pool1 pool2 := by
  simp only [tryInput, Checked.bind_eq_ok] at returned
  obtain ⟨profit, computed, isNext⟩ := returned
  obtain rfl := Except.ok.inj isNext
  split
  · exact fun positive =>
      ⟨small, profitAt_pos small positive computed⟩
  · exact keeps

/-- A positive profit that the search returns is gained at its input. -/
theorem optimalArbInput_gains
    {input profit : Nat}
    (small : maxInput < 2 ^ 127)
    (positive : 0 < profit)
    (returned :
      optimalArbInput profile pool1 pool2 maxInput = .ok (input, profit)) :
    input < 2 ^ 127 ∧ Gains profile pool1 pool2 input profit := by
  simp only [optimalArbInput, Checked.bind_eq_ok] at returned
  obtain ⟨range, narrowed, top, -, best, tried, isResult⟩ := returned
  have bounded := narrowInput_hi (Nat.le_refl maxInput) narrowed
  have keeps : best.Keeps profile pool1 pool2 := by
    apply Checked.foldlM_preserves (BestInput.Keeps profile pool1 pool2)
      ?_ ?_ tried
    · intro candidate member current next keeps computed
      have below := List.mem_range'_1.mp member
      exact tryInput_keeps (by omega) keeps computed
    · exact fun positive => absurd positive (lt_irrefl 0)
  obtain ⟨rfl, isProfit⟩ := Prod.mk.inj (Except.ok.inj isResult)
  have gains : 0 < best.profit := by
    by_contra noGain
    rw [if_neg noGain] at isProfit
    omega
  rw [if_pos gains] at isProfit
  exact isProfit ▸ keeps gains

end Search

end AmmPool

end YieldDaemon
