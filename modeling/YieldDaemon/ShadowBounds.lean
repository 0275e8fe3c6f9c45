import YieldDaemon.FlooredSwaps
import YieldDaemon.ShadowLiquidity

namespace YieldDaemon

open CheckedArithmetic FlooredSwaps LabelledRun

/-!
# Bounds on the speculative reserves

One side of a pool can grow with every swap, but the product of the two sides
never grows.  A run whose reserves and amounts fit 64 bits therefore stays far
below the range of u128 for more operations than a daemon can perform.
-/

namespace StateShadow

variable {profile : Profile}

/-- The fee is computed exactly if its product fits. -/
theorem amountAfterFee_of_fits
    {amountIn feeNum feeDen : Nat}
    (fits : amountIn * feeNum < 2 ^ 128)
    (positive : 0 < feeDen)
    (fraction : feeNum ≤ feeDen) :
    amountAfterFee profile amountIn feeNum feeDen =
      .ok (netInput amountIn feeNum feeDen) := by
  have taken : amountIn * feeNum / feeDen ≤ amountIn :=
    Nat.div_le_of_le_mul
      ((Nat.mul_le_mul_left amountIn fraction).trans_eq
        (Nat.mul_comm amountIn feeDen))
  rw [amountAfterFee, mul, fit_of_lt fits, Checked.ok_bind, div,
    if_neg positive.ne', Checked.ok_bind, sub_of_le taken]
  rfl

/-- So is the fee of a bounded amount, if there is a denominator. -/
theorem amountAfterFee_exact
    {amountIn feeNum feeDen : Nat}
    (amountSmall : amountIn < 2 ^ 64)
    (denominatorSmall : feeDen < 2 ^ 32)
    (fraction : feeNum ≤ feeDen) :
    amountAfterFee profile amountIn feeNum feeDen =
      if feeDen = 0 then
        .error .divisionByZero
      else
        .ok (netInput amountIn feeNum feeDen) := by
  have fits : amountIn * feeNum < 2 ^ 128 :=
    calc
      amountIn * feeNum ≤ 2 ^ 64 * 2 ^ 32 :=
        Nat.mul_le_mul amountSmall.le
          (fraction.trans denominatorSmall.le)
      _ < 2 ^ 128 := by norm_num
  by_cases zero : feeDen = 0
  · rw [if_pos zero, amountAfterFee, mul, fit_of_lt fits, Checked.ok_bind,
      div, if_pos zero]
    rfl
  · rw [if_neg zero,
      amountAfterFee_of_fits fits (Nat.pos_of_ne_zero zero) fraction]

/-- The sums of a swap within range are computed exactly. -/
theorem constantProduct_exact
    {reserveIn reserveOut afterFee : Nat}
    (sumFits : reserveIn + afterFee < 2 ^ 128)
    (productFits : reserveIn * reserveOut < 2 ^ 128) :
    constantProduct profile reserveIn reserveOut afterFee =
      if reserveIn + afterFee = 0 then
        .error .divisionByZero
      else
        .ok (reserveIn + afterFee,
          newReserve reserveIn reserveOut afterFee,
          payment reserveIn reserveOut afterFee) := by
  have kept : reserveIn * reserveOut / (reserveIn + afterFee) ≤ reserveOut :=
    newReserve_le reserveIn reserveOut afterFee
  rw [constantProduct, add, fit_of_lt sumFits, Checked.ok_bind, mul,
    fit_of_lt productFits, Checked.ok_bind, div]
  by_cases zero : reserveIn + afterFee = 0
  · rw [if_pos zero, if_pos zero]
    rfl
  · rw [if_neg zero, if_neg zero, Checked.ok_bind,
      sub_of_le kept]
    rfl

namespace PoolView

/-- The range of a pool after a number of operations. -/
structure Bounded (taken : Nat) (pool : PoolView) : Prop where
  reserveX : pool.reserveX < 2 ^ 64
  reserveY : pool.reserveY < 2 ^ 64
  feeDen : pool.feeDen < 2 ^ 32
  fee : pool.feeNum ≤ pool.feeDen
  specX : pool.specX < 2 ^ 64 * (taken + 1)
  specY : pool.specY < 2 ^ 64 * (taken + 1)
  product : pool.specX * pool.specY < 2 ^ 128

/-- Reserves that have just been written are in range. -/
theorem bounded_of_reserves
    {pool : PoolView}
    (taken : Nat)
    (reserveX : pool.reserveX < 2 ^ 64)
    (reserveY : pool.reserveY < 2 ^ 64)
    (feeDen : pool.feeDen < 2 ^ 32)
    (fee : pool.feeNum ≤ pool.feeDen)
    (specX : pool.specX = pool.reserveX)
    (specY : pool.specY = pool.reserveY) :
    pool.Bounded taken where
  reserveX := reserveX
  reserveY := reserveY
  feeDen := feeDen
  fee := fee
  specX := by
    rw [specX]
    exact reserveX.trans_le (Nat.le_mul_of_pos_right _ (Nat.succ_pos taken))
  specY := by
    rw [specY]
    exact reserveY.trans_le (Nat.le_mul_of_pos_right _ (Nat.succ_pos taken))
  product := by
    rw [specX, specY]
    exact (Nat.mul_lt_mul'' reserveX reserveY).trans_eq (by norm_num)

namespace Bounded

variable
  {taken amountIn : Nat}
  {pool : PoolView}

theorem next (bounded : pool.Bounded taken) : pool.Bounded (taken + 1) :=
  { bounded with
    specX := bounded.specX.trans (by omega)
    specY := bounded.specY.trans (by omega) }

theorem specIn_lt (bounded : pool.Bounded taken) (xToY : Bool) :
    pool.specIn xToY < 2 ^ 64 * (taken + 1) := by
  cases xToY with
  | true => exact bounded.specX
  | false => exact bounded.specY

theorem specOut_lt (bounded : pool.Bounded taken) (xToY : Bool) :
    pool.specOut xToY < 2 ^ 64 * (taken + 1) := by
  cases xToY with
  | true => exact bounded.specY
  | false => exact bounded.specX

theorem product_lt (bounded : pool.Bounded taken) (xToY : Bool) :
    pool.specIn xToY * pool.specOut xToY < 2 ^ 128 := by
  cases xToY with
  | true => exact bounded.product
  | false => exact (Nat.mul_comm _ _).trans_lt bounded.product

/-- An amount that is left after the fee is at most the amount. -/
theorem afterFee_le
    {afterFee : Nat}
    (bounded : pool.Bounded taken)
    (amountSmall : amountIn < 2 ^ 64)
    (charged :
      amountAfterFee profile amountIn pool.feeNum pool.feeDen =
        .ok afterFee) :
    afterFee ≤ amountIn := by
  rw [amountAfterFee_exact amountSmall bounded.feeDen bounded.fee] at charged
  split at charged
  · exact absurd charged nofun
  · obtain rfl := Except.ok.inj charged
    exact Nat.sub_le _ _

/-- The new incoming reserve is within u128 for a long time. -/
theorem sum_lt
    {afterFee : Nat}
    (bounded : pool.Bounded taken)
    (early : taken < 2 ^ 60)
    (amountSmall : amountIn < 2 ^ 64)
    (afterFeeLe : afterFee ≤ amountIn)
    (xToY : Bool) :
    pool.specIn xToY + afterFee < 2 ^ 128 := by
  have incoming := bounded.specIn_lt xToY
  omega

/-- A swap of a bounded amount keeps the pool in range. -/
theorem swapped
    {xToY : Bool}
    {afterFee newIn k : Nat}
    (bounded : pool.Bounded taken)
    (early : taken < 2 ^ 60)
    (amountSmall : amountIn < 2 ^ 64)
    (sums : pool.SwapSums profile amountIn xToY afterFee newIn k) :
    (pool.swapped xToY newIn (k / newIn)).Bounded (taken + 1) := by
  have afterFeeLe := bounded.afterFee_le amountSmall sums.fee
  have incomingEq := sums.incoming
  rw [add, fit_of_lt
    (bounded.sum_lt early amountSmall afterFeeLe xToY)] at incomingEq
  obtain rfl := Except.ok.inj incomingEq
  have productEq := sums.product
  rw [mul, fit_of_lt (bounded.product_lt xToY)] at productEq
  obtain rfl := Except.ok.inj productEq
  have incomingLow := bounded.specIn_lt xToY
  have newInLow :
      pool.specIn xToY + afterFee < 2 ^ 64 * (taken + 1 + 1) := by
    omega
  have newOutLow :
      pool.specIn xToY * pool.specOut xToY /
          (pool.specIn xToY + afterFee) <
        2 ^ 64 * (taken + 1 + 1) :=
    (newReserve_le _ _ _).trans_lt
      ((bounded.specOut_lt xToY).trans (by omega))
  -- Rounding down keeps the product of the new reserves below the old one.
  have productLow :
      (pool.specIn xToY + afterFee) *
          (pool.specIn xToY * pool.specOut xToY /
            (pool.specIn xToY + afterFee)) < 2 ^ 128 :=
    (Nat.mul_div_le _ _).trans_lt (bounded.product_lt xToY)
  cases xToY with
  | true =>
      exact {
        reserveX := bounded.reserveX
        reserveY := bounded.reserveY
        feeDen := bounded.feeDen
        fee := bounded.fee
        specX := newInLow
        specY := newOutLow
        product := productLow }
  | false =>
      exact {
        reserveX := bounded.reserveX
        reserveY := bounded.reserveY
        feeDen := bounded.feeDen
        fee := bounded.fee
        specX := newOutLow
        specY := newInLow
        product := (Nat.mul_comm _ _).trans_lt productLow }

end Bounded

end PoolView

variable
  {shadow : StateShadow}
  {pool : PoolIdx}
  {taken amountIn : Nat}

/-- The fee of a bounded pool is charged without an overflow. -/
theorem fee_never_overflows
    (bounded : (shadow.view pool).Bounded taken)
    (amountSmall : amountIn < 2 ^ 64) :
    amountAfterFee profile amountIn (shadow.feeNum pool)
      (shadow.feeDen pool) ≠ .error .arithmeticOverflow := by
  have fraction : shadow.feeNum pool ≤ shadow.feeDen pool := bounded.fee
  have denominatorSmall : shadow.feeDen pool < 2 ^ 32 := bounded.feeDen
  rw [amountAfterFee_exact amountSmall denominatorSmall fraction]
  split
  · nofun
  · nofun

/-- The sums of a bounded pool are computed without an overflow. -/
theorem sums_never_overflow
    {afterFee : Nat}
    (bounded : (shadow.view pool).Bounded taken)
    (early : taken < 2 ^ 60)
    (amountSmall : amountIn < 2 ^ 64)
    (charged :
      amountAfterFee profile amountIn (shadow.feeNum pool)
        (shadow.feeDen pool) = .ok afterFee)
    (xToY : Bool) :
    constantProduct profile ((shadow.view pool).specIn xToY)
      ((shadow.view pool).specOut xToY) afterFee ≠
        .error .arithmeticOverflow := by
  have afterFeeLe := bounded.afterFee_le amountSmall charged
  rw [constantProduct_exact
    (bounded.sum_lt early amountSmall afterFeeLe xToY)
    (bounded.product_lt xToY)]
  split
  · nofun
  · nofun

/-- An index outside of the arrays panics before any arithmetic. -/
theorem poolIndex_outside
    {idx : Nat}
    (unknown : ¬ idx < maxPools) :
    poolIndex idx = .error .indexOutOfRange := by
  simp [poolIndex, unknown]

/-- A swap of bounded pools computes without an overflow. -/
theorem applySpeculativeSwap_never_overflows
    (bounded : ∀ pool, (shadow.view pool).Bounded taken)
    (early : taken < 2 ^ 60)
    (amountSmall : amountIn < 2 ^ 64)
    (idx : Nat)
    (xToY : Bool) :
    shadow.applySpeculativeSwap profile idx amountIn xToY ≠
      .error .arithmeticOverflow := by
  by_cases known : idx < maxPools
  · obtain ⟨pool, rfl⟩ : ∃ pool : PoolIdx, idx = pool.val :=
      ⟨⟨idx, known⟩, rfl⟩
    exact applySpeculativeSwap_ne_error (by decide)
      (fee_never_overflows (bounded pool) amountSmall)
      (fun _ charged =>
        sums_never_overflow (bounded pool) early amountSmall charged xToY)
  · unfold applySpeculativeSwap
    apply Checked.bind_ne_error (debugAssert_ne_error (by decide))
    intro _ _
    rw [poolIndex_outside known]
    nofun

/-- So does its simulation. -/
theorem simSwap_never_overflows
    (bounded : ∀ pool, (shadow.view pool).Bounded taken)
    (early : taken < 2 ^ 60)
    (amountSmall : amountIn < 2 ^ 64)
    (idx : Nat)
    (xToY : Bool) :
    shadow.simSwap profile idx amountIn xToY ≠
      .error .arithmeticOverflow := by
  by_cases known : idx < maxPools
  · obtain ⟨pool, rfl⟩ : ∃ pool : PoolIdx, idx = pool.val :=
      ⟨⟨idx, known⟩, rfl⟩
    exact simSwap_ne_error
      (fun _ => fee_never_overflows (bounded pool) amountSmall)
      (fun _ _ charged =>
        sums_never_overflow (bounded pool) early amountSmall charged xToY)
  · unfold simSwap
    rw [poolIndex_outside known]
    nofun

end StateShadow

namespace ShadowOp

/-- Reserves and amounts fit 64 bits, and fees are fractions in u32. -/
def Small : ShadowOp → Prop
  | register entry =>
    entry.reserveX < 2 ^ 64 ∧ entry.reserveY < 2 ^ 64 ∧
      entry.feeNum ≤ entry.feeDen ∧ 0 < entry.feeDen ∧
      entry.feeDen < 2 ^ 32
  | update _ reserveX reserveY _ => reserveX < 2 ^ 64 ∧ reserveY < 2 ^ 64
  | swap _ amountIn _ => amountIn < 2 ^ 64
  | _ => True

/-- The pools of a shadow are in range for the operations taken so far. -/
def InRange (taken : Nat) (shadow : StateShadow) : Prop :=
  taken < 2 ^ 60 → ∀ pool, (shadow.view pool).Bounded taken

variable
  {profile : Profile}
  {before after : StateShadow}
  {op : ShadowOp}

/-- One operation with small numbers keeps every pool in range. -/
theorem inRange_step
    {taken : Nat}
    (inRange : InRange taken before)
    (performed : restrict Small (Performs profile) before op after) :
    InRange (taken + 1) after := by
  obtain ⟨small, performed⟩ := performed
  intro early pool
  have earlier : taken < 2 ^ 60 := (Nat.lt_succ_self taken).trans early
  have bounded := inRange earlier pool
  rcases view_cases performed pool with
    ⟨entry, rfl, fresh⟩ | ⟨-, step⟩
  · obtain ⟨reserveX, reserveY, fee, -, feeDen⟩ := small
    rw [fresh]
    exact StateShadow.PoolView.bounded_of_reserves (taken + 1) reserveX
      reserveY feeDen fee rfl rfl
  · generalize before.view pool = old at step bounded
    generalize after.view pool = new at step
    cases step with
    | unchanged =>
        exact bounded.next
    | updated idx reserveX reserveY slot =>
        exact StateShadow.PoolView.bounded_of_reserves (taken + 1) small.1
          small.2 bounded.feeDen bounded.fee rfl rfl
    | swapped sums divisor =>
        exact bounded.swapped earlier small sums
    | reverted =>
        exact StateShadow.PoolView.bounded_of_reserves (taken + 1)
          bounded.reserveX bounded.reserveY bounded.feeDen bounded.fee rfl rfl
    | newBlock slot =>
        exact StateShadow.PoolView.bounded_of_reserves (taken + 1)
          bounded.reserveX bounded.reserveY bounded.feeDen bounded.fee rfl rfl

/-- A registration keeps every pool in its first range. -/
theorem bounded_register
    {entry : StateShadow.Registration}
    (small : (register entry).Small)
    (bounded : ∀ pool, (before.view pool).Bounded 0)
    (performed : Performs profile before (.register entry) after)
    (pool : PoolIdx) :
    (after.view pool).Bounded 0 := by
  rcases view_register performed with ⟨-, sameViews⟩ | ⟨-, views⟩
  · rw [sameViews]
    exact bounded pool
  · rw [views]
    split
    · obtain ⟨reserveX, reserveY, fee, -, feeDen⟩ := small
      exact StateShadow.PoolView.bounded_of_reserves 0 reserveX reserveY
        feeDen fee rfl rfl
    · exact bounded pool

theorem inRange_new : InRange 0 StateShadow.new :=
  fun _ _ =>
    StateShadow.PoolView.bounded_of_reserves 0 (Nat.two_pow_pos 64)
      (Nat.two_pow_pos 64) (Nat.two_pow_pos 32) (Nat.le_refl 0) rfl rfl

/--
After fewer than `2 ^ 60` operations with 64-bit reserves and amounts neither
a swap nor its simulation overflows for a 64-bit amount.
-/
theorem swaps_never_overflow
    {profile : Profile}
    {ops : List ShadowOp}
    {reached : StateShadow}
    (small : ∀ op ∈ ops, op.Small)
    (short : ops.length < 2 ^ 60)
    (run : Run (Performs profile) StateShadow.new ops reached)
    (idx : Nat)
    {amountIn : Nat}
    (amountSmall : amountIn < 2 ^ 64)
    (xToY : Bool) :
    reached.applySpeculativeSwap .debug idx amountIn xToY ≠
        .error .arithmeticOverflow ∧
      reached.simSwap .debug idx amountIn xToY ≠
        .error .arithmeticOverflow := by
  have inRange : InRange (0 + ops.length) reached :=
    (run.restrict small).preserves_counted InRange
      (fun inRange performed => inRange_step inRange performed) inRange_new
  rw [Nat.zero_add] at inRange
  have bounded := inRange short
  exact ⟨StateShadow.applySpeculativeSwap_never_overflows bounded short
      amountSmall idx xToY,
    StateShadow.simSwap_never_overflows bounded short amountSmall idx xToY⟩

/-- A pool of 64-bit reserves takes a swap of the largest 64-bit amount. -/
theorem largest_swap_does_not_overflow :
    (Trade.levelShadow (2 ^ 64 - 1)).applySpeculativeSwap .debug 0
          (2 ^ 64 - 1) true ≠ .error .arithmeticOverflow ∧
      (Trade.levelShadow (2 ^ 64 - 1)).simSwap .debug 0
          (2 ^ 64 - 1) true ≠ .error .arithmeticOverflow :=
  swaps_never_overflow
    (by simp [levelPool, Trade.levelEntry, Small])
    (by decide)
    (.cons
      (show Performs .debug StateShadow.new (levelPool (2 ^ 64 - 1))
        (Trade.levelShadow (2 ^ 64 - 1)) from ⟨trivial, rfl⟩)
      (.nil _))
    0 (by decide) true

end ShadowOp

end YieldDaemon
