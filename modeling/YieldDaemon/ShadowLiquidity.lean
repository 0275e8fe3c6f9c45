import YieldDaemon.ShadowOperations

namespace YieldDaemon

open CheckedArithmetic LabelledRun

/-!
# Liquidity of the speculative reserves

A swap divides the product of the speculative reserves by the new incoming
reserve and rounds down, so it drains the other side as soon as the new
reserve exceeds the product.  In a release build the new reserve may also wrap
around to zero, and then the swap divides by it.  The reserves stay positive
exactly in the runs without such swaps.
-/

namespace StateShadow

/-- Both speculative reserves of every registered pool are at least 1. -/
def Liquid (shadow : StateShadow) : Prop :=
  ∀ pool : PoolIdx, pool.val < shadow.poolCount →
    1 ≤ shadow.specReserveX pool ∧ 1 ≤ shadow.specReserveY pool

/-- No checked swap of a registered pool divides by zero. -/
def NeverDividesByZero (shadow : StateShadow) : Prop :=
  ∀ (pool : PoolIdx) (amountIn : Nat) (xToY : Bool),
    pool.val < shadow.poolCount →
      shadow.applySpeculativeSwap .debug pool.val amountIn xToY ≠
        .error .divisionByZero

/-- Every registered pool has confirmed reserves and a fee below one. -/
def Funded (shadow : StateShadow) : Prop :=
  ∀ pool : PoolIdx, pool.val < shadow.poolCount →
    1 ≤ shadow.reserveX pool ∧ 1 ≤ shadow.reserveY pool ∧
      shadow.feeNum pool < shadow.feeDen pool

variable {profile : Profile} {reason : Panic}

theorem swapReserves_ne_error
    {shadow : StateShadow}
    {pool : PoolIdx}
    {afterFee : Nat}
    {xToY : Bool}
    (free :
      constantProduct profile ((shadow.view pool).specIn xToY)
        ((shadow.view pool).specOut xToY) afterFee ≠ .error reason) :
    swapReserves profile (shadow.specReserveX pool)
      (shadow.specReserveY pool) afterFee xToY ≠ .error reason := by
  cases xToY with
  | true =>
      exact free
  | false =>
      exact Checked.bind_ne_error free (fun _ _ => nofun)

/-- A swap of a pool is free of a panic when its fee and its sums are. -/
theorem applySpeculativeSwap_ne_error
    {shadow : StateShadow}
    {pool : PoolIdx}
    {amountIn : Nat}
    {xToY : Bool}
    (noAssertion : reason ≠ .assertionFailed)
    (feeFree :
      amountAfterFee profile amountIn (shadow.feeNum pool)
        (shadow.feeDen pool) ≠ .error reason)
    (sumsFree :
      ∀ afterFee,
        amountAfterFee profile amountIn (shadow.feeNum pool)
            (shadow.feeDen pool) = .ok afterFee →
          constantProduct profile ((shadow.view pool).specIn xToY)
            ((shadow.view pool).specOut xToY) afterFee ≠ .error reason) :
    shadow.applySpeculativeSwap profile pool.val amountIn xToY ≠
      .error reason := by
  unfold applySpeculativeSwap
  apply Checked.bind_ne_error (debugAssert_ne_error noAssertion)
  intro _ _
  rw [poolIndex_val, Checked.ok_bind]
  apply Checked.bind_ne_error feeFree
  intro afterFee charged
  apply Checked.bind_ne_error (swapReserves_ne_error (sumsFree afterFee charged))
  intro _ _
  nofun

/-- So is its simulation, which takes no fee from an empty pool. -/
theorem simSwap_ne_error
    {shadow : StateShadow}
    {pool : PoolIdx}
    {amountIn : Nat}
    {xToY : Bool}
    (feeFree :
      ¬ (shadow.specReserveX pool = 0 ∨ shadow.specReserveY pool = 0) →
        amountAfterFee profile amountIn (shadow.feeNum pool)
          (shadow.feeDen pool) ≠ .error reason)
    (sumsFree :
      ¬ (shadow.specReserveX pool = 0 ∨ shadow.specReserveY pool = 0) →
        ∀ afterFee,
          amountAfterFee profile amountIn (shadow.feeNum pool)
              (shadow.feeDen pool) = .ok afterFee →
            constantProduct profile ((shadow.view pool).specIn xToY)
              ((shadow.view pool).specOut xToY) afterFee ≠ .error reason) :
    shadow.simSwap profile pool.val amountIn xToY ≠ .error reason := by
  unfold simSwap
  rw [poolIndex_val, Checked.ok_bind]
  dsimp only
  split
  · nofun
  · next funded =>
    apply Checked.bind_ne_error (feeFree funded)
    intro afterFee charged
    apply Checked.bind_ne_error
      (swapReserves_ne_error (sumsFree funded afterFee charged))
    intro _ _
    nofun

/-- A simulated swap pays nothing out of an empty pool, or what is left over. -/
theorem simSwap_cases
    {shadow : StateShadow}
    {idx amountIn out : Nat}
    {xToY : Bool}
    (swapped : shadow.simSwap profile idx amountIn xToY = .ok out) :
    ∃ pool : PoolIdx,
      idx = pool.val ∧
        ((shadow.specReserveX pool = 0 ∨ shadow.specReserveY pool = 0) ∧
            out = 0 ∨
          ¬ (shadow.specReserveX pool = 0 ∨ shadow.specReserveY pool = 0) ∧
            ∃ afterFee newIn newOut,
              amountAfterFee profile amountIn (shadow.feeNum pool)
                  (shadow.feeDen pool) = .ok afterFee ∧
                constantProduct profile ((shadow.view pool).specIn xToY)
                  ((shadow.view pool).specOut xToY) afterFee =
                    .ok (newIn, newOut, out)) := by
  simp only [simSwap, Checked.bind_eq_ok, poolIndex_eq_ok] at swapped
  obtain ⟨pool, isPool, swapped⟩ := swapped
  refine ⟨pool, isPool, ?_⟩
  split at swapped
  · next empty => exact .inl ⟨empty, (Except.ok.inj swapped).symm⟩
  · next funded =>
    simp only [Checked.bind_eq_ok] at swapped
    obtain ⟨afterFee, charged, ⟨newX, newY, paid⟩, paidOut, shape⟩ := swapped
    obtain rfl : paid = out := Except.ok.inj shape
    cases xToY with
    | true =>
        exact .inr ⟨funded, afterFee, newX, newY, charged, paidOut⟩
    | false =>
        simp only [swapReserves, Checked.bind_eq_ok] at paidOut
        obtain ⟨⟨newRy, newRx, out⟩, sides, shape⟩ := paidOut
        obtain rfl : out = paid :=
          congrArg (fun reserves => reserves.2.2) (Except.ok.inj shape)
        exact .inr ⟨funded, afterFee, newRy, newRx, charged, sides⟩

/-- A fee with a positive denominator panics only on an overflow. -/
theorem amountAfterFee_ne_error
    {amountIn feeNum feeDen : Nat}
    (positive : feeDen ≠ 0)
    (noOverflow : reason ≠ .arithmeticOverflow) :
    amountAfterFee profile amountIn feeNum feeDen ≠ .error reason := by
  apply Checked.bind_ne_error (fit_ne_error noOverflow)
  intro scaled _
  apply Checked.bind_ne_error (div_ne_error positive)
  intro fee _
  exact sub_ne_error noOverflow

/-- Sums that have a divisor are free of a panic other than an overflow. -/
theorem constantProduct_of_divisor
    {reserveIn reserveOut afterFee : Nat}
    (divisor :
      ∀ newIn k,
        add profile 128 reserveIn afterFee = .ok newIn →
        mul profile 128 reserveIn reserveOut = .ok k →
          newIn ≠ 0)
    (noOverflow : reason ≠ .arithmeticOverflow) :
    constantProduct profile reserveIn reserveOut afterFee ≠
      .error reason := by
  apply Checked.bind_ne_error (fit_ne_error noOverflow)
  intro newIn summed
  apply Checked.bind_ne_error (fit_ne_error noOverflow)
  intro k product
  apply Checked.bind_ne_error (div_ne_error (divisor newIn k summed product))
  intro newOut _
  apply Checked.bind_ne_error (sub_ne_error noOverflow)
  intro out _
  nofun

/-- With a positive incoming reserve the exact sums have a divisor. -/
theorem constantProduct_ne_error
    {reserveIn reserveOut afterFee : Nat}
    (positive : 1 ≤ reserveIn)
    (noOverflow : reason ≠ .arithmeticOverflow) :
    constantProduct .debug reserveIn reserveOut afterFee ≠
      .error reason := by
  refine constantProduct_of_divisor ?_ noOverflow
  intro newIn _ summed _
  obtain ⟨-, rfl⟩ := add_debug_eq_ok.mp summed
  omega

/-- A new reserve of zero is divided by. -/
theorem constantProduct_divides
    {reserveIn reserveOut afterFee k : Nat}
    (summed : add profile 128 reserveIn afterFee = .ok 0)
    (product : mul profile 128 reserveIn reserveOut = .ok k) :
    constantProduct profile reserveIn reserveOut afterFee =
      .error .divisionByZero := by
  unfold constantProduct
  rw [summed, Checked.ok_bind, product, Checked.ok_bind]
  rfl

/-- Any other new reserve gives an amount to pay out. -/
theorem constantProduct_returns
    {reserveIn reserveOut afterFee newIn k : Nat}
    (summed : add profile 128 reserveIn afterFee = .ok newIn)
    (product : mul profile 128 reserveIn reserveOut = .ok k)
    (divisor : newIn ≠ 0) :
    ∃ out,
      constantProduct profile reserveIn reserveOut afterFee =
        .ok (newIn, k / newIn, out) := by
  have paid : ∃ out, sub profile 128 reserveOut (k / newIn) = .ok out := by
    cases profile with
    | debug =>
        obtain ⟨-, rfl⟩ := add_debug_eq_ok.mp summed
        obtain ⟨-, rfl⟩ := mul_debug_eq_ok.mp product
        refine ⟨_, sub_of_le (Nat.div_le_of_le_mul ?_)⟩
        exact Nat.mul_le_mul_right _ (Nat.le_add_right _ _)
    | release =>
        unfold sub
        split <;> exact ⟨_, rfl⟩
  obtain ⟨out, difference⟩ := paid
  refine ⟨out, ?_⟩
  unfold constantProduct
  rw [summed, Checked.ok_bind, product, Checked.ok_bind,
    div_eq_ok.mpr ⟨divisor, rfl⟩, Checked.ok_bind, difference,
    Checked.ok_bind]
  rfl

/-- Liquid pools with a fee denominator are safe to swap. -/
theorem Liquid.neverDividesByZero
    {shadow : StateShadow}
    (funded : shadow.Funded)
    (liquid : shadow.Liquid) :
    shadow.NeverDividesByZero := by
  intro pool amountIn xToY registered
  obtain ⟨-, -, feeBelowOne⟩ := funded pool registered
  obtain ⟨liquidX, liquidY⟩ := liquid pool registered
  apply applySpeculativeSwap_ne_error (by decide)
  · exact amountAfterFee_ne_error (by omega) (by decide)
  · intro afterFee _
    refine constantProduct_ne_error ?_ (by decide)
    cases xToY with
    | true => exact liquidX
    | false => exact liquidY

namespace PoolView

/-- The pool is positive on both speculative sides. -/
def Liquid (pool : PoolView) : Prop :=
  1 ≤ pool.specX ∧ 1 ≤ pool.specY

/-- The pool has confirmed reserves and a fee below one. -/
def Funded (pool : PoolView) : Prop :=
  1 ≤ pool.reserveX ∧ 1 ≤ pool.reserveY ∧ pool.feeNum < pool.feeDen

/-- A swap computes its sums in one way only. -/
theorem SwapSums.unique
    {pool : PoolView}
    {amountIn afterFee newIn k afterFee' newIn' k' : Nat}
    {xToY : Bool}
    (first : pool.SwapSums profile amountIn xToY afterFee newIn k)
    (second : pool.SwapSums profile amountIn xToY afterFee' newIn' k') :
    newIn = newIn' ∧ k = k' := by
  obtain rfl := Except.ok.inj (first.fee.symm.trans second.fee)
  exact ⟨Except.ok.inj (first.incoming.symm.trans second.incoming),
    Except.ok.inj (first.product.symm.trans second.product)⟩

/-- A swap whose new incoming reserve is zero divides by it. -/
theorem SwapSums.divides
    {shadow : StateShadow}
    {pool : PoolIdx}
    {amountIn afterFee k : Nat}
    {xToY : Bool}
    (registered : pool.val < shadow.poolCount)
    (sums : (shadow.view pool).SwapSums profile amountIn xToY afterFee 0 k) :
    shadow.applySpeculativeSwap profile pool.val amountIn xToY =
      .error .divisionByZero := by
  have divided := constantProduct_divides sums.incoming sums.product
  have fee :
      amountAfterFee profile amountIn (shadow.feeNum pool)
        (shadow.feeDen pool) = .ok afterFee := sums.fee
  unfold applySpeculativeSwap
  simp only [registered, decide_true, debugAssert_true, Checked.ok_bind,
    poolIndex_val, fee]
  cases xToY with
  | true =>
      rw [swapReserves,
        show constantProduct profile (shadow.specReserveX pool)
          (shadow.specReserveY pool) afterFee = _ from divided]
      rfl
  | false =>
      rw [swapReserves,
        show constantProduct profile (shadow.specReserveY pool)
          (shadow.specReserveX pool) afterFee = _ from divided]
      rfl

/-- Any other swap of a registered pool returns. -/
theorem SwapSums.returns
    {shadow : StateShadow}
    {pool : PoolIdx}
    {amountIn afterFee newIn k : Nat}
    {xToY : Bool}
    (registered : pool.val < shadow.poolCount)
    (sums :
      (shadow.view pool).SwapSums profile amountIn xToY afterFee newIn k)
    (divisor : newIn ≠ 0) :
    ∃ paid after,
      shadow.applySpeculativeSwap profile pool.val amountIn xToY =
        .ok (paid, after) := by
  obtain ⟨out, swapped⟩ :=
    constantProduct_returns sums.incoming sums.product divisor
  have fee :
      amountAfterFee profile amountIn (shadow.feeNum pool)
        (shadow.feeDen pool) = .ok afterFee := sums.fee
  unfold applySpeculativeSwap
  simp only [registered, decide_true, debugAssert_true, Checked.ok_bind,
    poolIndex_val, fee]
  cases xToY with
  | true =>
      rw [swapReserves,
        show constantProduct profile (shadow.specReserveX pool)
          (shadow.specReserveY pool) afterFee = _ from swapped]
      exact ⟨_, _, rfl⟩
  | false =>
      rw [swapReserves,
        show constantProduct profile (shadow.specReserveY pool)
          (shadow.specReserveX pool) afterFee = _ from swapped]
      exact ⟨_, _, rfl⟩

/-- A swap leaves both sides positive when its quotient is. -/
theorem liquid_swapped_iff
    (pool : PoolView)
    (xToY : Bool)
    {newIn k : Nat}
    (divisor : newIn ≠ 0) :
    (pool.swapped xToY newIn (k / newIn)).Liquid ↔ newIn ≤ k := by
  have positiveIn : 1 ≤ newIn := Nat.one_le_iff_ne_zero.mpr divisor
  have positiveOut : 1 ≤ k / newIn ↔ newIn ≤ k :=
    Nat.div_pos_iff.trans (and_iff_right positiveIn)
  cases xToY with
  | true =>
      exact (and_iff_right positiveIn).trans positiveOut
  | false =>
      exact (and_iff_left positiveIn).trans positiveOut

end PoolView

end StateShadow

namespace ShadowOp

/-- Reserves are positive and fees are below one. -/
def Positive : ShadowOp → Prop
  | register entry =>
    1 ≤ entry.reserveX ∧ 1 ≤ entry.reserveY ∧ entry.feeNum < entry.feeDen
  | update _ reserveX reserveY _ => 1 ≤ reserveX ∧ 1 ≤ reserveY
  | _ => True

/--
The new incoming reserve of a swap of a registered pool, as the build computes
it, is at least 1 and does not exceed the product of the speculative reserves
before it.
-/
def LeavesBothReserves (profile : Profile) (before : StateShadow) :
    ShadowOp → Prop
  | swap idx amountIn xToY =>
    ∀ (pool : PoolIdx) (afterFee newIn k : Nat),
      idx = pool.val →
      pool.val < before.poolCount →
      (before.view pool).SwapSums profile amountIn xToY afterFee newIn k →
        1 ≤ newIn ∧ newIn ≤ k
  | _ => True

/-- A swap of a registered pool divides by zero. -/
def DividesByZero (profile : Profile) (before : StateShadow) :
    ShadowOp → Prop
  | swap idx amountIn xToY =>
    idx < before.poolCount ∧
      before.applySpeculativeSwap profile idx amountIn xToY =
        .error .divisionByZero
  | _ => False

variable
  {profile : Profile}
  {before after : StateShadow}
  {op : ShadowOp}

/-- Operations with positive reserves keep every pool funded. -/
theorem funded_step
    (funded : before.Funded)
    (performed : restrict Positive (Performs profile) before op after) :
    after.Funded := by
  obtain ⟨positive, performed⟩ := performed
  refine forall_registered_step StateShadow.PoolView.Funded
    StateShadow.PoolView.Funded ?_ ?_ performed funded
  · rintro entry old rfl
    exact positive
  · intro old new poolFunded step
    cases step with
    | unchanged =>
        exact poolFunded
    | updated idx reserveX reserveY slot =>
        exact ⟨positive.1, positive.2, poolFunded.2.2⟩
    | swapped sums divisor =>
        exact poolFunded
    | reverted =>
        exact poolFunded
    | newBlock slot =>
        exact poolFunded

/-- The operation is a speculative swap. -/
def IsSwap : ShadowOp → Prop
  | swap .. => True
  | _ => False

/-- Operations other than swaps keep the speculative reserves positive. -/
theorem liquid_of_not_swap
    (funded : before.Funded)
    (liquid : before.Liquid)
    (notSwap : ¬ op.IsSwap)
    (performed : restrict Positive (Performs profile) before op after) :
    after.Liquid := by
  obtain ⟨positive, performed⟩ := performed
  refine forall_registered_step
    (fun pool => pool.Funded ∧ pool.Liquid) StateShadow.PoolView.Liquid
    ?_ ?_ performed
    (fun pool registered => ⟨funded pool registered, liquid pool registered⟩)
  · rintro entry old rfl
    exact ⟨positive.1, positive.2.1⟩
  · rintro old new ⟨poolFunded, poolLiquid⟩ step
    cases step with
    | unchanged =>
        exact poolLiquid
    | updated idx reserveX reserveY slot =>
        exact positive
    | swapped sums divisor =>
        exact absurd trivial notSwap
    | reverted =>
        exact ⟨poolFunded.1, poolFunded.2.1⟩
    | newBlock slot =>
        exact ⟨poolFunded.1, poolFunded.2.1⟩

/-- A swap keeps the reserves positive exactly when it leaves both of them. -/
theorem liquid_swap_iff
    {idx amountIn : Nat}
    {xToY : Bool}
    (liquid : before.Liquid)
    (performed : Performs profile before (.swap idx amountIn xToY) after) :
    after.Liquid ↔
      LeavesBothReserves profile before (.swap idx amountIn xToY) := by
  obtain ⟨sameCount, target, afterFee, newIn, k, rfl, sums, divisor,
    views⟩ := view_swap performed
  have registered : target.val < before.poolCount := performed.1
  have targetView := views target
  rw [if_pos rfl] at targetView
  constructor
  · intro liquidAfter pool afterFee' newIn' k' samePool _ otherSums
    obtain rfl : target = pool := Fin.ext samePool
    obtain ⟨rfl, rfl⟩ := sums.unique otherSums
    have targetLiquid : (after.view target).Liquid :=
      liquidAfter target (sameCount ▸ registered)
    rw [targetView] at targetLiquid
    exact ⟨Nat.one_le_iff_ne_zero.mpr divisor,
      (StateShadow.PoolView.liquid_swapped_iff _ xToY divisor).mp
        targetLiquid⟩
  · intro leaves pool poolRegistered
    show (after.view pool).Liquid
    rw [views pool]
    by_cases samePool : pool = target
    · rw [if_pos samePool]
      exact (StateShadow.PoolView.liquid_swapped_iff _ xToY divisor).mpr
        (leaves target afterFee newIn k rfl registered sums).2
    · rw [if_neg samePool]
      exact liquid pool (sameCount ▸ poolRegistered)

/-- One operation keeps the reserves positive exactly under the condition. -/
theorem liquid_step_iff
    (funded : before.Funded)
    (liquid : before.Liquid)
    (performed : restrict Positive (Performs profile) before op after) :
    after.Liquid ↔ LeavesBothReserves profile before op := by
  cases op with
  | swap idx amountIn xToY =>
      exact liquid_swap_iff liquid performed.2
  | register entry =>
      exact iff_of_true (liquid_of_not_swap funded liquid id performed)
        trivial
  | update idx reserveX reserveY slot =>
      exact iff_of_true (liquid_of_not_swap funded liquid id performed)
        trivial
  | revert =>
      exact iff_of_true (liquid_of_not_swap funded liquid id performed)
        trivial
  | newBlock slot =>
      exact iff_of_true (liquid_of_not_swap funded liquid id performed)
        trivial

theorem funded_new : StateShadow.new.Funded :=
  fun pool registered => absurd registered (Nat.not_lt_zero pool.val)

theorem liquid_new : StateShadow.new.Liquid :=
  fun pool registered => absurd registered (Nat.not_lt_zero pool.val)

/-- A swap with a divisor does not divide by zero. -/
theorem not_dividesByZero
    (funded : before.Funded)
    (leaves : LeavesBothReserves profile before op) :
    ¬ DividesByZero profile before op := by
  cases op with
  | swap idx amountIn xToY =>
      rintro ⟨registered, divides⟩
      have room : idx < maxPools :=
        registered.trans_le before.poolCountInRange
      obtain ⟨pool, rfl⟩ : ∃ pool : PoolIdx, idx = pool.val :=
        ⟨⟨idx, room⟩, rfl⟩
      obtain ⟨-, -, feeBelowOne⟩ := funded pool registered
      refine StateShadow.applySpeculativeSwap_ne_error (by decide)
        (StateShadow.amountAfterFee_ne_error (by omega) (by decide)) ?_
        divides
      intro afterFee charged
      refine StateShadow.constantProduct_of_divisor ?_ (by decide)
      intro newIn k summed product
      have positive :=
        (leaves pool afterFee newIn k rfl registered
          ⟨charged, summed, product⟩).1
      omega
  | register | update | revert | newBlock =>
      exact id

/-- A swap that keeps the next state liquid, and returns, leaves both reserves. -/
theorem leavesBothReserves_of_next
    (liquid : before.Liquid)
    (divides : ¬ DividesByZero profile before op)
    (next : ∀ after, Performs profile before op after → after.Liquid) :
    LeavesBothReserves profile before op := by
  cases op with
  | swap idx amountIn xToY =>
      rintro pool afterFee newIn k rfl registered sums
      have divisor : newIn ≠ 0 := by
        rintro rfl
        exact divides ⟨registered, sums.divides registered⟩
      obtain ⟨paid, after, applied⟩ := sums.returns registered divisor
      have performed :
          Performs profile before (.swap pool.val amountIn xToY) after := by
        refine ⟨registered, ?_⟩
        simp only [ShadowOp.apply, applied, Checked.ok_bind,
          Checked.pure_eq_ok]
      exact (liquid_swap_iff liquid performed).mp (next after performed)
        pool afterFee newIn k rfl registered sums
  | register | update | revert | newBlock =>
      exact trivial

/--
Along any operations from the empty shadow both speculative reserves of every
pool stay positive, and no swap of them divides by zero, exactly when every
swap has a new incoming reserve of at least 1 and at most the product of the
reserves before it.  In a debug build then no swap at all divides by zero.
-/
theorem reserves_stay_positive_iff
    {profile : Profile}
    {ops : List ShadowOp}
    (positive : ∀ op ∈ ops, op.Positive) :
    (EveryState (Performs profile)
        (fun shadow =>
          shadow.Liquid ∧ (profile = .debug → shadow.NeverDividesByZero))
        StateShadow.new ops ∧
      EveryStep (Performs profile)
        (fun before op => ¬ DividesByZero profile before op)
        StateShadow.new ops) ↔
      EveryStep (Performs profile) (LeavesBothReserves profile)
        StateShadow.new ops := by
  refine (and_congr (everyState_restrict positive).symm
    (everyStep_restrict positive).symm).trans
      (Iff.trans ?_ (everyStep_restrict positive))
  have fundedAt {taken : List ShadowOp} {reached : StateShadow}
      (run :
        Run (restrict Positive (Performs profile)) StateShadow.new taken
          reached) :
      reached.Funded :=
    run.preserves StateShadow.Funded
      (fun funded performed => funded_step funded performed) funded_new
  constructor
  · rintro ⟨always, safe⟩ earlier op later before shape prefixRun
    have liquid :=
      (always earlier (op :: later) before shape prefixRun).1
    refine leavesBothReserves_of_next liquid
      (safe earlier op later before shape prefixRun) ?_
    intro after performed
    have allowed : op.Positive :=
      positive op (shape ▸ by simp)
    exact (always (earlier ++ [op]) later after
      (by rw [shape, List.append_assoc]; rfl)
      (prefixRun.snoc ⟨allowed, performed⟩)).1
  · intro leaves
    have liquidAlways :
        EveryState (restrict Positive (Performs profile)) StateShadow.Liquid
          StateShadow.new ops :=
      everyState_of_everyStep StateShadow.Funded
        (fun funded performed => funded_step funded performed)
        (fun funded liquid meets performed =>
          (liquid_step_iff funded liquid performed).mpr meets)
        funded_new liquid_new leaves
    constructor
    · intro earlier later reached shape prefixRun
      have liquid := liquidAlways earlier later reached shape prefixRun
      exact ⟨liquid, fun _ => liquid.neverDividesByZero (fundedAt prefixRun)⟩
    · intro earlier op later before shape prefixRun
      exact not_dividesByZero (fundedAt prefixRun)
        (leaves earlier op later before shape prefixRun)

/-- A pool with equal reserves and no fee, to be registered first. -/
def levelPool (reserve : Nat) : ShadowOp :=
  .register (Trade.levelEntry reserve)

/-- Swapping 3 into a 6 by 6 pool leaves 9 and 4. -/
theorem six_by_six_stays_positive :
    EveryState (Performs .debug)
        (fun shadow =>
          shadow.Liquid ∧
            (Profile.debug = .debug → shadow.NeverDividesByZero))
        StateShadow.new [levelPool 6, .swap 0 3 true] ∧
      EveryStep (Performs .debug)
        (fun before op => ¬ DividesByZero .debug before op)
        StateShadow.new [levelPool 6, .swap 0 3 true] := by
  have registered :
      Performs .debug StateShadow.new (levelPool 6)
        (Trade.levelShadow 6) := ⟨trivial, rfl⟩
  have swapped :
      Performs .debug (Trade.levelShadow 6) (.swap 0 3 true) _ :=
    ⟨Nat.zero_lt_one, rfl⟩
  apply (reserves_stay_positive_iff
    (by simp [levelPool, Trade.levelEntry, Positive])).mpr
  refine (EveryStep.cons_iff (performs_deterministic .debug) registered).mpr
    ⟨trivial, ?_⟩
  refine (EveryStep.cons_iff (performs_deterministic .debug) swapped).mpr
    ⟨?_, EveryStep.nil⟩
  intro pool afterFee newIn k samePool _ sums
  obtain rfl : pool = Trade.levelPool := Fin.ext samePool.symm
  have known :
      ((Trade.levelShadow 6).view Trade.levelPool).SwapSums .debug 3 true
        3 9 36 := ⟨rfl, rfl, rfl⟩
  obtain ⟨rfl, rfl⟩ := known.unique sums
  decide

/--
Swapping 1 into a 1 by 1 pool leaves 2 and 0, and a swap of nothing in the
other direction then divides by zero.  In a release build a swap of
`u128::MAX` into it does so at once.
-/
theorem one_by_one_is_drained :
    (∃ drained,
      Run (Performs .debug) StateShadow.new
          [levelPool 1, .swap 0 1 true] drained ∧
        ¬ drained.Liquid ∧
        drained.applySpeculativeSwap .debug 0 0 false =
          .error .divisionByZero) ∧
      ∃ pool,
        Run (Performs .release) StateShadow.new [levelPool 1] pool ∧
          pool.applySpeculativeSwap .release 0 (2 ^ 128 - 1) true =
            .error .divisionByZero := by
  constructor
  · refine ⟨_, .cons (show Performs .debug StateShadow.new (levelPool 1)
        (Trade.levelShadow 1) from ⟨trivial, rfl⟩)
      (.cons ⟨Nat.zero_lt_one, rfl⟩ (.nil _)), ?_, rfl⟩
    intro liquid
    have positive := (liquid Trade.levelPool Nat.zero_lt_one).2
    exact absurd (show 1 ≤ 0 from positive) (by decide)
  · exact ⟨_, .cons ⟨trivial, rfl⟩ (.nil _), rfl⟩

end ShadowOp

end YieldDaemon
