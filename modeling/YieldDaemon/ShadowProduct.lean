import YieldDaemon.StateShadow
import YieldDaemon.LabelledRun

namespace YieldDaemon

open CheckedArithmetic LabelledRun

/-!
# The product of the speculative reserves

A speculative swap adds the input after the fee to one reserve and divides the
old product by the result, rounding down, to get the other.  The product can
therefore only shrink, and it is kept exactly when the division leaves no
remainder.  Runs of swaps are followed together with what the trader has paid
into and received from the pool.
-/

namespace StateShadow

/-- The speculative reserve of the token a swap brings in. -/
def specIn (shadow : StateShadow) (pool : PoolIdx) (xToY : Bool) : Nat :=
  if xToY then shadow.specReserveX pool else shadow.specReserveY pool

/-- The speculative reserve of the token a swap takes out. -/
def specOut (shadow : StateShadow) (pool : PoolIdx) (xToY : Bool) : Nat :=
  if xToY then shadow.specReserveY pool else shadow.specReserveX pool

/-- The product of the speculative reserves of a pool. -/
def specProduct (shadow : StateShadow) (pool : PoolIdx) : Nat :=
  shadow.specReserveX pool * shadow.specReserveY pool

/-- The product of the confirmed reserves of a pool. -/
def confirmedProduct (shadow : StateShadow) (pool : PoolIdx) : Nat :=
  shadow.reserveX pool * shadow.reserveY pool

/-- What is left of an input amount after the fee of a pool. -/
def afterFee
    (shadow : StateShadow)
    (pool : PoolIdx)
    (amountIn : Nat) : Nat :=
  amountIn - amountIn * shadow.feeNum pool / shadow.feeDen pool

/-- The reserve of the incoming token that a swap leaves behind. -/
def newSpecIn
    (shadow : StateShadow)
    (pool : PoolIdx)
    (amountIn : Nat)
    (xToY : Bool) : Nat :=
  shadow.specIn pool xToY + shadow.afterFee pool amountIn

theorem specIn_mul_specOut
    (shadow : StateShadow)
    (pool : PoolIdx)
    (xToY : Bool) :
    shadow.specIn pool xToY * shadow.specOut pool xToY =
      shadow.specProduct pool := by
  cases xToY with
  | false =>
      exact Nat.mul_comm _ _
  | true =>
      rfl

@[simp] theorem markDirty_specReserveX
    (shadow : StateShadow)
    (pool : PoolIdx) :
    (shadow.markDirty pool).specReserveX = shadow.specReserveX := by
  unfold markDirty
  split <;> rfl

@[simp] theorem markDirty_specReserveY
    (shadow : StateShadow)
    (pool : PoolIdx) :
    (shadow.markDirty pool).specReserveY = shadow.specReserveY := by
  unfold markDirty
  split <;> rfl

/-- The part of the shadow that speculation leaves alone. -/
structure SameConfirmed (before after : StateShadow) : Prop where
  reserveX : after.reserveX = before.reserveX
  reserveY : after.reserveY = before.reserveY
  feeNum : after.feeNum = before.feeNum
  feeDen : after.feeDen = before.feeDen
  poolCount : after.poolCount = before.poolCount

theorem markDirty_sameConfirmed
    (shadow : StateShadow)
    (pool : PoolIdx) :
    SameConfirmed shadow (shadow.markDirty pool) := by
  unfold markDirty
  split <;> exact ⟨rfl, rfl, rfl, rfl, rfl⟩

/-- Everything a successful speculative swap does to its pool. -/
structure SwapEffect
    (before : StateShadow)
    (pool : PoolIdx)
    (amountIn : Nat)
    (xToY : Bool)
    (amountOut : Nat)
    (after : StateShadow) : Prop where
  registered : pool.val < before.poolCount
  divisor : before.newSpecIn pool amountIn xToY ≠ 0
  incoming :
    after.specIn pool xToY = before.newSpecIn pool amountIn xToY
  outgoing :
    after.specOut pool xToY =
      before.specProduct pool / before.newSpecIn pool amountIn xToY
  paidOut :
    amountOut + after.specOut pool xToY = before.specOut pool xToY
  confirmed : SameConfirmed before after

/-- In a debug build a returned fee-free amount is the exact one. -/
theorem amountAfterFee_debug
    {amountIn feeNum feeDen result : Nat}
    (returned :
      amountAfterFee .debug amountIn feeNum feeDen = .ok result) :
    result = amountIn - amountIn * feeNum / feeDen := by
  simp only [amountAfterFee, Checked.bind_eq_ok, mul_debug_eq_ok,
    div_eq_ok, sub_debug_eq_ok] at returned
  obtain ⟨_, ⟨-, rfl⟩, _, ⟨-, rfl⟩, -, rfl⟩ := returned
  rfl

/-- In a debug build a swap that returns has computed the exact reserves. -/
theorem constantProduct_debug
    {reserveIn reserveOut afterFee newIn newOut out : Nat}
    (returned :
      constantProduct .debug reserveIn reserveOut afterFee =
        .ok (newIn, newOut, out)) :
    newIn ≠ 0 ∧
      newIn = reserveIn + afterFee ∧
      newOut = reserveIn * reserveOut / newIn ∧
      out + newOut = reserveOut := by
  simp only [constantProduct, Checked.bind_eq_ok, add_debug_eq_ok,
    mul_debug_eq_ok, div_eq_ok, sub_debug_eq_ok, Checked.pure_eq_ok,
    Except.ok.injEq, Prod.mk.injEq] at returned
  obtain ⟨_, ⟨-, rfl⟩, _, ⟨-, rfl⟩, _, ⟨nonzero, rfl⟩, _, ⟨fits, rfl⟩,
    rfl, rfl, rfl⟩ := returned
  exact ⟨nonzero, rfl, rfl, Nat.sub_add_cancel fits⟩

/-- A successful swap has exactly the effect that `SwapEffect` lists. -/
theorem applySpeculativeSwap_effect
    {before after : StateShadow}
    {pool : PoolIdx}
    {amountIn amountOut : Nat}
    {xToY : Bool}
    (applied :
      before.applySpeculativeSwap .debug pool.val amountIn xToY =
        .ok (amountOut, after)) :
    SwapEffect before pool amountIn xToY amountOut after := by
  simp only [applySpeculativeSwap, Checked.bind_eq_ok,
    debugAssert_debug_eq_ok, poolIndex_val, Except.ok.injEq,
    Checked.pure_eq_ok] at applied
  obtain ⟨_, registered, _, rfl, fee, feeReturned,
    ⟨newRx, newRy, paid⟩, swapped, shape⟩ := applied
  obtain ⟨rfl, rfl⟩ := Prod.mk.inj shape
  have feeShape := amountAfterFee_debug feeReturned
  have inRange : pool.val < before.poolCount := by
    simpa using registered
  have confirmed :=
    markDirty_sameConfirmed
      { before with
        specReserveX := Function.update before.specReserveX pool newRx
        specReserveY := Function.update before.specReserveY pool newRy }
      pool
  cases xToY with
  | true =>
      obtain ⟨nonzero, newIn, newOut, out⟩ :=
        constantProduct_debug swapped
      subst newOut newIn feeShape
      exact {
        registered := inRange
        divisor := nonzero
        incoming := by simp [specIn, newSpecIn, afterFee]
        outgoing := by
          simp [specIn, specOut, newSpecIn, afterFee, specProduct]
        paidOut := by simpa [specOut] using out
        confirmed := ⟨confirmed.1, confirmed.2, confirmed.3,
          confirmed.4, confirmed.5⟩ }
  | false =>
      simp only [swapReserves, Checked.bind_eq_ok,
        Checked.pure_eq_ok, Except.ok.injEq] at swapped
      obtain ⟨⟨swapIn, swapOut, swapPaid⟩, returned, sides⟩ := swapped
      obtain ⟨rfl, rfl, rfl⟩ : swapOut = newRx ∧
          swapIn = newRy ∧ swapPaid = paid := by
        simpa using sides
      obtain ⟨nonzero, newIn, newOut, out⟩ :=
        constantProduct_debug returned
      subst newOut newIn feeShape
      exact {
        registered := inRange
        divisor := nonzero
        incoming := by simp [specIn, newSpecIn, afterFee]
        outgoing := by
          simp [specIn, specOut, newSpecIn, afterFee, specProduct,
            Nat.mul_comm]
        paidOut := by simpa [specOut] using out
        confirmed := ⟨confirmed.1, confirmed.2, confirmed.3,
          confirmed.4, confirmed.5⟩ }

/-- Deriving the prices leaves the reserves and fees as they are. -/
theorem recomputePrice_columns
    {profile : Profile}
    {before after : StateShadow}
    {pool : PoolIdx}
    (priced : before.recomputePrice profile pool = .ok after) :
    SameConfirmed before after ∧
      after.specReserveX = before.specReserveX ∧
      after.specReserveY = before.specReserveY := by
  simp only [recomputePrice, Checked.bind_eq_ok, Checked.pure_eq_ok,
    Except.ok.injEq] at priced
  obtain ⟨xPerY, -, yPerX, -, rfl⟩ := priced
  exact ⟨⟨rfl, rfl, rfl, rfl, rfl⟩, rfl, rfl⟩

/-- What a successful registration leaves in the columns of its pool. -/
structure Registered
    (shadow : StateShadow)
    (pool : PoolIdx)
    (entry : Registration) : Prop where
  reserveX : shadow.reserveX pool = entry.reserveX
  reserveY : shadow.reserveY pool = entry.reserveY
  specReserveX : shadow.specReserveX pool = entry.reserveX
  specReserveY : shadow.specReserveY pool = entry.reserveY
  feeNum : shadow.feeNum pool = entry.feeNum
  feeDen : shadow.feeDen pool = entry.feeDen
  counted : pool.val < shadow.poolCount

theorem registerPool_registered
    {profile : Profile}
    {before after : StateShadow}
    {entry : Registration}
    {idx : Nat}
    (returned :
      before.registerPool profile entry = .ok (some idx, after)) :
    ∃ pool : PoolIdx, idx = pool.val ∧ Registered after pool entry := by
  unfold registerPool at returned
  split at returned
  · simp at returned
  · rename_i room
    simp only [Checked.bind_eq_ok, Checked.pure_eq_ok, Except.ok.injEq,
      Prod.mk.injEq, Option.some.injEq] at returned
    obtain ⟨priced, pricing, rfl, rfl⟩ := returned
    obtain ⟨confirmed, specX, specY⟩ := recomputePrice_columns pricing
    refine ⟨⟨before.poolCount, Nat.not_le.mp room⟩, rfl, ?_⟩
    exact {
      reserveX := by simp [confirmed.reserveX, writeRegistration]
      reserveY := by simp [confirmed.reserveY, writeRegistration]
      specReserveX := by simp [specX, writeRegistration]
      specReserveY := by simp [specY, writeRegistration]
      feeNum := by simp [confirmed.feeNum, writeRegistration]
      feeDen := by simp [confirmed.feeDen, writeRegistration]
      counted := Nat.lt_succ_self _ }

namespace SwapEffect

variable
  {before after : StateShadow}
  {pool : PoolIdx}
  {amountIn amountOut : Nat}
  {xToY : Bool}

/-- After a swap the product is the new reserve times the floored quotient. -/
theorem specProduct_after
    (effect : SwapEffect before pool amountIn xToY amountOut after) :
    after.specProduct pool =
      before.newSpecIn pool amountIn xToY *
        (before.specProduct pool /
          before.newSpecIn pool amountIn xToY) := by
  rw [← specIn_mul_specOut after pool xToY, effect.incoming,
    effect.outgoing]

/-- Rounding the quotient down never makes the product grow. -/
theorem specProduct_le
    (effect : SwapEffect before pool amountIn xToY amountOut after) :
    after.specProduct pool ≤ before.specProduct pool := by
  rw [effect.specProduct_after]
  exact Nat.mul_div_le _ _

/-- The product survives a swap exactly when the division is exact. -/
theorem specProduct_eq_iff
    (effect : SwapEffect before pool amountIn xToY amountOut after) :
    after.specProduct pool = before.specProduct pool ↔
      before.newSpecIn pool amountIn xToY ∣ before.specProduct pool := by
  rw [effect.specProduct_after]
  constructor
  · intro kept
    exact Dvd.intro _ kept
  · intro exact
    exact Nat.mul_div_cancel' exact

/-- The confirmed product is outside the reach of a swap. -/
theorem confirmedProduct_eq
    (effect : SwapEffect before pool amountIn xToY amountOut after) :
    after.confirmedProduct pool = before.confirmedProduct pool := by
  simp only [confirmedProduct, effect.confirmed.reserveX,
    effect.confirmed.reserveY]

/-- The incoming reserve gains at most what the trader paid. -/
theorem specIn_le
    (effect : SwapEffect before pool amountIn xToY amountOut after) :
    after.specIn pool xToY ≤ before.specIn pool xToY + amountIn := by
  rw [effect.incoming, newSpecIn]
  exact Nat.add_le_add_left (Nat.sub_le _ _) _

end SwapEffect

end StateShadow

/-- One call of `applySpeculativeSwap` on a fixed pool. -/
structure SwapCall where
  amountIn : Nat
  xToY : Bool
  deriving Repr, DecidableEq

/-- A shadow together with what a trader exchanged with one pool so far. -/
structure Trade where
  shadow : StateShadow
  paidX : Nat
  paidY : Nat
  receivedX : Nat
  receivedY : Nat

namespace Trade

/-- Nothing has been exchanged yet. -/
def start (shadow : StateShadow) : Trade :=
  ⟨shadow, 0, 0, 0, 0⟩

/-- Book one swap: the input was paid and the output received. -/
def book
    (trade : Trade)
    (call : SwapCall)
    (amountOut : Nat)
    (shadow : StateShadow) : Trade :=
  if call.xToY then
    { shadow := shadow
      paidX := trade.paidX + call.amountIn
      paidY := trade.paidY
      receivedX := trade.receivedX
      receivedY := trade.receivedY + amountOut }
  else
    { shadow := shadow
      paidX := trade.paidX
      paidY := trade.paidY + call.amountIn
      receivedX := trade.receivedX + amountOut
      receivedY := trade.receivedY }

@[simp] theorem book_shadow
    (trade : Trade)
    (call : SwapCall)
    (amountOut : Nat)
    (shadow : StateShadow) :
    (trade.book call amountOut shadow).shadow = shadow := by
  unfold book
  split <;> rfl

/-- A call that returns, with all of its u128 arithmetic in range. -/
def Step
    (pool : PoolIdx)
    (before : Trade)
    (call : SwapCall)
    (after : Trade) : Prop :=
  ∃ amountOut shadow,
    before.shadow.applySpeculativeSwap .debug pool.val
        call.amountIn call.xToY =
      .ok (amountOut, shadow) ∧
    after = before.book call amountOut shadow

/-- The speculative product has not fallen below the confirmed one. -/
def ProductKept (pool : PoolIdx) (trade : Trade) : Prop :=
  trade.shadow.confirmedProduct pool ≤ trade.shadow.specProduct pool

/-- The new incoming reserve divides the product before the swap. -/
def ExactDivision
    (pool : PoolIdx)
    (before : Trade)
    (call : SwapCall) : Prop :=
  before.shadow.newSpecIn pool call.amountIn call.xToY ∣
    before.shadow.specProduct pool

/-- The pool handed back everything paid in, and more of some token. -/
def Gained (trade : Trade) : Prop :=
  trade.paidX ≤ trade.receivedX ∧
    trade.paidY ≤ trade.receivedY ∧
    (trade.paidX < trade.receivedX ∨ trade.paidY < trade.receivedY)

/--
What every trade on a pool with speculative reserves `startX` and `startY`
preserves: the reserves account for at most the net payments, and the product
is at most the confirmed one.
-/
structure Accounted
    (pool : PoolIdx)
    (startX startY : Nat)
    (trade : Trade) : Prop where
  accountX :
    trade.shadow.specReserveX pool + trade.receivedX ≤
      startX + trade.paidX
  accountY :
    trade.shadow.specReserveY pool + trade.receivedY ≤
      startY + trade.paidY
  productLe :
    trade.shadow.specProduct pool ≤ trade.shadow.confirmedProduct pool
  confirmed :
    trade.shadow.confirmedProduct pool = startX * startY

theorem step_deterministic (pool : PoolIdx) :
    Deterministic (Step pool) := by
  rintro before call first second
    ⟨firstOut, firstShadow, firstCall, rfl⟩
    ⟨secondOut, secondShadow, secondCall, rfl⟩
  have same := firstCall.symm.trans secondCall
  injection same with pairs
  injection pairs with outs shadows
  rw [outs, shadows]

variable
  {pool : PoolIdx}
  {startX startY : Nat}
  {before after : Trade}
  {call : SwapCall}

/-- One swap keeps the accounts balanced. -/
theorem accounted_step
    (accounted : Accounted pool startX startY before)
    (step : Step pool before call after) :
    Accounted pool startX startY after := by
  obtain ⟨amountOut, shadow, applied, rfl⟩ := step
  have effect := StateShadow.applySpeculativeSwap_effect applied
  have incoming := effect.specIn_le
  have outgoing := effect.paidOut
  have product : shadow.specProduct pool ≤ shadow.confirmedProduct pool := by
    rw [effect.confirmedProduct_eq]
    exact effect.specProduct_le.trans accounted.productLe
  have confirmed : shadow.confirmedProduct pool = startX * startY := by
    rw [effect.confirmedProduct_eq, accounted.confirmed]
  have accountX := accounted.accountX
  have accountY := accounted.accountY
  cases direction : call.xToY with
  | true =>
      simp only [direction, StateShadow.specIn, StateShadow.specOut,
        ↓reduceIte] at incoming outgoing
      refine ⟨?_, ?_, by simpa using product, by simpa using confirmed⟩
      · simp only [book, direction, ↓reduceIte]
        omega
      · simp only [book, direction, ↓reduceIte]
        omega
  | false =>
      simp only [direction, StateShadow.specIn, StateShadow.specOut,
        Bool.false_eq_true, ↓reduceIte] at incoming outgoing
      refine ⟨?_, ?_, by simpa using product, by simpa using confirmed⟩
      · simp only [book, direction, Bool.false_eq_true, ↓reduceIte]
        omega
      · simp only [book, direction, Bool.false_eq_true, ↓reduceIte]
        omega

/-- From a kept product, a swap keeps it exactly when its division is exact. -/
theorem productKept_step
    (accounted : Accounted pool startX startY before)
    (kept : ProductKept pool before)
    (step : Step pool before call after) :
    ProductKept pool after ↔ ExactDivision pool before call := by
  obtain ⟨amountOut, shadow, applied, rfl⟩ := step
  have effect := StateShadow.applySpeculativeSwap_effect applied
  have full :
      before.shadow.specProduct pool =
        before.shadow.confirmedProduct pool :=
    accounted.productLe.antisymm kept
  unfold ProductKept ExactDivision
  rw [book_shadow, effect.confirmedProduct_eq, ← full,
    ← effect.specProduct_eq_iff]
  exact ⟨effect.specProduct_le.antisymm, fun same => same.ge⟩

/-- A trader who gains has taken some of the product out of the pool. -/
theorem not_gained_of_productKept
    (positive : 0 < startX * startY)
    (accounted : Accounted pool startX startY after)
    (kept : ProductKept pool after) :
    ¬ Gained after := by
  rintro ⟨coveredX, coveredY, more⟩
  have accountX := accounted.accountX
  have accountY := accounted.accountY
  have atMostX : after.shadow.specReserveX pool ≤ startX := by omega
  have atMostY : after.shadow.specReserveY pool ≤ startY := by omega
  have product :
      startX * startY ≤
        after.shadow.specReserveX pool *
          after.shadow.specReserveY pool := by
    rw [← accounted.confirmed]
    exact kept
  have positiveX : 0 < startX := Nat.pos_of_mul_pos_right positive
  have positiveY : 0 < startY := Nat.pos_of_mul_pos_left positive
  rcases more with moreX | moreY
  · have fewer : after.shadow.specReserveX pool < startX := by omega
    have shrunk :
        after.shadow.specReserveX pool *
            after.shadow.specReserveY pool <
          startX * startY :=
      Nat.mul_lt_mul_of_lt_of_le fewer atMostY positiveY
    omega
  · have fewer : after.shadow.specReserveY pool < startY := by omega
    have shrunk :
        after.shadow.specReserveX pool *
            after.shadow.specReserveY pool <
          startX * startY :=
      Nat.mul_lt_mul_of_le_of_lt atMostX fewer positiveX
    omega

/-- A freshly registered pool has balanced accounts and its full product. -/
theorem accounted_registered
    {shadow : StateShadow}
    {entry : StateShadow.Registration}
    (registered : StateShadow.Registered shadow pool entry) :
    Accounted pool entry.reserveX entry.reserveY (start shadow) := by
  have specX := registered.specReserveX
  have specY := registered.specReserveY
  refine ⟨?_, ?_, ?_, ?_⟩
  · simp [start, specX]
  · simp [start, specY]
  · simp [start, StateShadow.specProduct, StateShadow.confirmedProduct,
      specX, specY, registered.reserveX, registered.reserveY]
  · simp [start, StateShadow.confirmedProduct, registered.reserveX,
      registered.reserveY]

theorem productKept_registered
    {shadow : StateShadow}
    {entry : StateShadow.Registration}
    (registered : StateShadow.Registered shadow pool entry) :
    ProductKept pool (start shadow) := by
  simp [ProductKept, start, StateShadow.specProduct,
    StateShadow.confirmedProduct, registered.specReserveX,
    registered.specReserveY, registered.reserveX, registered.reserveY]

/--
In a run of swaps on a registered pool the product never falls below the
confirmed one exactly when every division is exact, and a trader gains in no
run whose divisions are exact.
-/
theorem product_kept_iff_exact_divisions
    {profile : Profile}
    {unregistered registered : StateShadow}
    {entry : StateShadow.Registration}
    {pool : PoolIdx}
    {calls : List SwapCall}
    {final : Trade}
    (registration :
      unregistered.registerPool profile entry =
        .ok (some pool.val, registered))
    (positiveX : 0 < entry.reserveX)
    (positiveY : 0 < entry.reserveY)
    (run : Run (Step pool) (start registered) calls final) :
    (EveryState (Step pool) (ProductKept pool) (start registered) calls ↔
        EveryStep (Step pool) (ExactDivision pool)
          (start registered) calls) ∧
      (EveryStep (Step pool) (ExactDivision pool)
          (start registered) calls →
        EveryState (Step pool) (fun trade => ¬ Gained trade)
          (start registered) calls) := by
  obtain ⟨samePool, sameIdx, shape⟩ :=
    StateShadow.registerPool_registered registration
  obtain rfl : pool = samePool := Fin.ext sameIdx
  have accounted := accounted_registered shape
  have productIff :=
    everyState_iff_everyStep
      (Accounted pool entry.reserveX entry.reserveY)
      (step_deterministic pool)
      (fun before step => accounted_step before step)
      (fun before kept step => productKept_step before kept step)
      run accounted (productKept_registered shape)
  refine ⟨productIff, ?_⟩
  intro exactDivisions earlier later reached split prefixRun
  have kept : ProductKept pool reached :=
    productIff.mpr exactDivisions earlier later reached split prefixRun
  have reachedAccounted :
      Accounted pool entry.reserveX entry.reserveY reached :=
    prefixRun.preserves (Accounted pool entry.reserveX entry.reserveY)
      (fun before step => accounted_step before step) accounted
  exact not_gained_of_productKept
    (Nat.mul_pos positiveX positiveY) reachedAccounted kept

/-- The first pool of an empty shadow, with equal reserves and no fee. -/
def levelEntry (reserve : Nat) : StateShadow.Registration where
  poolKey := Vector.replicate 32 1
  tokenX := 1
  tokenY := 2
  reserveX := reserve
  reserveY := reserve
  feeNum := 0
  feeDen := 1
  slot := 100

/-- The empty shadow after the registration of `levelEntry reserve`. -/
def levelShadow (reserve : Nat) : StateShadow :=
  match StateShadow.new.registerPool .debug (levelEntry reserve) with
  | .ok (_, shadow) => shadow
  | .error _ => StateShadow.new

/-- The pool that `levelShadow` registers. -/
def levelPool : PoolIdx := ⟨0, by decide⟩

/-- Swapping 3 into a 6 by 6 pool leaves 9 and 4, whose product is still 36. -/
theorem product_kept_six_by_six :
    EveryState (Step levelPool) (ProductKept levelPool)
      (start (levelShadow 6)) [⟨3, true⟩] := by
  refine (product_kept_iff_exact_divisions
    (show StateShadow.new.registerPool .debug (levelEntry 6) =
      .ok (some levelPool.val, levelShadow 6) from rfl)
    (by decide) (by decide)
    (.cons ⟨2, _, rfl, rfl⟩ (.nil _))).1.mpr ?_
  refine (EveryStep.cons_iff (step_deterministic levelPool)
    (⟨2, _, rfl, rfl⟩ : Step levelPool (start (levelShadow 6)) ⟨3, true⟩ _)).mpr
      ⟨?_, EveryStep.nil⟩
  show 9 ∣ 36
  decide

/--
Swapping 1 into a 10 by 10 pool leaves 11 and 9, and swapping the 1 that came
out back in returns 2.
-/
theorem ten_by_ten_loses_product_and_pays_gain :
    ¬ EveryState (Step levelPool) (ProductKept levelPool)
        (start (levelShadow 10)) [⟨1, true⟩, ⟨1, false⟩] ∧
      ¬ EveryState (Step levelPool) (fun trade => ¬ Gained trade)
        (start (levelShadow 10)) [⟨1, true⟩, ⟨1, false⟩] := by
  constructor
  · intro always
    have kept :=
      always [⟨1, true⟩] [⟨1, false⟩] _ rfl
        (.cons ⟨1, _, rfl, rfl⟩ (.nil _))
    exact absurd (show 100 ≤ 99 from kept) (by decide)
  · intro always
    exact always [⟨1, true⟩, ⟨1, false⟩] [] _ rfl
      (.cons ⟨1, _, rfl, rfl⟩ (.cons ⟨2, _, rfl, rfl⟩ (.nil _)))
      ⟨show 1 ≤ 2 by decide, show 1 ≤ 1 by decide,
        .inl (show 1 < 2 by decide)⟩

end Trade

end YieldDaemon
