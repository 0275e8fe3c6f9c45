import YieldDaemon.AmmParser
import YieldDaemon.AsteEvents
import YieldDaemon.ShadowOperations

namespace YieldDaemon

open CheckedArithmetic

/-!
# Swap events of the event loop

`mev::run` sends every parsed swap to the engine as a swap of pool 0, and takes
the direction from the byte order of the two tokens.  The engine looks nothing
up, so the event reaches the pool it was meant for only under a condition.
-/

/-- The identifier of a token: its first eight bytes. -/
def tokenId (token : Key) : Nat :=
  leValue (token.toList.take 8)

/-- The event that `mev::run` builds from a parsed swap. -/
def pendingSwapEvent (swap : SwapInstruction) : MempoolEvent :=
  .pendingSwap
    0 -- ASTE resolves internally via shadow.find_pool()
    swap.amountIn
    (decide (swap.tokenIn.toList < swap.tokenOut.toList))

/-- The direction that an event gives for a swap. -/
def MempoolEvent.direction? : MempoolEvent → Option Bool
  | .pendingSwap _ _ xToY => some xToY
  | _ => none

/-- The event loop sends such events: pool 0 and a 64-bit amount. -/
theorem pendingSwapEvent_sentByRun
    {tx : MempoolTransaction}
    {swap : SwapInstruction}
    (parsed : parseSwapInstruction tx = some swap) :
    (pendingSwapEvent swap).SentByRun :=
  ⟨rfl, parseSwapInstruction_amount_lt parsed⟩

namespace Aste

variable
  {target : Target}
  {engine next : Aste}

/-- Ending a cycle does not touch the shadow. -/
theorem endSwapCycle_shadow
    {elapsedNanos profit result : Nat}
    (ended :
      engine.endSwapCycle target elapsedNanos profit = .ok (result, next)) :
    next.shadow = engine.shadow := by
  simp only [endSwapCycle, updateLatency, Checked.bind_eq_ok,
    Checked.pure_eq_ok, Except.ok.injEq, Prod.mk.injEq] at ended
  obtain ⟨tracked, ⟨average, -, rfl⟩, -, rfl⟩ := ended
  rfl

/-- Nor does looking for cycles. -/
theorem solve_shadow
    {cycles : List ArbCycle}
    (solved : engine.solve target = .ok (cycles, next)) :
    next.shadow = engine.shadow := by
  simp only [solve, Checked.bind_eq_ok] at solved
  obtain ⟨phase, -, searching⟩ := solved
  split at searching
  · simp only [rebuildGraph, Checked.bind_eq_ok, Checked.pure_eq_ok,
      Except.ok.injEq, Prod.mk.injEq] at searching
    obtain ⟨rebuilt, ⟨graph, -, rfl⟩, found, -, -, rfl⟩ := searching
    rfl
  · simp only [Checked.bind_eq_ok, Checked.pure_eq_ok, Except.ok.injEq,
      Prod.mk.injEq] at searching
    obtain ⟨rebuilt, rfl, found, -, -, rfl⟩ := searching
    rfl

/-- Nor does executing a result. -/
theorem executeArb_shadow
    {result : ArbResult}
    {profit : Nat}
    (executed : engine.executeArb result = .ok (profit, next)) :
    next.shadow = engine.shadow := by
  simp only [executeArb, Checked.bind_eq_ok] at executed
  obtain ⟨bundle, -, finished⟩ := executed
  split at finished
  · obtain ⟨-, rfl⟩ := Prod.mk.inj (Except.ok.inj finished)
    rfl
  · obtain ⟨-, rfl⟩ := Prod.mk.inj (Except.ok.inj finished)
    rfl

/-- A pending swap changes the shadow as the speculative swap does. -/
theorem processEvent_pendingSwap
    {elapsedNanos poolIdx amountIn profit : Nat}
    {xToY : Bool}
    (processed :
      engine.processEvent target elapsedNanos
          (.pendingSwap poolIdx amountIn xToY) = .ok (profit, next)) :
    ∃ amountOut,
      engine.shadow.applySpeculativeSwap target.profile poolIdx amountIn
        xToY = .ok (amountOut, next.shadow) := by
  simp only [processEvent, beginCycle, processSwap, simulate,
    Checked.bind_eq_ok, Checked.pure_eq_ok, Except.ok.injEq] at processed
  obtain ⟨counted, ⟨cycleCount, -, rfl⟩, simulated,
    ⟨⟨amountOut, shadow⟩, applied, rfl⟩, ⟨cycles, solved⟩, solving,
    finished⟩ := processed
  refine ⟨amountOut, ?_⟩
  rw [applied]
  have sameSolved := solve_shadow solving
  congr 2
  symm
  refine Eq.trans ?_ sameSolved
  split at finished
  · exact endSwapCycle_shadow finished
  · simp only [Checked.bind_eq_ok] at finished
    obtain ⟨results, -, ending⟩ := finished
    split at ending
    · exact endSwapCycle_shadow ending
    · simp only [Checked.bind_eq_ok] at ending
      obtain ⟨⟨gain, executed⟩, executing, ended⟩ := ending
      have sameExecuted := executeArb_shadow executing
      exact (endSwapCycle_shadow ended).trans sameExecuted

end Aste

namespace SwapInstruction

/-- The swap names the pool and its two tokens, in one of the two orders. -/
structure Names
    (swap : SwapInstruction)
    (shadow : StateShadow)
    (pool : PoolIdx) : Prop where
  registered : pool.val < shadow.poolCount
  poolId : shadow.poolKeys pool = swap.poolId
  tokens :
    (tokenId swap.tokenIn = shadow.tokenXId pool ∧
        tokenId swap.tokenOut = shadow.tokenYId pool) ∨
      (tokenId swap.tokenIn = shadow.tokenYId pool ∧
        tokenId swap.tokenOut = shadow.tokenXId pool)

/-- The swap brings in token X of the pool. -/
def bringsTokenX
    (swap : SwapInstruction)
    (shadow : StateShadow)
    (pool : PoolIdx) : Bool :=
  tokenId swap.tokenIn = shadow.tokenXId pool

/--
The event of a swap goes through its pool: no other pool changes its
speculative reserves, this one takes in the incoming token, and the event says
X to Y exactly when that is token X.
-/
structure Reaches
    (swap : SwapInstruction)
    (before after : StateShadow)
    (pool : PoolIdx) : Prop where
  others :
    ∀ other, other ≠ pool →
      after.specReserveX other = before.specReserveX other ∧
        after.specReserveY other = before.specReserveY other
  takesIn :
    (after.view pool).specIn (swap.bringsTokenX before pool) ≠
      (before.view pool).specIn (swap.bringsTokenX before pool)
  direction :
    (pendingSwapEvent swap).direction? =
      some (swap.bringsTokenX before pool)

end SwapInstruction

/-- Both speculative reserves of every pool are u128 values. -/
def StateShadow.FitsU128 (shadow : StateShadow) : Prop :=
  ∀ pool,
    shadow.specReserveX pool < 2 ^ 128 ∧ shadow.specReserveY pool < 2 ^ 128

/-- What a swap takes in changes its reserve unless the fee takes it all. -/
theorem StateShadow.PoolView.SwapSums.takes_in_iff
    {profile : Profile}
    {row : PoolView}
    {amountIn afterFee newIn k : Nat}
    {xToY : Bool}
    (sums : row.SwapSums profile amountIn xToY afterFee newIn k)
    (amountFits : amountIn < 2 ^ 64)
    (reserveFits : row.specIn xToY < 2 ^ 128) :
    newIn ≠ row.specIn xToY ↔
      amountAfterFee profile amountIn row.feeNum row.feeDen ≠ .ok 0 := by
  have charged := sums.fee
  simp only [amountAfterFee, Checked.bind_eq_ok] at charged
  obtain ⟨scaled, -, fee, -, subtracting⟩ := charged
  have afterFeeFits : afterFee < 2 ^ 128 :=
    sub_lt (by omega) subtracting
  have sameIff := add_eq_left_iff reserveFits afterFeeFits sums.incoming
  rw [sums.fee]
  constructor
  · intro changed nothingLeft
    exact changed (sameIff.mpr (Except.ok.inj nothingLeft))
  · intro somethingLeft same
    exact somethingLeft (congrArg Except.ok (sameIff.mp same))

namespace SwapInstruction

section Event

variable
  {target : Target}
  {engine next : Aste}
  {swap : SwapInstruction}
  {pool : PoolIdx}
  {elapsedNanos profit : Nat}

/-- Whatever its swap names, an event is a swap of pool 0. -/
theorem event_swaps_first_pool
    (registered : 0 < engine.shadow.poolCount)
    (processed :
      engine.processEvent target elapsedNanos (pendingSwapEvent swap) =
        .ok (profit, next)) :
    ShadowOp.Performs target.profile engine.shadow
      (.swap 0 swap.amountIn
        (decide (swap.tokenIn.toList < swap.tokenOut.toList)))
      next.shadow := by
  obtain ⟨amountOut, applied⟩ := Aste.processEvent_pendingSwap processed
  refine ⟨registered, ?_⟩
  rw [ShadowOp.apply, applied]
  rfl

/-- So it goes through no other pool. -/
theorem reaches_first_pool_only
    (registered : 0 < engine.shadow.poolCount)
    (processed :
      engine.processEvent target elapsedNanos (pendingSwapEvent swap) =
        .ok (profit, next))
    (reaches : swap.Reaches engine.shadow next.shadow pool) :
    pool.val = 0 := by
  obtain ⟨-, first, afterFee, newIn, k, isFirst, -, -, rows⟩ :=
    ShadowOp.view_swap (event_swaps_first_pool registered processed)
  by_contra notFirst
  have other : pool ≠ first := by
    rintro rfl
    exact notFirst isFirst.symm
  exact reaches.takesIn (by rw [rows pool, if_neg other])

end Event

/--
The event of a parsed swap goes through its pool exactly for pool 0, when the
byte order of the tokens is the order of the pool and the fee leaves something
of the amount.
-/
theorem event_reaches_pool_iff
    {target : Target}
    {engine next : Aste}
    {tx : MempoolTransaction}
    {swap : SwapInstruction}
    {pool : PoolIdx}
    {elapsedNanos profit : Nat}
    (fits : engine.shadow.FitsU128)
    (parsed : parseSwapInstruction tx = some swap)
    (names : swap.Names engine.shadow pool)
    (processed :
      engine.processEvent target elapsedNanos (pendingSwapEvent swap) =
        .ok (profit, next)) :
    swap.Reaches engine.shadow next.shadow pool ↔
      pool.val = 0 ∧
        (swap.tokenIn.toList < swap.tokenOut.toList ↔
          tokenId swap.tokenIn = engine.shadow.tokenXId pool) ∧
        StateShadow.amountAfterFee target.profile swap.amountIn
          (engine.shadow.feeNum pool) (engine.shadow.feeDen pool) ≠
            .ok 0 := by
  have registered := Nat.zero_lt_of_lt names.registered
  obtain ⟨-, first, afterFee, newIn, k, isFirst, sums, -, rows⟩ :=
    ShadowOp.view_swap (event_swaps_first_pool registered processed)
  have reserveFits (xToY : Bool) :
      (engine.shadow.view first).specIn xToY < 2 ^ 128 := by
    cases xToY with
    | true => exact (fits first).1
    | false => exact (fits first).2
  have takesIn :=
    sums.takes_in_iff (parseSwapInstruction_amount_lt parsed) (reserveFits _)
  constructor
  · intro reaches
    have isZero := reaches_first_pool_only registered processed reaches
    obtain rfl : pool = first := Fin.ext (isZero.trans isFirst)
    have sameDirection :
        decide (swap.tokenIn.toList < swap.tokenOut.toList) =
          swap.bringsTokenX engine.shadow pool :=
      Option.some.inj reaches.direction
    have changed := reaches.takesIn
    rw [rows pool, if_pos rfl, ← sameDirection,
      StateShadow.PoolView.swapped_specIn] at changed
    exact ⟨isZero, decide_eq_decide.mp sameDirection, takesIn.mp changed⟩
  · rintro ⟨isZero, order, somethingLeft⟩
    obtain rfl : pool = first := Fin.ext (isZero.trans isFirst)
    have sameDirection :
        decide (swap.tokenIn.toList < swap.tokenOut.toList) =
          swap.bringsTokenX engine.shadow pool :=
      decide_eq_decide.mpr order
    refine ⟨?_, ?_, congrArg some sameDirection⟩
    · intro other different
      have sameRow := (rows other).trans (if_neg different)
      exact ⟨congrArg (·.specX) sameRow, congrArg (·.specY) sameRow⟩
    · rw [← sameDirection, rows pool, if_pos rfl,
        StateShadow.PoolView.swapped_specIn]
      exact takesIn.mpr somethingLeft

/-- Float rates of pools with equal reserves and no fee: all of them 1. -/
def parityFloats : FloatRates where
  Rate := Unit
  rate _ _ _ _ := ()
  isNotPositive _ := false
  weight _ := 0

/-- A debug build for pools at parity. -/
def parityTarget : Target :=
  ⟨.debug, parityFloats, stableSort⟩

/-- A pool of the tokens of threes and of fours. -/
def parityPool (byte : UInt8) : StateShadow.Registration where
  poolKey := Vector.replicate 32 byte
  tokenX := 0x0303030303030303
  tokenY := 0x0404040404040404
  reserveX := 1000
  reserveY := 1000
  feeNum := 0
  feeDen := 1
  slot := 100

/-- A new engine with two such pools registered. -/
def parityEngine : Aste :=
  let registered : Checked Aste := do
    let (_, one) ←
      (Aste.new .default).registerPool parityTarget (parityPool 1)
    let (_, two) ← one.registerPool parityTarget (parityPool 2)
    return two
  match registered with
  | .ok engine => engine
  | .error _ => Aste.new .default

/-- A Meteora swap of 500 threes through the given pool. -/
def paritySwapTx (pool : String) : MempoolTransaction where
  accounts :=
    [pool, "", "", "", "",
      "CktRuQ2mttgRGkXJtyksdKHjUdc2C4TgDzyB98oEzy8",
      "GgBaCs3NCBuZN12kCJgAW63ydqohFkHEdfdEXBPzLHq", "", "", ""]
  data :=
    [0xe4, 0x45, 0xa5, 0x2e, 0x51, 0xcb, 0x9a, 0x1d] ++
      leBytes 8 500 ++ leBytes 8 0

/-- What the parser makes of it, for a pool of one repeated byte. -/
def paritySwap (byte : UInt8) : SwapInstruction where
  poolId := Vector.replicate 32 byte
  tokenIn := Vector.replicate 32 3
  tokenOut := Vector.replicate 32 4
  amountIn := 500
  minAmountOut := 0
  user := Vector.replicate 32 0

/-- The engine gets through the event of either swap. -/
theorem parity_event_processed (byte : UInt8) :
    ∃ profit next,
      parityEngine.processEvent parityTarget 800
          (pendingSwapEvent (paritySwap byte)) = .ok (profit, next) := by
  have returns :
      (parityEngine.processEvent parityTarget 800
        (.pendingSwap 0 500 true)).isOk = true := by
    decide +kernel
  change ∃ profit next,
    parityEngine.processEvent parityTarget 800 (.pendingSwap 0 500 true) =
      .ok (profit, next)
  generalize parityEngine.processEvent parityTarget 800
    (.pendingSwap 0 500 true) = result at returns ⊢
  cases result with
  | ok pair => exact ⟨pair.1, pair.2, rfl⟩
  | error _ => exact absurd returns Bool.false_ne_true

theorem parityEngine_fits : parityEngine.shadow.FitsU128 := by
  intro pool
  have reserves :
      parityEngine.shadow.specReserveX =
          Function.update (Function.update (fun _ => 0) ⟨0, by decide⟩ 1000)
            ⟨1, by decide⟩ 1000 ∧
        parityEngine.shadow.specReserveY =
          parityEngine.shadow.specReserveX := ⟨rfl, rfl⟩
  have small : parityEngine.shadow.specReserveX pool < 2 ^ 128 := by
    rw [reserves.1, Function.update_apply, Function.update_apply]
    split
    · decide
    · split <;> decide
  exact ⟨small, reserves.2 ▸ small⟩

/-- A swap of threes through the first pool reaches it. -/
theorem first_parity_swap_reaches_its_pool :
    ∃ profit next,
      parityEngine.processEvent parityTarget 800
          (pendingSwapEvent (paritySwap 1)) = .ok (profit, next) ∧
        (paritySwap 1).Reaches parityEngine.shadow next.shadow
          ⟨0, by decide⟩ := by
  obtain ⟨profit, next, processed⟩ := parity_event_processed 1
  have parsed :
      parseSwapInstruction
          (paritySwapTx "4vJ9JU1bJJE96FWSJKvHsmmFADCg4gpZQff4P3bkLKi") =
        some (paritySwap 1) := rfl
  have names : (paritySwap 1).Names parityEngine.shadow ⟨0, by decide⟩ :=
    ⟨Nat.zero_lt_two, rfl, .inl ⟨rfl, rfl⟩⟩
  refine ⟨profit, next, processed, ?_⟩
  exact (event_reaches_pool_iff parityEngine_fits parsed names processed).mpr
    ⟨rfl, by decide, by decide⟩

/-- A swap through the second pool moves the first one instead. -/
theorem second_parity_swap_misses_its_pool :
    ∃ profit next,
      parseSwapInstruction
          (paritySwapTx "8qbHbw2BbbTHBW1sbeqakYXVKRQM8Ne7pLK7m6CVfeR") =
        some (paritySwap 2) ∧
      (paritySwap 2).Names parityEngine.shadow ⟨1, by decide⟩ ∧
      parityEngine.processEvent parityTarget 800
          (pendingSwapEvent (paritySwap 2)) = .ok (profit, next) ∧
      ¬ (paritySwap 2).Reaches parityEngine.shadow next.shadow
          ⟨1, by decide⟩ := by
  obtain ⟨profit, next, processed⟩ := parity_event_processed 2
  refine ⟨profit, next, rfl, ⟨Nat.one_lt_two, rfl, .inl ⟨rfl, rfl⟩⟩,
    processed, fun reaches => ?_⟩
  have isFirst := reaches_first_pool_only Nat.zero_lt_two processed reaches
  exact absurd isFirst Nat.one_ne_zero

end SwapInstruction

end YieldDaemon
