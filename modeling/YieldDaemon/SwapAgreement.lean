import YieldDaemon.AmmPool
import YieldDaemon.ShadowBounds

namespace YieldDaemon

open CheckedArithmetic FlooredSwaps LabelledRun

/-!
# Three copies of one swap

A shadow simulates swaps and applies them, and a pool record swaps on its own.
All three charge the fee and exchange the rest, but only the simulation looks
for an empty reserve first.  The copies drift apart on the pools that have lost
the incoming reserve and kept the outgoing one.
-/

namespace StateShadow

/-- Charge the fee of an amount and exchange the rest. -/
def exchange
    (profile : Profile)
    (reserveIn reserveOut feeNum feeDen amountIn : Nat) :
    Checked (Nat × Nat × Nat) := do
  let afterFee ← amountAfterFee profile amountIn feeNum feeDen
  constantProduct profile reserveIn reserveOut afterFee

variable {profile : Profile}

section Exchanges

variable {reserveIn reserveOut feeNum feeDen amountIn : Nat}

/-- The sums and products of an exchange fit u128. -/
structure ExchangeFits
    (reserveIn reserveOut feeNum feeDen amountIn : Nat) : Prop where
  fee : amountIn * feeNum < 2 ^ 128
  sum : reserveIn + netInput amountIn feeNum feeDen < 2 ^ 128
  product : reserveIn * reserveOut < 2 ^ 128

/-- An exchange whose sums fit is computed exactly. -/
theorem exchange_of_fits
    (fits : ExchangeFits reserveIn reserveOut feeNum feeDen amountIn)
    (positive : 0 < feeDen)
    (fraction : feeNum ≤ feeDen)
    (divisor : reserveIn + netInput amountIn feeNum feeDen ≠ 0) :
    exchange profile reserveIn reserveOut feeNum feeDen amountIn =
      .ok (reserveIn + netInput amountIn feeNum feeDen,
        newReserve reserveIn reserveOut (netInput amountIn feeNum feeDen),
        payment reserveIn reserveOut (netInput amountIn feeNum feeDen)) := by
  rw [exchange, amountAfterFee_of_fits fits.fee positive fraction,
    Checked.ok_bind, constantProduct_exact fits.sum fits.product,
    if_neg divisor]

/-- Without an overflow all sums fit. -/
theorem exchangeFits_of_noOverflow
    (free :
      exchange .debug reserveIn reserveOut feeNum feeDen amountIn ≠
        .error .arithmeticOverflow)
    (positive : 0 < feeDen)
    (fraction : feeNum ≤ feeDen) :
    ExchangeFits reserveIn reserveOut feeNum feeDen amountIn := by
  have fee : amountIn * feeNum < 2 ^ 128 := by
    by_contra overflows
    refine free ?_
    rw [exchange, amountAfterFee, mul, fit_debug_of_le (Nat.not_lt.mp overflows)]
    rfl
  rw [exchange, amountAfterFee_of_fits fee positive fraction,
    Checked.ok_bind] at free
  have sum : reserveIn + netInput amountIn feeNum feeDen < 2 ^ 128 := by
    by_contra overflows
    refine free ?_
    rw [constantProduct, add, fit_debug_of_le (Nat.not_lt.mp overflows)]
    rfl
  have product : reserveIn * reserveOut < 2 ^ 128 := by
    by_contra overflows
    refine free ?_
    rw [constantProduct, add_of_lt sum, Checked.ok_bind, mul,
      fit_debug_of_le (Nat.not_lt.mp overflows)]
    rfl
  exact ⟨fee, sum, product⟩

end Exchanges

section Copies

variable
  {shadow : StateShadow}
  {pool : PoolIdx}
  {amountIn : Nat}
  {xToY : Bool}

/-- The exchange of a swap on the speculative reserves of a pool. -/
def specExchange
    (profile : Profile)
    (shadow : StateShadow)
    (pool : PoolIdx)
    (amountIn : Nat)
    (xToY : Bool) : Checked (Nat × Nat × Nat) :=
  exchange profile (shadow.specIn pool xToY) (shadow.specOut pool xToY)
    (shadow.feeNum pool) (shadow.feeDen pool) amountIn

theorem applySpeculativeSwap_eq
    (profile : Profile)
    (registered : pool.val < shadow.poolCount)
    (amountIn : Nat)
    (xToY : Bool) :
    shadow.applySpeculativeSwap profile pool.val amountIn xToY =
      (do
        let sides ← shadow.specExchange profile pool amountIn xToY
        return (sides.2.2,
          (shadow.writeSwap pool xToY sides.1 sides.2.1).markDirty pool)) := by
  rw [applySpeculativeSwap, decide_eq_true registered, debugAssert_true,
    Checked.ok_bind, poolIndex_val, Checked.ok_bind]
  cases xToY with
  | true =>
      rw [specExchange, exchange, bind_assoc]
      rfl
  | false =>
      simp only [specExchange, exchange, swapReserves, bind_assoc]
      rfl

theorem simSwap_eq
    (profile : Profile)
    (shadow : StateShadow)
    (pool : PoolIdx)
    (amountIn : Nat)
    (xToY : Bool) :
    shadow.simSwap profile pool.val amountIn xToY =
      if shadow.specIn pool xToY = 0 ∨ shadow.specOut pool xToY = 0 then
        .ok 0
      else do
        let sides ← shadow.specExchange profile pool amountIn xToY
        return sides.2.2 := by
  rw [simSwap, poolIndex_val, Checked.ok_bind]
  dsimp only
  cases xToY with
  | true =>
      rw [specExchange, exchange, bind_assoc]
      rfl
  | false =>
      have sides :
          shadow.specIn pool false = 0 ∨ shadow.specOut pool false = 0 ↔
            shadow.specReserveX pool = 0 ∨ shadow.specReserveY pool = 0 :=
        or_comm
      by_cases empty :
        shadow.specReserveX pool = 0 ∨ shadow.specReserveY pool = 0
      · rw [if_pos empty, if_pos (sides.mpr empty)]
        rfl
      · rw [if_neg empty, if_neg (mt sides.mp empty)]
        simp only [specExchange, exchange, swapReserves, bind_assoc]
        rfl

/--
A swap of a registered pool with a real fee and a real amount, small enough for
the checked arithmetic.
-/
structure Admits
    (shadow : StateShadow)
    (pool : PoolIdx)
    (amountIn : Nat)
    (xToY : Bool) : Prop where
  registered : pool.val < shadow.poolCount
  fee : shadow.feeNum pool < shadow.feeDen pool
  positive : 0 < amountIn
  noOverflow :
    shadow.applySpeculativeSwap .debug pool.val amountIn xToY ≠
      .error .arithmeticOverflow

/-- The swap of a pool record in a direction. -/
def recordSwap (profile : Profile) (record : AmmPool) (amountIn : Nat) :
    Bool → Checked Nat
  | true => record.swapXToY profile amountIn
  | false => record.swapYToX profile amountIn

/-- A pool record with the speculative reserves and the fee of a pool. -/
structure Mirrors (record : AmmPool) (shadow : StateShadow) (pool : PoolIdx) :
    Prop where
  reserveX : record.reserveX = shadow.specReserveX pool
  reserveY : record.reserveY = shadow.specReserveY pool
  feeNumerator : record.feeNumerator = shadow.feeNum pool
  feeDenominator : record.feeDenominator = shadow.feeDen pool

/-- All three copies pay the same amount. -/
def CopiesAgree
    (profile : Profile)
    (shadow : StateShadow)
    (pool : PoolIdx)
    (amountIn : Nat)
    (xToY : Bool) : Prop :=
  ∃ amountOut after,
    shadow.applySpeculativeSwap profile pool.val amountIn xToY =
        .ok (amountOut, after) ∧
      shadow.simSwap profile pool.val amountIn xToY = .ok amountOut ∧
      ∀ record, Mirrors record shadow pool →
        recordSwap profile record amountIn xToY = .ok amountOut

/-- What the exchange of an admitted swap pays. -/
def specPayment
    (shadow : StateShadow)
    (pool : PoolIdx)
    (amountIn : Nat)
    (xToY : Bool) : Nat :=
  payment (shadow.specIn pool xToY) (shadow.specOut pool xToY)
    (netInput amountIn (shadow.feeNum pool) (shadow.feeDen pool))

/-- The exchange of an admitted swap is computed exactly. -/
theorem Admits.specExchange_eq
    (profile : Profile)
    (admits : shadow.Admits pool amountIn xToY) :
    ∃ newIn newOut,
      shadow.specExchange profile pool amountIn xToY =
        .ok (newIn, newOut, shadow.specPayment pool amountIn xToY) := by
  have free := admits.noOverflow
  rw [applySpeculativeSwap_eq .debug admits.registered] at free
  have positive : 0 < shadow.feeDen pool := Nat.zero_lt_of_lt admits.fee
  have left := netInput_pos admits.fee admits.positive
  exact ⟨_, _, exchange_of_fits
    (exchangeFits_of_noOverflow (Checked.ne_error_of_bind free) positive
      admits.fee.le)
    positive admits.fee.le (by omega)⟩

theorem swapXToY_eq_exchange
    (profile : Profile)
    (record : AmmPool)
    (amountIn : Nat) :
    record.swapXToY profile amountIn = (do
      let sides ←
        exchange profile record.reserveX record.reserveY record.feeNumerator
          record.feeDenominator amountIn
      return sides.2.2) := by
  simp only [AmmPool.swapXToY, exchange, bind_assoc]

theorem swapYToX_eq_exchange
    (profile : Profile)
    (record : AmmPool)
    (amountIn : Nat) :
    record.swapYToX profile amountIn = (do
      let sides ←
        exchange profile record.reserveY record.reserveX record.feeNumerator
          record.feeDenominator amountIn
      return sides.2.2) := by
  simp only [AmmPool.swapYToX, exchange, bind_assoc]

/-- A record with the same reserves and fee pays what the exchange does. -/
theorem recordSwap_eq
    {record : AmmPool}
    (mirrors : Mirrors record shadow pool) :
    recordSwap profile record amountIn xToY =
      (do
        let sides ← shadow.specExchange profile pool amountIn xToY
        return sides.2.2) := by
  cases xToY with
  | true =>
      rw [recordSwap, swapXToY_eq_exchange, mirrors.reserveX,
        mirrors.reserveY, mirrors.feeNumerator, mirrors.feeDenominator]
      rfl
  | false =>
      rw [recordSwap, swapYToX_eq_exchange, mirrors.reserveX,
        mirrors.reserveY, mirrors.feeNumerator, mirrors.feeDenominator]
      rfl

/-- A swap of a pool that is empty on one side takes all of the other one. -/
theorem specPayment_of_empty
    (empty : shadow.specIn pool xToY = 0 ∨ shadow.specOut pool xToY = 0) :
    shadow.specPayment pool amountIn xToY = shadow.specOut pool xToY := by
  rcases empty with noIncoming | noOutgoing
  · rw [specPayment, noIncoming, payment_of_empty]
  · rw [specPayment, noOutgoing, payment_from_empty]

/-- The copies agree unless only the incoming reserve is gone. -/
theorem Admits.copiesAgree_iff
    (admits : shadow.Admits pool amountIn xToY) :
    shadow.CopiesAgree profile pool amountIn xToY ↔
      shadow.specIn pool xToY ≠ 0 ∨ shadow.specOut pool xToY = 0 := by
  obtain ⟨newIn, newOut, exchanged⟩ := admits.specExchange_eq profile
  have applied :=
    applySpeculativeSwap_eq profile admits.registered amountIn xToY
  have simulated := simSwap_eq profile shadow pool amountIn xToY
  rw [exchanged, Checked.ok_bind] at applied simulated
  constructor
  · rintro ⟨amountOut, after, returned, predicted, -⟩
    by_contra drained
    push Not at drained
    obtain ⟨noIncoming, outgoing⟩ := drained
    rw [if_pos (.inl noIncoming), predicted] at simulated
    rw [returned] at applied
    have paid := congrArg Prod.fst (Except.ok.inj applied)
    dsimp only at paid
    rw [specPayment_of_empty (.inl noIncoming),
      Except.ok.inj simulated] at paid
    exact outgoing paid.symm
  · intro funded
    refine ⟨shadow.specPayment pool amountIn xToY, _, applied, ?_,
      fun record mirrors => ?_⟩
    · rw [simulated]
      split
      · next empty =>
          have noOutgoing : shadow.specOut pool xToY = 0 :=
            funded.elim (fun incoming => empty.resolve_left incoming) id
          rw [specPayment_of_empty empty, noOutgoing]
      · rfl
    · rw [recordSwap_eq mirrors, exchanged]
      rfl

end Copies

end StateShadow

namespace ShadowOp

/--
In every state of a run the copies agree on a swap exactly if the pool has some
of the incoming token or nothing of the outgoing one.
-/
theorem copies_agree_iff
    (profile : Profile)
    (ops : List ShadowOp) :
    EveryState (Performs profile)
      (fun shadow =>
        ∀ pool amountIn xToY,
          shadow.Admits pool amountIn xToY →
            (shadow.CopiesAgree profile pool amountIn xToY ↔
              shadow.specIn pool xToY ≠ 0 ∨ shadow.specOut pool xToY = 0))
      StateShadow.new ops :=
  fun _ _ _ _ _ _ _ _ admits => admits.copiesAgree_iff

/-- The copies agree on a 6 by 6 pool after a swap, for instance. -/
theorem six_by_six_is_priced :
    ∃ shadow,
      Run (Performs .debug) StateShadow.new
          [levelPool 6, .swap 0 3 true] shadow ∧
        shadow.CopiesAgree .debug Trade.levelPool 2 false := by
  obtain ⟨shadow, run, admits, funded⟩ :
      ∃ shadow,
        Run (Performs .debug) StateShadow.new
            [levelPool 6, .swap 0 3 true] shadow ∧
          shadow.Admits Trade.levelPool 2 false ∧
          shadow.specIn Trade.levelPool false ≠ 0 :=
    ⟨_, .cons (show Performs .debug StateShadow.new (levelPool 6)
        (Trade.levelShadow 6) from ⟨trivial, rfl⟩)
      (.cons ⟨Nat.zero_lt_one, rfl⟩ (.nil _)),
      ⟨Nat.zero_lt_one, by decide, by decide, nofun⟩, by decide⟩
  exact ⟨shadow, run,
    (copies_agree_iff .debug _ _ [] shadow (List.append_nil _).symm run
      _ _ _ admits).mpr (.inl funded)⟩

/--
A swap of 1 empties one side of a 1 by 1 pool.  The next swap of 1 is predicted
to pay nothing and pays all that is left.
-/
theorem drained_pool_is_mispriced :
    ∃ drained,
      Run (Performs .debug) StateShadow.new
          [levelPool 1, .swap 0 1 true] drained ∧
        drained.Admits Trade.levelPool 1 false ∧
        drained.simSwap .debug 0 1 false = .ok 0 ∧
        (∃ after,
          drained.applySpeculativeSwap .debug 0 1 false = .ok (2, after)) ∧
        ¬ drained.CopiesAgree .debug Trade.levelPool 1 false := by
  refine ⟨_, .cons (show Performs .debug StateShadow.new (levelPool 1)
      (Trade.levelShadow 1) from ⟨trivial, rfl⟩)
    (.cons ⟨Nat.zero_lt_one, rfl⟩ (.nil _)),
    ⟨Nat.zero_lt_one, by decide, Nat.zero_lt_one, nofun⟩, rfl, ⟨_, rfl⟩, ?_⟩
  rintro ⟨amountOut, after, returned, predicted, -⟩
  obtain rfl : 0 = amountOut := Except.ok.inj predicted
  have paid := congrArg Prod.fst (Except.ok.inj returned)
  exact absurd (show 2 = 0 from paid) (by decide)

end ShadowOp

end YieldDaemon
