import YieldDaemon.ShadowProduct

namespace YieldDaemon

open CheckedArithmetic LabelledRun

/-!
# Runs of shadow operations

The public operations that change a shadow are the labels of a transition
system.  For each of them one lemma says everything that a successful call
does, in either build.
-/

namespace StateShadow

/-- The shadow with the prices of one pool replaced. -/
def withPrices
    (shadow : StateShadow)
    (pool : PoolIdx)
    (xPerY yPerX : Nat) : StateShadow :=
  { shadow with
    priceXPerY := Function.update shadow.priceXPerY pool xPerY
    priceYPerX := Function.update shadow.priceYPerX pool yPerX }

/-- The shadow with one more pool counted. -/
def countPool
    (shadow : StateShadow)
    (room : shadow.poolCount < maxPools) : StateShadow :=
  { shadow with
    poolCount := shadow.poolCount + 1
    poolCountInRange := room }

/-- The columns that a confirmed update of a pool writes. -/
def writeUpdate
    (shadow : StateShadow)
    (pool : PoolIdx)
    (reserveX reserveY slot : Nat) : StateShadow :=
  { shadow with
    reserveX := Function.update shadow.reserveX pool reserveX
    reserveY := Function.update shadow.reserveY pool reserveY
    specReserveX := Function.update shadow.specReserveX pool reserveX
    specReserveY := Function.update shadow.specReserveY pool reserveY
    lastUpdatedSlot := Function.update shadow.lastUpdatedSlot pool slot
    specDirty := Function.update shadow.specDirty pool 0 }

/-- The shadow with the speculative reserves of a swap written. -/
def writeSwap
    (shadow : StateShadow)
    (pool : PoolIdx)
    (xToY : Bool)
    (newIn newOut : Nat) : StateShadow :=
  { shadow with
    specReserveX :=
      Function.update shadow.specReserveX pool
        (if xToY then newIn else newOut)
    specReserveY :=
      Function.update shadow.specReserveY pool
        (if xToY then newOut else newIn) }

/-- The two prices of a pool, as its reserves give them. -/
def Prices
    (profile : Profile)
    (shadow : StateShadow)
    (pool : PoolIdx)
    (xPerY yPerX : Nat) : Prop :=
  fixedPointPrice profile (shadow.priceXPerY pool) (shadow.reserveX pool)
      (shadow.reserveY pool) = .ok xPerY ∧
    fixedPointPrice profile (shadow.priceYPerX pool) (shadow.reserveY pool)
      (shadow.reserveX pool) = .ok yPerX

/-- Deriving the prices of a pool writes those two prices only. -/
theorem recomputePrice_cases
    {profile : Profile}
    {before after : StateShadow}
    {pool : PoolIdx}
    (priced : before.recomputePrice profile pool = .ok after) :
    ∃ xPerY yPerX,
      Prices profile before pool xPerY yPerX ∧
        after = before.withPrices pool xPerY yPerX := by
  simp only [recomputePrice, Checked.bind_eq_ok, Checked.pure_eq_ok,
    Except.ok.injEq] at priced
  obtain ⟨xPerY, xReturned, yPerX, yReturned, rfl⟩ := priced
  exact ⟨xPerY, yPerX, ⟨xReturned, yReturned⟩, rfl⟩

/-- A registration fills the next pool, unless there is no room. -/
theorem registerPool_cases
    {profile : Profile}
    {before after : StateShadow}
    {entry : Registration}
    {idx : Option Nat}
    (returned : before.registerPool profile entry = .ok (idx, after)) :
    (maxPools ≤ before.poolCount ∧ after = before) ∨
      ∃ (room : before.poolCount < maxPools) (xPerY yPerX : Nat),
        Prices profile
            (before.writeRegistration ⟨before.poolCount, room⟩ entry)
            ⟨before.poolCount, room⟩ xPerY yPerX ∧
          after =
            countPool
              ((before.writeRegistration
                ⟨before.poolCount, room⟩ entry).withPrices
                  ⟨before.poolCount, room⟩ xPerY yPerX)
              room := by
  unfold registerPool at returned
  split at returned
  · rename_i full
    simp only [Except.ok.injEq, Prod.mk.injEq] at returned
    exact .inl ⟨full, returned.2.symm⟩
  · rename_i room
    simp only [Checked.bind_eq_ok, Checked.pure_eq_ok, Except.ok.injEq,
      Prod.mk.injEq] at returned
    obtain ⟨priced, pricing, -, rfl⟩ := returned
    obtain ⟨xPerY, yPerX, prices, rfl⟩ := recomputePrice_cases pricing
    exact .inr ⟨Nat.not_le.mp room, xPerY, yPerX, prices, rfl⟩

/-- A confirmed update writes the columns of its pool. -/
theorem updateReserves_cases
    {profile : Profile}
    {before after : StateShadow}
    {idx reserveX reserveY slot : Nat}
    (returned :
      before.updateReserves profile idx reserveX reserveY slot =
        .ok after) :
    ∃ (pool : PoolIdx) (xPerY yPerX : Nat),
      idx = pool.val ∧
        Prices profile (before.writeUpdate pool reserveX reserveY slot)
          pool xPerY yPerX ∧
        after =
          (before.writeUpdate pool reserveX reserveY slot).withPrices
            pool xPerY yPerX := by
  simp only [updateReserves, Checked.bind_eq_ok, poolIndex_eq_ok] at returned
  obtain ⟨-, -, pool, rfl, pricing⟩ := returned
  obtain ⟨xPerY, yPerX, prices, rfl⟩ := recomputePrice_cases pricing
  exact ⟨pool, xPerY, yPerX, rfl, prices, rfl⟩

/-- The entries of one pool in the columns that the operations write. -/
structure PoolView where
  reserveX : Nat
  reserveY : Nat
  slot : Nat
  feeNum : Nat
  feeDen : Nat
  specX : Nat
  specY : Nat
  dirty : Nat

/-- One row of the columns. -/
def view (shadow : StateShadow) (pool : PoolIdx) : PoolView where
  reserveX := shadow.reserveX pool
  reserveY := shadow.reserveY pool
  slot := shadow.lastUpdatedSlot pool
  feeNum := shadow.feeNum pool
  feeDen := shadow.feeDen pool
  specX := shadow.specReserveX pool
  specY := shadow.specReserveY pool
  dirty := shadow.specDirty pool

namespace PoolView

/-- The speculative reserve of the token a swap brings in. -/
def specIn (pool : PoolView) (xToY : Bool) : Nat :=
  if xToY then pool.specX else pool.specY

/-- The speculative reserve of the token a swap takes out. -/
def specOut (pool : PoolView) (xToY : Bool) : Nat :=
  if xToY then pool.specY else pool.specX

/-- The pool as a registration writes it. -/
def registered (pool : PoolView) (entry : Registration) : PoolView where
  reserveX := entry.reserveX
  reserveY := entry.reserveY
  slot := entry.slot
  feeNum := entry.feeNum
  feeDen := entry.feeDen
  specX := entry.reserveX
  specY := entry.reserveY
  dirty := pool.dirty

/-- The pool after a confirmed update. -/
def updated (pool : PoolView) (reserveX reserveY slot : Nat) : PoolView :=
  { pool with
    reserveX := reserveX
    reserveY := reserveY
    slot := slot
    specX := reserveX
    specY := reserveY
    dirty := 0 }

/-- The pool after a swap. -/
def swapped
    (pool : PoolView)
    (xToY : Bool)
    (newIn newOut : Nat) : PoolView :=
  { pool with
    specX := if xToY then newIn else newOut
    specY := if xToY then newOut else newIn
    dirty := if pool.dirty = 0 then 1 else pool.dirty }

/-- The reserve that a swap raises. -/
theorem swapped_specIn
    (pool : PoolView)
    (xToY : Bool)
    (newIn newOut : Nat) :
    (pool.swapped xToY newIn newOut).specIn xToY = newIn := by
  cases xToY <;> rfl

/-- The pool with its confirmed reserves as the speculative ones. -/
def reverted (pool : PoolView) : PoolView :=
  { pool with
    specX := pool.reserveX
    specY := pool.reserveY
    dirty := 0 }

/-- The sums and products that a swap of a pool computes. -/
structure SwapSums
    (pool : PoolView)
    (profile : Profile)
    (amountIn : Nat)
    (xToY : Bool)
    (afterFee newIn k : Nat) : Prop where
  fee :
    amountAfterFee profile amountIn pool.feeNum pool.feeDen = .ok afterFee
  incoming : add profile 128 (pool.specIn xToY) afterFee = .ok newIn
  product :
    mul profile 128 (pool.specIn xToY) (pool.specOut xToY) = .ok k

end PoolView

/-- A swap that returns has divided the product by the new reserve. -/
theorem applySpeculativeSwap_cases
    {profile : Profile}
    {before after : StateShadow}
    {idx amountIn amountOut : Nat}
    {xToY : Bool}
    (applied :
      before.applySpeculativeSwap profile idx amountIn xToY =
        .ok (amountOut, after)) :
    ∃ (pool : PoolIdx) (afterFee newIn k : Nat),
      idx = pool.val ∧
        (before.view pool).SwapSums profile amountIn xToY afterFee newIn k ∧
        newIn ≠ 0 ∧
        after =
          (before.writeSwap pool xToY newIn (k / newIn)).markDirty pool := by
  simp only [applySpeculativeSwap, Checked.bind_eq_ok, poolIndex_eq_ok,
    Checked.pure_eq_ok, Except.ok.injEq] at applied
  obtain ⟨-, -, pool, rfl, afterFee, fee, ⟨newRx, newRy, paid⟩, swapped,
    shape⟩ := applied
  obtain ⟨rfl, rfl⟩ := Prod.mk.inj shape
  cases xToY with
  | true =>
      simp only [swapReserves, constantProduct, Checked.bind_eq_ok,
        div_eq_ok, Checked.pure_eq_ok, Except.ok.injEq,
        Prod.mk.injEq] at swapped
      obtain ⟨newIn, incoming, k, product, newOut, ⟨nonzero, rfl⟩, out, -,
        rfl, rfl, -⟩ := swapped
      exact ⟨pool, afterFee, newIn, k, rfl, ⟨fee, incoming, product⟩,
        nonzero, rfl⟩
  | false =>
      simp only [swapReserves, constantProduct, Checked.bind_eq_ok,
        div_eq_ok, Checked.pure_eq_ok, Except.ok.injEq] at swapped
      obtain ⟨sides, ⟨newIn, incoming, k, product, newOut, ⟨nonzero, rfl⟩,
        out, -, rfl⟩, shape⟩ := swapped
      obtain ⟨rfl, rfl, -⟩ : k / newIn = newRx ∧ newIn = newRy ∧ out = paid := by
        simpa using shape
      exact ⟨pool, afterFee, newIn, k, rfl, ⟨fee, incoming, product⟩,
        nonzero, rfl⟩

end StateShadow

/-- An operation that changes a shadow. -/
inductive ShadowOp where
  | register (entry : StateShadow.Registration)
  | update (idx reserveX reserveY slot : Nat)
  | swap (idx amountIn : Nat) (xToY : Bool)
  | revert
  | newBlock (slot : Nat)

namespace ShadowOp

/-- Call the operation. -/
def apply (profile : Profile) (shadow : StateShadow) :
    ShadowOp → Checked StateShadow
  | register entry => do
    let (_, after) ← shadow.registerPool profile entry
    return after
  | update idx reserveX reserveY slot =>
    shadow.updateReserves profile idx reserveX reserveY slot
  | swap idx amountIn xToY => do
    let (_, after) ← shadow.applySpeculativeSwap profile idx amountIn xToY
    return after
  | revert => return shadow.revertSpeculative
  | newBlock slot => return shadow.onNewBlock slot

/-- The operations that write the speculative columns only. -/
def isSpeculative : ShadowOp → Bool
  | swap .. => true
  | revert => true
  | _ => false

/-- A swap names a registered pool. -/
def Addresses (shadow : StateShadow) : ShadowOp → Prop
  | swap idx _ _ => idx < shadow.poolCount
  | _ => True

/-- A call on a registered pool that returns. -/
def Performs
    (profile : Profile)
    (before : StateShadow)
    (op : ShadowOp)
    (after : StateShadow) : Prop :=
  op.Addresses before ∧ op.apply profile before = .ok after

theorem performs_deterministic (profile : Profile) :
    Deterministic (Performs profile) := by
  intro before op first second firstStep secondStep
  have same := firstStep.2.symm.trans secondStep.2
  exact Except.ok.inj same

section Cases

variable
  {profile : Profile}
  {before after : StateShadow}

theorem performs_register
    {entry : StateShadow.Registration}
    (performed : Performs profile before (.register entry) after) :
    ∃ idx, before.registerPool profile entry = .ok (idx, after) := by
  obtain ⟨-, applied⟩ := performed
  simp only [apply, Checked.bind_eq_ok, Checked.pure_eq_ok,
    Except.ok.injEq] at applied
  obtain ⟨⟨idx, reached⟩, returned, rfl⟩ := applied
  exact ⟨idx, returned⟩

theorem performs_update
    {idx reserveX reserveY slot : Nat}
    (performed :
      Performs profile before (.update idx reserveX reserveY slot) after) :
    before.updateReserves profile idx reserveX reserveY slot = .ok after :=
  performed.2

theorem performs_swap
    {idx amountIn : Nat}
    {xToY : Bool}
    (performed : Performs profile before (.swap idx amountIn xToY) after) :
    idx < before.poolCount ∧
      ∃ amountOut,
        before.applySpeculativeSwap profile idx amountIn xToY =
          .ok (amountOut, after) := by
  obtain ⟨addressed, applied⟩ := performed
  simp only [apply, Checked.bind_eq_ok, Checked.pure_eq_ok,
    Except.ok.injEq] at applied
  obtain ⟨⟨amountOut, reached⟩, returned, rfl⟩ := applied
  exact ⟨addressed, amountOut, returned⟩

theorem performs_revert
    (performed : Performs profile before .revert after) :
    after = before.revertSpeculative :=
  (Except.ok.inj performed.2).symm

theorem performs_newBlock
    {slot : Nat}
    (performed : Performs profile before (.newBlock slot) after) :
    after = before.onNewBlock slot :=
  (Except.ok.inj performed.2).symm

/-- What an operation can do to a pool that is registered already. -/
inductive ViewStep (profile : Profile) :
    ShadowOp → StateShadow.PoolView → StateShadow.PoolView → Prop where
  | unchanged (op : ShadowOp) (pool : StateShadow.PoolView) :
      ViewStep profile op pool pool
  | updated
      (idx reserveX reserveY slot : Nat)
      (pool : StateShadow.PoolView) :
      ViewStep profile (.update idx reserveX reserveY slot) pool
        (pool.updated reserveX reserveY slot)
  | swapped
      {idx amountIn : Nat}
      {xToY : Bool}
      {pool : StateShadow.PoolView}
      {afterFee newIn k : Nat}
      (sums : pool.SwapSums profile amountIn xToY afterFee newIn k)
      (divisor : newIn ≠ 0) :
      ViewStep profile (.swap idx amountIn xToY) pool
        (pool.swapped xToY newIn (k / newIn))
  | reverted (pool : StateShadow.PoolView) :
      ViewStep profile .revert pool pool.reverted
  | newBlock (slot : Nat) (pool : StateShadow.PoolView) :
      ViewStep profile (.newBlock slot) pool pool.reverted

/-- The columns of a registration, row by row. -/
theorem view_register
    {entry : StateShadow.Registration}
    (performed : Performs profile before (.register entry) after) :
    (after.poolCount = before.poolCount ∧
        ∀ pool, after.view pool = before.view pool) ∨
      (after.poolCount = before.poolCount + 1 ∧
        ∀ pool : PoolIdx,
          after.view pool =
            if pool.val = before.poolCount then
              (before.view pool).registered entry
            else
              before.view pool) := by
  obtain ⟨idx, returned⟩ := performs_register performed
  rcases StateShadow.registerPool_cases returned with
    ⟨-, rfl⟩ | ⟨room, xPerY, yPerX, -, rfl⟩
  · exact .inl ⟨rfl, fun _ => rfl⟩
  · refine .inr ⟨rfl, fun pool => ?_⟩
    by_cases same : pool.val = before.poolCount
    · obtain rfl : pool = ⟨before.poolCount, room⟩ := Fin.ext same
      simp [StateShadow.view, StateShadow.countPool, StateShadow.withPrices,
        StateShadow.writeRegistration, StateShadow.PoolView.registered]
    · have other : pool ≠ ⟨before.poolCount, room⟩ := fun equal =>
        same (congrArg Fin.val equal)
      simp [StateShadow.view, StateShadow.countPool, StateShadow.withPrices,
        StateShadow.writeRegistration, same, other]

/-- The columns of an update, row by row. -/
theorem view_update
    {idx reserveX reserveY slot : Nat}
    (performed :
      Performs profile before (.update idx reserveX reserveY slot) after) :
    after.poolCount = before.poolCount ∧
      ∀ pool : PoolIdx,
        after.view pool =
          if pool.val = idx then
            (before.view pool).updated reserveX reserveY slot
          else
            before.view pool := by
  obtain ⟨target, xPerY, yPerX, rfl, -, rfl⟩ :=
    StateShadow.updateReserves_cases (performs_update performed)
  refine ⟨rfl, fun pool => ?_⟩
  by_cases same : pool.val = target.val
  · obtain rfl : pool = target := Fin.ext same
    simp [StateShadow.view, StateShadow.withPrices, StateShadow.writeUpdate,
      StateShadow.PoolView.updated]
  · have other : pool ≠ target := fun equal => same (congrArg Fin.val equal)
    simp [StateShadow.view, StateShadow.withPrices, StateShadow.writeUpdate,
      same, other]

/-- Marking a pool as dirty writes its flag only. -/
theorem view_markDirty
    (shadow : StateShadow)
    (target pool : PoolIdx) :
    (shadow.markDirty target).view pool =
      if pool = target ∧ shadow.specDirty pool = 0 then
        { shadow.view pool with dirty := 1 }
      else
        shadow.view pool := by
  unfold StateShadow.markDirty
  by_cases clean : shadow.specDirty target = 0
  · by_cases same : pool = target
    · subst same
      simp [StateShadow.view, clean]
    · simp [StateShadow.view, clean, same]
  · by_cases same : pool = target
    · subst same
      simp [StateShadow.view, clean]
    · simp [StateShadow.view, clean, same]

/-- The columns of a swap, row by row. -/
theorem view_swap
    {idx amountIn : Nat}
    {xToY : Bool}
    (performed : Performs profile before (.swap idx amountIn xToY) after) :
    after.poolCount = before.poolCount ∧
      ∃ (target : PoolIdx) (afterFee newIn k : Nat),
        idx = target.val ∧
          (before.view target).SwapSums profile amountIn xToY
            afterFee newIn k ∧
          newIn ≠ 0 ∧
          ∀ pool,
            after.view pool =
              if pool = target then
                (before.view pool).swapped xToY newIn (k / newIn)
              else
                before.view pool := by
  obtain ⟨-, amountOut, applied⟩ := performs_swap performed
  obtain ⟨target, afterFee, newIn, k, rfl, sums, divisor, rfl⟩ :=
    StateShadow.applySpeculativeSwap_cases applied
  refine ⟨?_, target, afterFee, newIn, k, rfl, sums, divisor,
    fun pool => ?_⟩
  · unfold StateShadow.markDirty
    split <;> rfl
  · rw [view_markDirty]
    by_cases same : pool = target
    · subst same
      by_cases clean : before.specDirty pool = 0
      · simp [StateShadow.view, StateShadow.writeSwap,
          StateShadow.PoolView.swapped, clean]
      · simp [StateShadow.view, StateShadow.writeSwap,
          StateShadow.PoolView.swapped, clean]
    · simp [StateShadow.view, StateShadow.writeSwap, same]

/-- The columns of a reverted shadow, row by row. -/
theorem view_revertSpeculative
    (shadow : StateShadow)
    (pool : PoolIdx) :
    shadow.revertSpeculative.view pool =
      if pool.val < shadow.poolCount then
        (shadow.view pool).reverted
      else
        shadow.view pool := by
  by_cases registered : pool.val < shadow.poolCount <;>
    simp [StateShadow.view, StateShadow.revertSpeculative,
      StateShadow.PoolView.reverted, registered]

/-- A new block reverts the speculative columns and nothing else of a row. -/
theorem view_onNewBlock
    (shadow : StateShadow)
    (slot : Nat)
    (pool : PoolIdx) :
    (shadow.onNewBlock slot).view pool =
      if pool.val < shadow.poolCount then
        (shadow.view pool).reverted
      else
        shadow.view pool :=
  view_revertSpeculative { shadow with confirmedSlot := slot } pool

/--
After an operation a pool has just been registered by it, or it has taken one
of the steps of `ViewStep` and is not newly registered.
-/
theorem view_cases
    {op : ShadowOp}
    (performed : Performs profile before op after)
    (pool : PoolIdx) :
    (∃ entry,
      op = .register entry ∧
        after.view pool = (before.view pool).registered entry) ∨
      ((pool.val < after.poolCount → pool.val < before.poolCount) ∧
        ViewStep profile op (before.view pool) (after.view pool)) := by
  cases op with
  | register entry =>
      rcases view_register performed with
        ⟨sameCount, sameViews⟩ | ⟨nextCount, views⟩
      · rw [sameViews, sameCount]
        exact .inr ⟨id, .unchanged _ _⟩
      · rw [views]
        by_cases fresh : pool.val = before.poolCount
        · exact .inl ⟨entry, rfl, if_pos fresh⟩
        · rw [if_neg fresh, nextCount]
          refine .inr ⟨fun registered => ?_, .unchanged _ _⟩
          exact (Nat.lt_succ_iff_lt_or_eq.mp registered).resolve_right fresh
  | update idx reserveX reserveY slot =>
      obtain ⟨sameCount, views⟩ := view_update performed
      rw [views, sameCount]
      refine .inr ⟨id, ?_⟩
      split
      · exact .updated idx reserveX reserveY slot _
      · exact .unchanged _ _
  | swap idx amountIn xToY =>
      obtain ⟨sameCount, target, afterFee, newIn, k, -, sums, divisor,
        views⟩ := view_swap performed
      rw [views, sameCount]
      refine .inr ⟨id, ?_⟩
      by_cases same : pool = target
      · subst same
        rw [if_pos rfl]
        exact .swapped sums divisor
      · rw [if_neg same]
        exact .unchanged _ _
  | revert =>
      obtain rfl := performs_revert performed
      rw [view_revertSpeculative]
      refine .inr ⟨id, ?_⟩
      split
      · exact .reverted _
      · exact .unchanged _ _
  | newBlock slot =>
      obtain rfl := performs_newBlock performed
      rw [view_onNewBlock]
      refine .inr ⟨id, ?_⟩
      split
      · exact .newBlock slot _
      · exact .unchanged _ _

/--
What every registered pool keeps: a fresh registration has it, and a step leads
to it from what registered pools had before.
-/
theorem forall_registered_step
    (had has : StateShadow.PoolView → Prop)
    {op : ShadowOp}
    (fresh :
      ∀ entry (old : StateShadow.PoolView),
        op = .register entry → has (old.registered entry))
    (steps : ∀ {old new}, had old → ViewStep profile op old new → has new)
    (performed : Performs profile before op after)
    (always :
      ∀ pool : PoolIdx, pool.val < before.poolCount → had (before.view pool))
    (pool : PoolIdx)
    (registered : pool.val < after.poolCount) :
    has (after.view pool) := by
  rcases view_cases performed pool with
    ⟨entry, isRegister, view⟩ | ⟨wasRegistered, step⟩
  · rw [view]
    exact fresh entry _ isRegister
  · exact steps (always pool (wasRegistered registered)) step

end Cases

end ShadowOp

end YieldDaemon
