import YieldDaemon.ShadowOperations

namespace YieldDaemon

open CheckedArithmetic LabelledRun

/-!
# Speculation stays in the overlay

Swaps and reverts write the speculative columns of registered pools, and a new
block overwrites all of those.  Two runs with the same confirmed operations
therefore agree in everything else, and in every column after a new block.
-/

namespace StateShadow

/--
Two shadows that differ at most in the speculative entries of registered
pools.
-/
structure SameOutsideOverlay (first second : StateShadow) : Prop where
  reserveX : first.reserveX = second.reserveX
  reserveY : first.reserveY = second.reserveY
  feeNum : first.feeNum = second.feeNum
  feeDen : first.feeDen = second.feeDen
  tokenXId : first.tokenXId = second.tokenXId
  tokenYId : first.tokenYId = second.tokenYId
  poolKeys : first.poolKeys = second.poolKeys
  priceXPerY : first.priceXPerY = second.priceXPerY
  priceYPerX : first.priceYPerX = second.priceYPerX
  lastUpdatedSlot : first.lastUpdatedSlot = second.lastUpdatedSlot
  active : first.active = second.active
  poolCount : first.poolCount = second.poolCount
  confirmedSlot : first.confirmedSlot = second.confirmedSlot
  unregistered :
    ∀ pool : PoolIdx, first.poolCount ≤ pool.val →
      first.specReserveX pool = second.specReserveX pool ∧
        first.specReserveY pool = second.specReserveY pool ∧
        first.specDirty pool = second.specDirty pool

namespace SameOutsideOverlay

variable {first second : StateShadow}

theorem refl (shadow : StateShadow) : SameOutsideOverlay shadow shadow :=
  ⟨rfl, rfl, rfl, rfl, rfl, rfl, rfl, rfl, rfl, rfl, rfl, rfl, rfl,
    fun _ _ => ⟨rfl, rfl, rfl⟩⟩

theorem symm (same : SameOutsideOverlay first second) :
    SameOutsideOverlay second first where
  reserveX := same.reserveX.symm
  reserveY := same.reserveY.symm
  feeNum := same.feeNum.symm
  feeDen := same.feeDen.symm
  tokenXId := same.tokenXId.symm
  tokenYId := same.tokenYId.symm
  poolKeys := same.poolKeys.symm
  priceXPerY := same.priceXPerY.symm
  priceYPerX := same.priceYPerX.symm
  lastUpdatedSlot := same.lastUpdatedSlot.symm
  active := same.active.symm
  poolCount := same.poolCount.symm
  confirmedSlot := same.confirmedSlot.symm
  unregistered pool beyond := by
    obtain ⟨specX, specY, dirty⟩ :=
      same.unregistered pool (same.poolCount ▸ beyond)
    exact ⟨specX.symm, specY.symm, dirty.symm⟩

/-- A registration writes the same entries into both shadows. -/
theorem writeRegistration
    (same : SameOutsideOverlay first second)
    (pool : PoolIdx)
    (entry : Registration) :
    SameOutsideOverlay (first.writeRegistration pool entry)
      (second.writeRegistration pool entry) where
  reserveX := congrArg (Function.update · pool _) same.reserveX
  reserveY := congrArg (Function.update · pool _) same.reserveY
  feeNum := congrArg (Function.update · pool _) same.feeNum
  feeDen := congrArg (Function.update · pool _) same.feeDen
  tokenXId := congrArg (Function.update · pool _) same.tokenXId
  tokenYId := congrArg (Function.update · pool _) same.tokenYId
  poolKeys := congrArg (Function.update · pool _) same.poolKeys
  priceXPerY := same.priceXPerY
  priceYPerX := same.priceYPerX
  lastUpdatedSlot := congrArg (Function.update · pool _) same.lastUpdatedSlot
  active := congrArg (Function.update · pool _) same.active
  poolCount := same.poolCount
  confirmedSlot := same.confirmedSlot
  unregistered other beyond := by
    obtain ⟨specX, specY, dirty⟩ := same.unregistered other beyond
    refine ⟨?_, ?_, dirty⟩
    · simp only [StateShadow.writeRegistration, Function.update_apply, specX]
    · simp only [StateShadow.writeRegistration, Function.update_apply, specY]

/-- So does a confirmed update. -/
theorem writeUpdate
    (same : SameOutsideOverlay first second)
    (pool : PoolIdx)
    (reserveX reserveY slot : Nat) :
    SameOutsideOverlay (first.writeUpdate pool reserveX reserveY slot)
      (second.writeUpdate pool reserveX reserveY slot) :=
  { same with
    reserveX := congrArg (Function.update · pool _) same.reserveX
    reserveY := congrArg (Function.update · pool _) same.reserveY
    lastUpdatedSlot :=
      congrArg (Function.update · pool _) same.lastUpdatedSlot
    unregistered := by
      intro other beyond
      obtain ⟨specX, specY, dirty⟩ := same.unregistered other beyond
      refine ⟨?_, ?_, ?_⟩
      · simp only [StateShadow.writeUpdate, Function.update_apply, specX]
      · simp only [StateShadow.writeUpdate, Function.update_apply, specY]
      · simp only [StateShadow.writeUpdate, Function.update_apply, dirty] }

theorem withPrices
    (same : SameOutsideOverlay first second)
    (pool : PoolIdx)
    (xPerY yPerX : Nat) :
    SameOutsideOverlay (first.withPrices pool xPerY yPerX)
      (second.withPrices pool xPerY yPerX) :=
  { same with
    priceXPerY := congrArg (Function.update · pool _) same.priceXPerY
    priceYPerX := congrArg (Function.update · pool _) same.priceYPerX }

theorem countPool
    (same : SameOutsideOverlay first second)
    (firstRoom : first.poolCount < maxPools)
    (secondRoom : second.poolCount < maxPools) :
    SameOutsideOverlay (first.countPool firstRoom)
      (second.countPool secondRoom) :=
  { same with
    poolCount := congrArg Nat.succ same.poolCount
    unregistered := fun pool beyond =>
      same.unregistered pool ((Nat.le_succ _).trans beyond) }

/-- The prices of a pool do not depend on the overlay. -/
theorem prices_unique
    {profile : Profile}
    {pool : PoolIdx}
    {xPerY yPerX xPerY' yPerX' : Nat}
    (same : SameOutsideOverlay first second)
    (firstPrices : Prices profile first pool xPerY yPerX)
    (secondPrices : Prices profile second pool xPerY' yPerX') :
    xPerY = xPerY' ∧ yPerX = yPerX' := by
  unfold Prices at firstPrices
  rw [same.priceXPerY, same.priceYPerX, same.reserveX, same.reserveY]
    at firstPrices
  exact ⟨Except.ok.inj (firstPrices.1.symm.trans secondPrices.1),
    Except.ok.inj (firstPrices.2.symm.trans secondPrices.2)⟩

/-- A swap of a registered pool stays in the overlay. -/
theorem swap
    (same : SameOutsideOverlay first second)
    {pool : PoolIdx}
    (registered : pool.val < first.poolCount)
    (xToY : Bool)
    (newIn newOut : Nat) :
    SameOutsideOverlay ((first.writeSwap pool xToY newIn newOut).markDirty pool)
      second := by
  have outside :
      ∀ other : PoolIdx, first.poolCount ≤ other.val → other ≠ pool := by
    rintro other beyond rfl
    exact absurd registered (Nat.not_lt.mpr beyond)
  have written :
      SameOutsideOverlay (first.writeSwap pool xToY newIn newOut) second :=
    { same with
      unregistered := by
        intro other beyond
        obtain ⟨specX, specY, dirty⟩ := same.unregistered other beyond
        refine ⟨?_, ?_, dirty⟩
        · exact (Function.update_of_ne (outside other beyond) _ _).trans specX
        · exact (Function.update_of_ne (outside other beyond) _ _).trans
            specY }
  unfold markDirty
  split
  · exact { written with
      unregistered := by
        intro other beyond
        obtain ⟨specX, specY, dirty⟩ := written.unregistered other beyond
        refine ⟨specX, specY, ?_⟩
        exact (Function.update_of_ne (outside other beyond) _ _).trans dirty }
  · exact written

/-- So does a revert. -/
theorem revert (same : SameOutsideOverlay first second) :
    SameOutsideOverlay first.revertSpeculative second :=
  { same with
    unregistered := by
      intro pool beyond
      have notRegistered : ¬ pool.val < first.poolCount :=
        Nat.not_lt.mpr beyond
      obtain ⟨specX, specY, dirty⟩ := same.unregistered pool beyond
      exact ⟨(if_neg notRegistered).trans specX,
        (if_neg notRegistered).trans specY,
        (if_neg notRegistered).trans dirty⟩ }

/-- After a new block nothing of the overlay is left. -/
theorem onNewBlock_eq
    (same : SameOutsideOverlay first second)
    (slot : Nat) :
    first.onNewBlock slot = second.onNewBlock slot := by
  simp only [onNewBlock, revertSpeculative, StateShadow.mk.injEq]
  refine ⟨same.reserveX, same.reserveY, same.feeNum, same.feeDen,
    same.tokenXId, same.tokenYId, same.poolKeys, same.priceXPerY,
    same.priceYPerX, same.lastUpdatedSlot, same.active, same.poolCount,
    trivial, ?_, ?_, trivial, ?_⟩
  · funext pool
    by_cases registered : pool.val < first.poolCount
    · rw [if_pos registered, if_pos (same.poolCount ▸ registered),
        same.reserveX]
    · rw [if_neg registered, if_neg (same.poolCount ▸ registered)]
      exact (same.unregistered pool (Nat.not_lt.mp registered)).1
  · funext pool
    by_cases registered : pool.val < first.poolCount
    · rw [if_pos registered, if_pos (same.poolCount ▸ registered),
        same.reserveY]
    · rw [if_neg registered, if_neg (same.poolCount ▸ registered)]
      exact (same.unregistered pool (Nat.not_lt.mp registered)).2.1
  · funext pool
    by_cases registered : pool.val < first.poolCount
    · rw [if_pos registered, if_pos (same.poolCount ▸ registered)]
    · rw [if_neg registered, if_neg (same.poolCount ▸ registered)]
      exact (same.unregistered pool (Nat.not_lt.mp registered)).2.2

end SameOutsideOverlay

end StateShadow

namespace ShadowOp

open StateShadow

/-- The operation reports confirmed state. -/
def isConfirmed (op : ShadowOp) : Bool :=
  !op.isSpeculative

variable
  {profile : Profile}
  {first firstAfter second secondAfter : StateShadow}
  {op : ShadowOp}

/-- A speculative operation of one run is invisible outside of the overlay. -/
theorem same_of_speculative
    (speculative : op.isConfirmed = false)
    (same : SameOutsideOverlay first second)
    (performed : Performs profile first op firstAfter) :
    SameOutsideOverlay firstAfter second := by
  cases op with
  | swap idx amountIn xToY =>
      obtain ⟨registered, amountOut, applied⟩ := performs_swap performed
      obtain ⟨pool, afterFee, newIn, k, rfl, -, -, rfl⟩ :=
        applySpeculativeSwap_cases applied
      exact same.swap registered xToY newIn (k / newIn)
  | revert =>
      obtain rfl := performs_revert performed
      exact same.revert
  | register entry =>
      exact absurd speculative (by simp [isConfirmed, isSpeculative])
  | update idx reserveX reserveY slot =>
      exact absurd speculative (by simp [isConfirmed, isSpeculative])
  | newBlock slot =>
      exact absurd speculative (by simp [isConfirmed, isSpeculative])

/-- A registration in both runs. -/
theorem same_of_register
    {entry : Registration}
    (same : SameOutsideOverlay first second)
    (firstPerformed : Performs profile first (.register entry) firstAfter)
    (secondPerformed :
      Performs profile second (.register entry) secondAfter) :
    SameOutsideOverlay firstAfter secondAfter := by
  obtain ⟨firstIdx, firstReturned⟩ := performs_register firstPerformed
  obtain ⟨secondIdx, secondReturned⟩ := performs_register secondPerformed
  have sameCount := same.poolCount
  rcases registerPool_cases firstReturned with
    ⟨firstFull, rfl⟩ | ⟨firstRoom, xPerY, yPerX, firstPrices, rfl⟩
  · rcases registerPool_cases secondReturned with
      ⟨-, rfl⟩ | ⟨secondRoom, -⟩
    · exact same
    · omega
  · rcases registerPool_cases secondReturned with
      ⟨secondFull, -⟩ | ⟨secondRoom, xPerY', yPerX', secondPrices, rfl⟩
    · omega
    · have sameIdx :
          (⟨second.poolCount, secondRoom⟩ : PoolIdx) =
            ⟨first.poolCount, firstRoom⟩ := Fin.ext sameCount.symm
      rw [sameIdx] at secondPrices ⊢
      have written :=
        same.writeRegistration ⟨first.poolCount, firstRoom⟩ entry
      obtain ⟨rfl, rfl⟩ := written.prices_unique firstPrices secondPrices
      exact (written.withPrices _ xPerY yPerX).countPool firstRoom secondRoom

/-- A confirmed operation in both runs keeps them equal outside the overlay. -/
theorem same_of_confirmed
    (confirmed : op.isConfirmed = true)
    (same : SameOutsideOverlay first second)
    (firstPerformed : Performs profile first op firstAfter)
    (secondPerformed : Performs profile second op secondAfter) :
    SameOutsideOverlay firstAfter secondAfter := by
  cases op with
  | register entry =>
      exact same_of_register same firstPerformed secondPerformed
  | update idx reserveX reserveY slot =>
      obtain ⟨pool, xPerY, yPerX, rfl, firstPrices, rfl⟩ :=
        updateReserves_cases (performs_update firstPerformed)
      obtain ⟨secondPool, xPerY', yPerX', sameIdx, secondPrices, rfl⟩ :=
        updateReserves_cases (performs_update secondPerformed)
      obtain rfl : pool = secondPool := Fin.ext sameIdx
      have written := same.writeUpdate pool reserveX reserveY slot
      obtain ⟨rfl, rfl⟩ := written.prices_unique firstPrices secondPrices
      exact written.withPrices pool xPerY yPerX
  | newBlock slot =>
      obtain rfl := performs_newBlock firstPerformed
      obtain rfl := performs_newBlock secondPerformed
      rw [same.onNewBlock_eq slot]
      exact .refl _
  | swap idx amountIn xToY =>
      exact absurd confirmed (by simp [isConfirmed, isSpeculative])
  | revert =>
      exact absurd confirmed (by simp [isConfirmed, isSpeculative])

/--
Two runs that end with a new block and have the same confirmed operations, with
any speculative ones between them, end in the same state.
-/
theorem speculation_never_leaks
    {profile : Profile}
    {initial first second : StateShadow}
    {firstOps secondOps : List ShadowOp}
    {firstSlot secondSlot : Nat}
    (firstRun :
      Run (Performs profile) initial (firstOps ++ [.newBlock firstSlot]) first)
    (secondRun :
      Run (Performs profile) initial (secondOps ++ [.newBlock secondSlot])
        second)
    (sameConfirmed :
      (firstOps ++ [newBlock firstSlot]).filter isConfirmed =
        (secondOps ++ [newBlock secondSlot]).filter isConfirmed) :
    first = second := by
  rw [List.filter_append, List.filter_append] at sameConfirmed
  obtain ⟨sameOps, sameBlock⟩ := List.append_inj' sameConfirmed rfl
  obtain ⟨⟨⟩, -⟩ := List.cons.inj sameBlock
  obtain ⟨firstMiddle, firstOpsRun, firstBlock⟩ := firstRun.split
  obtain ⟨secondMiddle, secondOpsRun, secondBlock⟩ := secondRun.split
  have same : SameOutsideOverlay firstMiddle secondMiddle := by
    apply Run.related_of_same_visible @SameOutsideOverlay.symm ?_ ?_
      firstOpsRun secondOpsRun sameOps (SameOutsideOverlay.refl initial)
    · exact same_of_speculative
    · exact same_of_confirmed
  cases firstBlock with
  | cons firstStep firstRest =>
      cases secondBlock with
      | cons secondStep secondRest =>
          cases firstRest
          cases secondRest
          obtain rfl := performs_newBlock firstStep
          obtain rfl := performs_newBlock secondStep
          exact same.onNewBlock_eq firstSlot

/-- A swap before a block leaves no trace after it. -/
theorem swap_leaves_no_trace :
    ∃ swapped,
      Run (Performs .debug) StateShadow.new
          [ShadowOp.register (Trade.levelEntry 6), ShadowOp.swap 0 3 true,
            ShadowOp.newBlock 7]
          swapped ∧
        swapped = (Trade.levelShadow 6).onNewBlock 7 := by
  have registered :
      Performs .debug StateShadow.new (.register (Trade.levelEntry 6))
        (Trade.levelShadow 6) := ⟨trivial, rfl⟩
  have swapped :
      Performs .debug (Trade.levelShadow 6) (.swap 0 3 true) _ :=
    ⟨Nat.zero_lt_one, rfl⟩
  have block (shadow : StateShadow) :
      Performs .debug shadow (.newBlock 7) (shadow.onNewBlock 7) :=
    ⟨trivial, rfl⟩
  have withSwap :
      Run (Performs .debug) StateShadow.new
        ([.register (Trade.levelEntry 6), .swap 0 3 true] ++ [.newBlock 7])
        _ :=
    .cons registered (.cons swapped (.cons (block _) (.nil _)))
  have withoutSwap :
      Run (Performs .debug) StateShadow.new
        ([.register (Trade.levelEntry 6)] ++ [.newBlock 7])
        ((Trade.levelShadow 6).onNewBlock 7) :=
    .cons registered (.cons (block _) (.nil _))
  exact ⟨_, withSwap, speculation_never_leaks withSwap withoutSwap rfl⟩

end ShadowOp

end YieldDaemon
