import YieldDaemon.CheckedArithmetic

namespace YieldDaemon

open CheckedArithmetic

/-!
# State shadow

The local replica of on-chain pool state.  Every array of the source has
`MAX_POOLS` entries; a column indexed by `Fin maxPools` is such an array, and
`poolIndex` is the range check of an array access.  Reserves and amounts are
u128, fees u32, identifiers, prices and slots u64; the profile decides what an
overflow does.  The dirty counter is a usize, which no run of fewer than
`2 ^ 64` swaps fills, and stands as a natural number.
-/

/-- Maximum number of pools tracked in the shadow state. -/
def maxPools : Nat := 4096

/-- Q32.32 fixed-point scale factor for price representation. -/
def priceScale : Nat := 2 ^ 32

/-- A pool public key or a token mint address. -/
abbrev Key := Vector UInt8 32

/-- An index of the pool arrays. -/
abbrev PoolIdx := Fin maxPools

/-- One array of the structure-of-arrays layout. -/
abbrev Column (Value : Type) := PoolIdx → Value

/-- The pool state columns and the speculative overlay over them. -/
structure StateShadow where
  reserveX : Column Nat
  reserveY : Column Nat
  feeNum : Column Nat
  feeDen : Column Nat
  tokenXId : Column Nat
  tokenYId : Column Nat
  poolKeys : Column Key
  priceXPerY : Column Nat
  priceYPerX : Column Nat
  lastUpdatedSlot : Column Nat
  active : Column Nat
  poolCount : Nat
  poolCountInRange : poolCount ≤ maxPools
  confirmedSlot : Nat
  specReserveX : Column Nat
  specReserveY : Column Nat
  specDirtyCount : Nat
  specDirty : Column Nat

/-- The range check of an access to a pool array. -/
def poolIndex (idx : Nat) : Checked PoolIdx :=
  if inRange : idx < maxPools then
    .ok ⟨idx, inRange⟩
  else
    .error .indexOutOfRange

@[simp] theorem poolIndex_val (pool : PoolIdx) :
    poolIndex pool.val = .ok pool := by
  simp [poolIndex, pool.isLt]

@[simp] theorem poolIndex_eq_ok
    {idx : Nat}
    {pool : PoolIdx} :
    poolIndex idx = .ok pool ↔ idx = pool.val := by
  constructor
  · intro found
    by_cases inRange : idx < maxPools
    · simp only [poolIndex, inRange, ↓reduceDIte,
        Except.ok.injEq] at found
      rw [← found]
    · simp [poolIndex, inRange] at found
  · rintro rfl
    exact poolIndex_val pool

namespace StateShadow

/-- The empty shadow: every entry zero and no pool registered. -/
def new : StateShadow where
  reserveX := fun _ => 0
  reserveY := fun _ => 0
  feeNum := fun _ => 0
  feeDen := fun _ => 0
  tokenXId := fun _ => 0
  tokenYId := fun _ => 0
  poolKeys := fun _ => Vector.replicate 32 0
  priceXPerY := fun _ => 0
  priceYPerX := fun _ => 0
  lastUpdatedSlot := fun _ => 0
  active := fun _ => 0
  poolCount := 0
  poolCountInRange := Nat.zero_le maxPools
  confirmedSlot := 0
  specReserveX := fun _ => 0
  specReserveY := fun _ => 0
  specDirtyCount := 0
  specDirty := fun _ => 0

/--
One Q32.32 price, cast to u64.  A pool whose divisor reserve is zero keeps the
price it had.
-/
def fixedPointPrice
    (profile : Profile)
    (previous numerator divisor : Nat) :
    Checked Nat :=
  if 0 < divisor then do
    let scaled ← mul profile 128 numerator priceScale
    let price ← div scaled divisor
    pure (price % 2 ^ 64)
  else
    pure previous

/-- Recompute Q32.32 fixed-point prices for a pool. -/
def recomputePrice
    (profile : Profile)
    (shadow : StateShadow)
    (pool : PoolIdx) :
    Checked StateShadow := do
  let rx := shadow.reserveX pool
  let ry := shadow.reserveY pool
  let xPerY ← fixedPointPrice profile (shadow.priceXPerY pool) rx ry
  let yPerX ← fixedPointPrice profile (shadow.priceYPerX pool) ry rx
  pure { shadow with
    priceXPerY := Function.update shadow.priceXPerY pool xPerY
    priceYPerX := Function.update shadow.priceYPerX pool yPerX }

/-- What a registration says about a pool. -/
structure Registration where
  poolKey : Key
  tokenX : Nat
  tokenY : Nat
  reserveX : Nat
  reserveY : Nat
  feeNum : Nat
  feeDen : Nat
  slot : Nat

/-- The columns a registration writes before the prices are derived. -/
def writeRegistration
    (shadow : StateShadow)
    (pool : PoolIdx)
    (entry : Registration) :
    StateShadow :=
  { shadow with
    poolKeys := Function.update shadow.poolKeys pool entry.poolKey
    tokenXId := Function.update shadow.tokenXId pool entry.tokenX
    tokenYId := Function.update shadow.tokenYId pool entry.tokenY
    reserveX := Function.update shadow.reserveX pool entry.reserveX
    reserveY := Function.update shadow.reserveY pool entry.reserveY
    specReserveX :=
      Function.update shadow.specReserveX pool entry.reserveX
    specReserveY :=
      Function.update shadow.specReserveY pool entry.reserveY
    feeNum := Function.update shadow.feeNum pool entry.feeNum
    feeDen := Function.update shadow.feeDen pool entry.feeDen
    lastUpdatedSlot :=
      Function.update shadow.lastUpdatedSlot pool entry.slot
    active := Function.update shadow.active pool 1 }

/-- Register a new pool. Returns the pool index. -/
def registerPool
    (profile : Profile)
    (shadow : StateShadow)
    (entry : Registration) :
    Checked (Option Nat × StateShadow) :=
  if full : maxPools ≤ shadow.poolCount then
    .ok (none, shadow)
  else do
    let idx : PoolIdx := ⟨shadow.poolCount, Nat.not_le.mp full⟩
    let priced ←
      recomputePrice profile (shadow.writeRegistration idx entry) idx
    pure (some idx.val,
      { priced with
        poolCount := shadow.poolCount + 1
        poolCountInRange := Nat.not_le.mp full })

/--
Update pool reserves from a confirmed block.  Clears any speculative state for
this pool.
-/
def updateReserves
    (profile : Profile)
    (shadow : StateShadow)
    (idx reserveX reserveY slot : Nat) :
    Checked StateShadow := do
  debugAssert profile (idx < shadow.poolCount)
  let pool ← poolIndex idx
  recomputePrice profile
    { shadow with
      reserveX := Function.update shadow.reserveX pool reserveX
      reserveY := Function.update shadow.reserveY pool reserveY
      specReserveX := Function.update shadow.specReserveX pool reserveX
      specReserveY := Function.update shadow.specReserveY pool reserveY
      lastUpdatedSlot :=
        Function.update shadow.lastUpdatedSlot pool slot
      specDirty := Function.update shadow.specDirty pool 0 }
    pool

/-- The part of an input amount that is left after the pool fee. -/
def amountAfterFee
    (profile : Profile)
    (amountIn feeNum feeDen : Nat) :
    Checked Nat := do
  let scaled ← mul profile 128 amountIn feeNum
  let fee ← div scaled feeDen
  sub profile 128 amountIn fee

/--
One constant-product swap: the new reserve of the incoming token, the new
reserve of the outgoing token and the amount paid out.
-/
def constantProduct
    (profile : Profile)
    (reserveIn reserveOut afterFee : Nat) :
    Checked (Nat × Nat × Nat) := do
  let newIn ← add profile 128 reserveIn afterFee
  let k ← mul profile 128 reserveIn reserveOut
  let newOut ← div k newIn
  let out ← sub profile 128 reserveOut newOut
  pure (newIn, newOut, out)

/-- The new speculative reserves `(x, y)` of a swap and the amount paid out. -/
def swapReserves
    (profile : Profile)
    (rx ry afterFee : Nat) :
    Bool → Checked (Nat × Nat × Nat)
  | true =>
      constantProduct profile rx ry afterFee
  | false => do
      let (newRy, newRx, out) ← constantProduct profile ry rx afterFee
      pure (newRx, newRy, out)

/-- Mark a pool as carrying speculative reserves. -/
def markDirty (shadow : StateShadow) (pool : PoolIdx) : StateShadow :=
  if shadow.specDirty pool = 0 then
    { shadow with
      specDirty := Function.update shadow.specDirty pool 1
      specDirtyCount := shadow.specDirtyCount + 1 }
  else
    shadow

/--
Apply a speculative swap to the shadow state.  Models what the reserves WILL
be after a pending mempool tx lands.
-/
def applySpeculativeSwap
    (profile : Profile)
    (shadow : StateShadow)
    (idx amountIn : Nat)
    (xToY : Bool) :
    Checked (Nat × StateShadow) := do
  debugAssert profile (idx < shadow.poolCount)
  let pool ← poolIndex idx
  let rx := shadow.specReserveX pool
  let ry := shadow.specReserveY pool
  let afterFee ←
    amountAfterFee profile amountIn
      (shadow.feeNum pool) (shadow.feeDen pool)
  let (newRx, newRy, amountOut) ←
    swapReserves profile rx ry afterFee xToY
  pure (amountOut,
    markDirty
      { shadow with
        specReserveX := Function.update shadow.specReserveX pool newRx
        specReserveY := Function.update shadow.specReserveY pool newRy }
      pool)

/-- Revert all speculative state back to confirmed reserves. -/
def revertSpeculative (shadow : StateShadow) : StateShadow :=
  { shadow with
    specReserveX := fun pool =>
      if pool.val < shadow.poolCount then
        shadow.reserveX pool
      else
        shadow.specReserveX pool
    specReserveY := fun pool =>
      if pool.val < shadow.poolCount then
        shadow.reserveY pool
      else
        shadow.specReserveY pool
    specDirty := fun pool =>
      if pool.val < shadow.poolCount then
        0
      else
        shadow.specDirty pool
    specDirtyCount := 0 }

/-- Advance the confirmed slot and revert speculative state. -/
def onNewBlock (shadow : StateShadow) (slot : Nat) : StateShadow :=
  { shadow with confirmedSlot := slot }.revertSpeculative

/-- Simulate a constant-product swap on SPECULATIVE reserves. -/
def simSwap
    (profile : Profile)
    (shadow : StateShadow)
    (idx amountIn : Nat)
    (xToY : Bool) :
    Checked Nat := do
  let pool ← poolIndex idx
  let rx := shadow.specReserveX pool
  let ry := shadow.specReserveY pool
  if rx = 0 ∨ ry = 0 then
    pure 0
  else do
    let afterFee ←
      amountAfterFee profile amountIn
        (shadow.feeNum pool) (shadow.feeDen pool)
    let (_, _, out) ← swapReserves profile rx ry afterFee xToY
    pure out

/-!
## Swaps without overflow

Where a debug build does not overflow, any build computes the same.
-/

theorem amountAfterFee_agrees
    (profile : Profile)
    (amountIn feeNum feeDen : Nat) :
    Agrees (amountAfterFee .debug amountIn feeNum feeDen)
      (amountAfterFee profile amountIn feeNum feeDen) :=
  (Agrees.fit profile 128 _).bind fun _ =>
    (Agrees.refl _).bind fun _ => Agrees.sub profile 128 _ _

theorem constantProduct_agrees
    (profile : Profile)
    (reserveIn reserveOut afterFee : Nat) :
    Agrees (constantProduct .debug reserveIn reserveOut afterFee)
      (constantProduct profile reserveIn reserveOut afterFee) :=
  (Agrees.fit profile 128 _).bind fun _ =>
    (Agrees.fit profile 128 _).bind fun _ =>
      (Agrees.refl _).bind fun _ =>
        (Agrees.sub profile 128 _ _).bind fun _ => Agrees.refl _

theorem simSwap_agrees
    (profile : Profile)
    (shadow : StateShadow)
    (idx amountIn : Nat)
    (xToY : Bool) :
    Agrees (shadow.simSwap .debug idx amountIn xToY)
      (shadow.simSwap profile idx amountIn xToY) := by
  refine (Agrees.refl _).bind fun pool => ?_
  dsimp only
  split
  · exact Agrees.refl _
  · refine (amountAfterFee_agrees profile _ _ _).bind fun afterFee => ?_
    refine Agrees.bind ?_ fun _ => Agrees.refl _
    cases xToY with
    | true =>
        exact constantProduct_agrees profile _ _ _
    | false =>
        exact (constantProduct_agrees profile _ _ _).bind
          fun _ => Agrees.refl _

end StateShadow

end YieldDaemon
