import YieldDaemon.ShadowBounds

namespace YieldDaemon

open CheckedArithmetic LabelledRun

/-!
# The cached prices

Every write of confirmed reserves derives the two prices of the pool again, so
a price never goes stale.  The cache keeps the Q32.32 quotient modulo `2 ^ 64`,
which is the quotient itself only for reserves that are not too far apart.
-/

namespace StateShadow

/-- The confirmed reserves of a pool and the prices cached for them. -/
structure PriceRow where
  reserveX : Nat
  reserveY : Nat
  priceXPerY : Nat
  priceYPerX : Nat

def priceRow (shadow : StateShadow) (pool : PoolIdx) : PriceRow where
  reserveX := shadow.reserveX pool
  reserveY := shadow.reserveY pool
  priceXPerY := shadow.priceXPerY pool
  priceYPerX := shadow.priceYPerX pool

namespace PriceRow

/-- Small reserves, and the low 64 bits of the quotients that are defined. -/
structure Cached (row : PriceRow) : Prop where
  xSmall : row.reserveX < 2 ^ 64
  ySmall : row.reserveY < 2 ^ 64
  xPerY :
    0 < row.reserveY →
      row.priceXPerY = row.reserveX * priceScale / row.reserveY % 2 ^ 64
  yPerX :
    0 < row.reserveX →
      row.priceYPerX = row.reserveY * priceScale / row.reserveX % 2 ^ 64

/-- Both prices are the exact quotients. -/
def Exact (row : PriceRow) : Prop :=
  row.priceXPerY = row.reserveX * priceScale / row.reserveY ∧
    row.priceYPerX = row.reserveY * priceScale / row.reserveX

/-- The low 64 bits of a Q32.32 quotient are all of it below a ratio. -/
theorem quotient_exact_iff
    {numerator divisor : Nat}
    (positive : 0 < divisor) :
    numerator * priceScale / divisor % 2 ^ 64 =
        numerator * priceScale / divisor ↔
      numerator < 2 ^ 32 * divisor := by
  rw [Nat.mod_eq_iff_lt (by decide), Nat.div_lt_iff_lt_mul positive, priceScale]
  omega

/-- Cached prices are exact for reserves that are not too far apart. -/
theorem Cached.exact_iff
    {row : PriceRow}
    (cached : row.Cached)
    (xPositive : 0 < row.reserveX)
    (yPositive : 0 < row.reserveY) :
    row.Exact ↔
      row.reserveX < 2 ^ 32 * row.reserveY ∧
        row.reserveY < 2 ^ 32 * row.reserveX := by
  rw [Exact, cached.xPerY yPositive, cached.yPerX xPositive,
    quotient_exact_iff yPositive, quotient_exact_iff xPositive]

end PriceRow

/-- A price of a small reserve is derived without an overflow. -/
theorem fixedPointPrice_eq
    {profile : Profile}
    {previous numerator divisor price : Nat}
    (small : numerator < 2 ^ 64)
    (positive : 0 < divisor)
    (derived :
      fixedPointPrice profile previous numerator divisor = .ok price) :
    price = numerator * priceScale / divisor % 2 ^ 64 := by
  have fits : numerator * priceScale < 2 ^ 128 := by
    unfold priceScale
    omega
  rw [fixedPointPrice, if_pos positive, mul, fit_of_lt fits, Checked.ok_bind,
    div, if_neg positive.ne', Checked.ok_bind] at derived
  exact (Except.ok.inj derived).symm

/-- Deriving the prices of small reserves fills the cache. -/
theorem cached_of_prices
    {profile : Profile}
    {shadow : StateShadow}
    {pool : PoolIdx}
    {xPerY yPerX : Nat}
    (xSmall : shadow.reserveX pool < 2 ^ 64)
    (ySmall : shadow.reserveY pool < 2 ^ 64)
    (prices : Prices profile shadow pool xPerY yPerX) :
    ((shadow.withPrices pool xPerY yPerX).priceRow pool).Cached := by
  obtain ⟨xDerived, yDerived⟩ := prices
  refine ⟨xSmall, ySmall, fun yPositive => ?_, fun xPositive => ?_⟩
  · simpa [priceRow, withPrices] using
      fixedPointPrice_eq xSmall yPositive xDerived
  · simpa [priceRow, withPrices] using
      fixedPointPrice_eq ySmall xPositive yDerived

/-- Marking a pool as dirty leaves reserves and prices alone. -/
theorem priceRow_markDirty
    (shadow : StateShadow)
    (target pool : PoolIdx) :
    (shadow.markDirty target).priceRow pool = shadow.priceRow pool := by
  unfold markDirty
  split <;> rfl

end StateShadow

namespace ShadowOp

/-- The confirmed reserves that an operation writes. -/
inductive Confirms : ShadowOp → Nat → Nat → Prop where
  | register (entry : StateShadow.Registration) :
      Confirms (.register entry) entry.reserveX entry.reserveY
  | update (idx reserveX reserveY slot : Nat) :
      Confirms (.update idx reserveX reserveY slot) reserveX reserveY

/-- The confirmed reserves that an operation writes fit 64 bits. -/
def ConfirmsSmall (op : ShadowOp) : Prop :=
  ∀ reserveX reserveY,
    op.Confirms reserveX reserveY →
      reserveX < 2 ^ 64 ∧ reserveY < 2 ^ 64

/-- Every pool has its prices cached. -/
def PricesCached (shadow : StateShadow) : Prop :=
  ∀ pool, (shadow.priceRow pool).Cached

variable
  {profile : Profile}
  {before after : StateShadow}

/-- Nothing is priced before the first registration. -/
theorem pricesCached_new : PricesCached StateShadow.new :=
  fun _ => ⟨Nat.two_pow_pos 64, Nat.two_pow_pos 64,
    fun positive => absurd positive (lt_irrefl 0),
    fun positive => absurd positive (lt_irrefl 0)⟩

/-- A registration prices its pool. -/
theorem pricesCached_register
    {entry : StateShadow.Registration}
    (small : (register entry).ConfirmsSmall)
    (cached : PricesCached before)
    (performed : Performs profile before (.register entry) after) :
    PricesCached after := by
  obtain ⟨idx, returned⟩ := performs_register performed
  rcases StateShadow.registerPool_cases returned with
    ⟨-, rfl⟩ | ⟨room, xPerY, yPerX, prices, rfl⟩
  · exact cached
  · obtain ⟨xSmall, ySmall⟩ := small _ _ (.register entry)
    intro pool
    by_cases fresh : pool = ⟨before.poolCount, room⟩
    · rw [fresh]
      refine StateShadow.cached_of_prices ?_ ?_ prices
      · simpa [StateShadow.writeRegistration] using xSmall
      · simpa [StateShadow.writeRegistration] using ySmall
    · simpa [StateShadow.priceRow, StateShadow.countPool,
        StateShadow.withPrices, StateShadow.writeRegistration, fresh]
        using cached pool

/-- So does a confirmed update. -/
theorem pricesCached_update
    {idx reserveX reserveY slot : Nat}
    (small : (update idx reserveX reserveY slot).ConfirmsSmall)
    (cached : PricesCached before)
    (performed :
      Performs profile before (.update idx reserveX reserveY slot) after) :
    PricesCached after := by
  obtain ⟨target, xPerY, yPerX, rfl, prices, rfl⟩ :=
    StateShadow.updateReserves_cases (performs_update performed)
  obtain ⟨xSmall, ySmall⟩ := small _ _ (.update _ _ _ _)
  intro pool
  by_cases same : pool = target
  · rw [same]
    refine StateShadow.cached_of_prices ?_ ?_ prices
    · simpa [StateShadow.writeUpdate] using xSmall
    · simpa [StateShadow.writeUpdate] using ySmall
  · simpa [StateShadow.priceRow, StateShadow.withPrices,
      StateShadow.writeUpdate, same] using cached pool

/-- Every operation with small reserves keeps the prices cached. -/
theorem pricesCached_step
    {op : ShadowOp}
    (cached : PricesCached before)
    (performed : restrict ConfirmsSmall (Performs profile) before op after) :
    PricesCached after := by
  obtain ⟨small, performed⟩ := performed
  cases op with
  | register entry =>
      exact pricesCached_register small cached performed
  | update idx reserveX reserveY slot =>
      exact pricesCached_update small cached performed
  | swap idx amountIn xToY =>
      obtain ⟨-, amountOut, applied⟩ := performs_swap performed
      obtain ⟨target, afterFee, newIn, k, -, -, -, rfl⟩ :=
        StateShadow.applySpeculativeSwap_cases applied
      intro pool
      rw [StateShadow.priceRow_markDirty]
      exact cached pool
  | revert =>
      obtain rfl := performs_revert performed
      exact cached
  | newBlock slot =>
      obtain rfl := performs_newBlock performed
      exact cached

/--
In every state of a run with 64-bit reserves the prices of a pool are exact
exactly if neither reserve is `2 ^ 32` times the other one or more.
-/
theorem prices_exact_iff
    {profile : Profile}
    {ops : List ShadowOp}
    (small : ∀ op ∈ ops, op.ConfirmsSmall) :
    EveryState (Performs profile)
      (fun shadow =>
        ∀ pool : PoolIdx,
          pool.val < shadow.poolCount →
            0 < shadow.reserveX pool →
            0 < shadow.reserveY pool →
            ((shadow.priceXPerY pool =
                  shadow.reserveX pool * 2 ^ 32 / shadow.reserveY pool ∧
                shadow.priceYPerX pool =
                  shadow.reserveY pool * 2 ^ 32 / shadow.reserveX pool) ↔
              shadow.reserveX pool < 2 ^ 32 * shadow.reserveY pool ∧
                shadow.reserveY pool < 2 ^ 32 * shadow.reserveX pool))
      StateShadow.new ops := by
  intro earlier later reached shape run pool _ xPositive yPositive
  have earlierSmall : ∀ op ∈ earlier, op.ConfirmsSmall := fun op member =>
    small op (shape ▸ List.mem_append_left later member)
  have cached : PricesCached reached :=
    (run.restrict earlierSmall).preserves PricesCached
      (fun cached performed => pricesCached_step cached performed)
      pricesCached_new
  exact (cached pool).exact_iff xPositive yPositive

/-- A pool that holds `2 ^ 32` times as much X as Y. -/
def unevenPool : ShadowOp :=
  .register { Trade.levelEntry 1 with reserveX := 2 ^ 32 }

/-- Its price of `2 ^ 64` is cached as 0. -/
theorem uneven_price_is_cut_off :
    ∃ shadow,
      Run (Performs .debug) StateShadow.new [unevenPool] shadow ∧
        Trade.levelPool.val < shadow.poolCount ∧
        shadow.reserveX Trade.levelPool = 2 ^ 32 ∧
        shadow.reserveY Trade.levelPool = 1 ∧
        shadow.priceXPerY Trade.levelPool = 0 ∧
        shadow.priceXPerY Trade.levelPool ≠
          shadow.reserveX Trade.levelPool * 2 ^ 32 /
            shadow.reserveY Trade.levelPool := by
  refine ⟨_, .cons ⟨trivial, rfl⟩ (.nil _), Nat.zero_lt_one, rfl, rfl, rfl, ?_⟩
  decide

/-- The prices of a 6 by 6 pool are exact, for instance. -/
theorem six_by_six_prices_are_exact :
    ∃ shadow,
      Run (Performs .debug) StateShadow.new [levelPool 6] shadow ∧
        shadow.priceXPerY Trade.levelPool = 2 ^ 32 ∧
        shadow.priceYPerX Trade.levelPool = 2 ^ 32 := by
  have small : ∀ op ∈ [levelPool 6], op.ConfirmsSmall := by
    intro op member
    obtain rfl := List.mem_singleton.mp member
    rintro _ _ ⟨⟩
    exact ⟨by decide, by decide⟩
  obtain ⟨shadow, run, registered, rfl⟩ :
      ∃ shadow,
        Run (Performs .debug) StateShadow.new [levelPool 6] shadow ∧
          Trade.levelPool.val < shadow.poolCount ∧
          shadow = Trade.levelShadow 6 :=
    ⟨_, .cons (show Performs .debug StateShadow.new (levelPool 6)
      (Trade.levelShadow 6) from ⟨trivial, rfl⟩) (.nil _), Nat.zero_lt_one,
      rfl⟩
  have exact :=
    (prices_exact_iff small _ [] _ (List.append_nil _).symm run
      Trade.levelPool registered (by decide) (by decide)).mpr
      ⟨by decide, by decide⟩
  exact ⟨_, run, exact.1, exact.2⟩

end ShadowOp

end YieldDaemon
