import YieldDaemon.ConcentratedPool
import YieldDaemon.RungLadder

namespace YieldDaemon

open CheckedArithmetic RungLadder WhileLoop

/-!
# Swaps climb a ladder

The ranges that a swap passes do not depend on its amount, but for where it
stops.  They form a ladder that the amount climbs, each range giving its whole
output.  The fee is computed and then dropped, so it matters only by what would
have been left of the amount.
-/

namespace ConcentratedPool

variable
  {profile : Profile}
  {tickToSqrtPrice : Int → Nat}
  {pool : ConcentratedPool}
  {feeComplement : Nat}
  {zeroForOne : Bool}

/-- An order of two ticks, the one that a swap comes to first before the other. -/
def TickBefore (zeroForOne : Bool) (tick other : Int) : Prop :=
  if zeroForOne then other < tick else tick < other

instance (zeroForOne : Bool) (tick other : Int) :
    Decidable (TickBefore zeroForOne tick other) :=
  inferInstanceAs (Decidable (if zeroForOne then _ else _))

theorem TickBefore.trans
    {first second third : Int}
    (earlier : TickBefore zeroForOne first second)
    (later : TickBefore zeroForOne second third) :
    TickBefore zeroForOne first third := by
  cases zeroForOne with
  | true => exact lt_trans later earlier
  | false => exact lt_trans earlier later

theorem TickBefore.irrefl (tick : Int) : ¬ TickBefore zeroForOne tick tick := by
  cases zeroForOne <;> exact lt_irrefl tick

/-- The initialised ticks that a swap comes to after a tick. -/
def ticksBeyond
    (pool : ConcentratedPool)
    (zeroForOne : Bool)
    (tick : Int) : List Int :=
  (pool.tickData.map Prod.fst).filter
    (fun other => TickBefore zeroForOne tick other)

/-- The tick ahead is one of the initialised ticks beyond the current one. -/
theorem tickAhead_mem
    {tick next : Int}
    (ahead : pool.tickAhead zeroForOne tick = some next) :
    next ∈ pool.ticksBeyond zeroForOne tick := by
  unfold ticksBeyond
  rw [List.filter_map]
  cases zeroForOne with
  | true => exact List.max?_mem ahead
  | false => exact List.min?_mem ahead

/-- Fewer ticks are beyond the tick ahead. -/
theorem ticksBeyond_lt
    {tick next : Int}
    (ahead : pool.tickAhead zeroForOne tick = some next) :
    (pool.ticksBeyond zeroForOne next).length <
      (pool.ticksBeyond zeroForOne tick).length := by
  have member := tickAhead_mem ahead
  have isBeyond : TickBefore zeroForOne tick next := by
    simpa using (List.mem_filter.mp member).2
  have narrowed :
      pool.ticksBeyond zeroForOne next =
        (pool.ticksBeyond zeroForOne tick).filter
          (fun other => TickBefore zeroForOne next other) := by
    unfold ticksBeyond
    rw [List.filter_filter]
    refine List.filter_congr fun other _ => ?_
    have further := @TickBefore.trans zeroForOne tick next other isBeyond
    simpa using further
  rw [narrowed]
  exact List.length_filter_lt_length_iff_exists.mpr
    ⟨next, member, by simpa using TickBefore.irrefl next⟩

/-- The liquidity beyond a tick, stored as u128. -/
def liquidityBeyond
    (pool : ConcentratedPool)
    (zeroForOne : Bool)
    (liquidity : Nat)
    (tick : Int) : Nat :=
  match pool.tickData.find? (fun entry => entry.1 = tick) with
  | none => liquidity
  | some (_, delta) =>
    i128AsU128
      (if zeroForOne then asI128 liquidity - delta
      else asI128 liquidity + delta)

/-- The ranges that lie ahead of a price, a liquidity and a tick. -/
def ladder
    (tickToSqrtPrice : Int → Nat)
    (pool : ConcentratedPool)
    (zeroForOne : Bool)
    (sqrtPrice liquidity : Nat)
    (tick : Int) : List Rung :=
  match _ahead : pool.tickAhead zeroForOne tick with
  | none => []
  | some next =>
    ⟨rangeInput zeroForOne sqrtPrice (tickToSqrtPrice next) liquidity,
      rangeOutput zeroForOne sqrtPrice (tickToSqrtPrice next) liquidity⟩ ::
      ladder tickToSqrtPrice pool zeroForOne (tickToSqrtPrice next)
        (pool.liquidityBeyond zeroForOne liquidity next) next
termination_by (pool.ticksBeyond zeroForOne tick).length
decreasing_by exact ticksBeyond_lt _ahead

theorem ladder_of_none
    {sqrtPrice liquidity : Nat}
    {tick : Int}
    (ahead : pool.tickAhead zeroForOne tick = none) :
    ladder tickToSqrtPrice pool zeroForOne sqrtPrice liquidity tick = [] := by
  rw [ladder]
  split
  · rfl
  · next found =>
      exact absurd (ahead.symm.trans found) nofun

theorem ladder_of_some
    {sqrtPrice liquidity : Nat}
    {tick next : Int}
    (ahead : pool.tickAhead zeroForOne tick = some next) :
    ladder tickToSqrtPrice pool zeroForOne sqrtPrice liquidity tick =
      ⟨rangeInput zeroForOne sqrtPrice (tickToSqrtPrice next) liquidity,
        rangeOutput zeroForOne sqrtPrice (tickToSqrtPrice next) liquidity⟩ ::
        ladder tickToSqrtPrice pool zeroForOne (tickToSqrtPrice next)
          (pool.liquidityBeyond zeroForOne liquidity next) next := by
  rw [ladder]
  split
  · next found =>
      exact absurd (ahead.symm.trans found) nofun
  · next found =>
      obtain rfl := Option.some.inj (ahead.symm.trans found)
      rfl

/-- A wrapped i128 is stored as the same u128. -/
theorem i128AsU128_bmod (exact : Int) :
    i128AsU128 (exact.bmod (2 ^ 128)) = i128AsU128 exact := by
  have wraps := @Int.bmod_emod exact (2 ^ 128)
  rw [Nat.cast_pow, Nat.cast_ofNat] at wraps
  unfold i128AsU128
  rw [wraps]

/-- A tick is crossed to the liquidity beyond it. -/
theorem crossTick_eq
    {liquidity crossed : Nat}
    {tick : Int}
    (returned :
      crossTick profile pool zeroForOne liquidity tick = .ok crossed) :
    crossed = pool.liquidityBeyond zeroForOne liquidity tick := by
  unfold crossTick at returned
  unfold liquidityBeyond
  cases found : pool.tickData.find? (fun entry => entry.1 = tick) with
  | none =>
      rw [found] at returned
      exact (Except.ok.inj returned).symm
  | some entry =>
      simp only [found] at returned ⊢
      cases zeroForOne with
      | true =>
          rw [if_pos rfl] at returned ⊢
          obtain ⟨stored, computed, isCast⟩ := Checked.bind_eq_ok.mp returned
          rw [← Except.ok.inj isCast, subI128_wraps computed,
            i128AsU128_bmod]
      | false =>
          rw [if_neg Bool.false_ne_true] at returned ⊢
          obtain ⟨stored, computed, isCast⟩ := Checked.bind_eq_ok.mp returned
          rw [← Except.ok.inj isCast, fitI128_wraps computed,
            i128AsU128_bmod]

/-- The ranges that are ahead of a state of the loop. -/
def ladderAhead
    (tickToSqrtPrice : Int → Nat)
    (pool : ConcentratedPool)
    (zeroForOne : Bool)
    (state : SwapState) : List Rung :=
  ladder tickToSqrtPrice pool zeroForOne state.sqrtPrice
    state.liquidity state.tick

/-- A round without an overflow passes a range as far as the amount reaches. -/
theorem swapRound_debug
    {state : SwapState}
    {outcome : Round SwapState Nat}
    {next : Int}
    (remains : state.remaining ≠ 0)
    (ahead : pool.tickAhead zeroForOne state.tick = some next)
    (returned :
      swapRound .debug tickToSqrtPrice pool feeComplement zeroForOne state =
        .ok outcome) :
    ∃ following,
      outcome = .goOn following ∧
        following.amountOut =
          state.amountOut +
            rangeOutput zeroForOne state.sqrtPrice (tickToSqrtPrice next)
              state.liquidity ∧
        following.remaining =
          state.remaining -
            rangeInput zeroForOne state.sqrtPrice (tickToSqrtPrice next)
              state.liquidity ∧
        (following.remaining ≠ 0 →
          following.sqrtPrice = tickToSqrtPrice next ∧
            following.liquidity =
              pool.liquidityBeyond zeroForOne state.liquidity next ∧
            following.tick = next) := by
  rw [swapRound, if_neg remains, ahead] at returned
  obtain ⟨amounts, computed, returned⟩ := Checked.bind_eq_ok.mp returned
  obtain ⟨-, rfl⟩ := computeStepAmounts_debug_eq_ok.mp computed
  obtain ⟨_, -, returned⟩ := Checked.bind_eq_ok.mp returned
  obtain ⟨_, -, returned⟩ := Checked.bind_eq_ok.mp returned
  obtain ⟨amountOut, added, returned⟩ := Checked.bind_eq_ok.mp returned
  obtain ⟨-, rfl⟩ := add_debug_eq_ok.mp added
  have left :
      state.remaining -
          min (rangeInput zeroForOne state.sqrtPrice (tickToSqrtPrice next)
            state.liquidity) state.remaining =
        state.remaining -
          rangeInput zeroForOne state.sqrtPrice (tickToSqrtPrice next)
            state.liquidity := by
    omega
  rw [left] at returned
  split at returned
  · obtain ⟨liquidity, crossed, returned⟩ := Checked.bind_eq_ok.mp returned
    exact ⟨_, (Except.ok.inj returned).symm, rfl, rfl,
      fun _ => ⟨rfl, crossTick_eq crossed, rfl⟩⟩
  · next exhausted =>
      exact ⟨_, (Except.ok.inj returned).symm, rfl, rfl,
        fun remains => absurd (Nat.pos_of_ne_zero remains) exhausted⟩

/-- What a swap returns is what its amount receives on the ladder. -/
theorem swapLoop_climbs
    {fuel : Nat}
    {state : SwapState}
    {amountOut : Nat}
    (returned :
      loop (swapRound .debug tickToSqrtPrice pool feeComplement zeroForOne)
        fuel state = pure amountOut) :
    amountOut =
      state.amountOut +
        climb (ladderAhead tickToSqrtPrice pool zeroForOne state)
          state.remaining := by
  induction fuel generalizing state with
  | zero =>
      exact absurd (Except.ok.inj returned) nofun
  | succ fuel inductionHypothesis =>
      obtain ⟨outcome, computed, returned⟩ := bind_eq_pure.mp returned
      have computed := lift_eq_pure.mp computed
      unfold ladderAhead
      by_cases exhausted : state.remaining = 0
      · rw [swapRound, if_pos exhausted] at computed
        obtain rfl := Except.ok.inj computed
        rw [exhausted, climb_zero, Nat.add_zero]
        exact (Option.some.inj (Except.ok.inj returned)).symm
      · cases ahead : pool.tickAhead zeroForOne state.tick with
        | none =>
            rw [swapRound, if_neg exhausted, ahead] at computed
            obtain rfl := Except.ok.inj computed
            rw [ladder_of_none ahead, climb, Nat.add_zero]
            exact (Option.some.inj (Except.ok.inj returned)).symm
        | some next =>
            obtain ⟨following, rfl, amount, left, position⟩ :=
              swapRound_debug exhausted ahead computed
            rw [inductionHypothesis returned, amount, ladder_of_some ahead,
              climb_cons exhausted, ← Nat.add_assoc]
            apply congrArg
            rw [← left]
            rcases Nat.eq_zero_or_pos following.remaining with done | remains
            · rw [done, climb_zero, climb_zero]
            · obtain ⟨price, liquidity, tick⟩ := position remains.ne'
              rw [ladderAhead, price, liquidity, tick]

/-- The ranges that are ahead of a pool. -/
def ranges
    (tickToSqrtPrice : Int → Nat)
    (pool : ConcentratedPool)
    (zeroForOne : Bool) : List Rung :=
  ladder tickToSqrtPrice pool zeroForOne pool.sqrtPriceX64 pool.liquidity
    pool.tickCurrent

/-- A swap returns what its amount receives on the ranges, whatever the fee. -/
theorem swap_climbs
    (pool : ConcentratedPool)
    (feeRate : Nat)
    {amountIn amountOut : Nat}
    (ends :
      EndsWith
        (swap .debug tickToSqrtPrice { pool with feeRate := feeRate } amountIn
          zeroForOne)
        amountOut) :
    amountOut = climb (pool.ranges tickToSqrtPrice zeroForOne) amountIn := by
  obtain ⟨enough, returns⟩ := ends
  obtain ⟨_, -, returned⟩ :=
    bind_eq_pure.mp (returns enough (Nat.le_refl enough))
  -- The rounds read no fee but its complement.
  have climbed := @swapLoop_climbs tickToSqrtPrice pool _ zeroForOne _ _ _ returned
  rw [climbed, Nat.zero_add]
  rfl

theorem crossTick_agrees
    (profile : Profile)
    (pool : ConcentratedPool)
    (zeroForOne : Bool)
    (liquidity : Nat)
    (tick : Int) :
    Agrees (crossTick .debug pool zeroForOne liquidity tick)
      (crossTick profile pool zeroForOne liquidity tick) := by
  unfold crossTick
  split
  · exact Agrees.refl _
  · cases zeroForOne with
    | true =>
        exact Agrees.bind (Agrees.fitI128 profile _) fun _ => Agrees.refl _
    | false =>
        exact Agrees.bind (Agrees.fitI128 profile _) fun _ => Agrees.refl _

theorem swapRound_agrees
    (profile : Profile)
    (state : SwapState) :
    Agrees
      (swapRound .debug tickToSqrtPrice pool feeComplement zeroForOne state)
      (swapRound profile tickToSqrtPrice pool feeComplement zeroForOne
        state) := by
  unfold swapRound
  split
  · exact Agrees.refl _
  · split
    · exact Agrees.refl _
    · refine Agrees.bind (computeStepAmounts_agrees profile _ _ _ _ _)
        fun _ => ?_
      refine Agrees.bind (Agrees.fit profile 128 _) fun _ => ?_
      refine Agrees.bind (Agrees.refl _) fun _ => ?_
      refine Agrees.bind (Agrees.fit profile 128 _) fun _ => ?_
      split
      · exact Agrees.bind (crossTick_agrees profile pool _ _ _)
          fun _ => Agrees.refl _
      · exact Agrees.refl _

/-- What a swap returns without an overflow it returns in every build. -/
theorem swap_agrees
    (profile : Profile)
    {amountIn amountOut : Nat}
    (ends :
      EndsWith (swap .debug tickToSqrtPrice pool amountIn zeroForOne)
        amountOut) :
    EndsWith (swap profile tickToSqrtPrice pool amountIn zeroForOne)
      amountOut := by
  obtain ⟨enough, returns⟩ := ends
  refine ⟨enough, fun fuel enoughFuel => ?_⟩
  obtain ⟨feeComplement, computed, returned⟩ :=
    bind_eq_pure.mp (returns fuel enoughFuel)
  have complement :=
    (Agrees.sub profile 128 10000 pool.feeRate).returns
      (lift_eq_pure.mp computed)
  exact bind_eq_pure.mpr
    ⟨feeComplement, lift_eq_pure.mpr complement,
      loop_follows
        (fun state _ => (swapRound_agrees profile state).returns) returned⟩

/-- A swap that returns with some fuel ends. -/
theorem swap_ends_of_returned
    {fuel amountIn amountOut : Nat}
    (returned :
      (swap profile tickToSqrtPrice pool amountIn zeroForOne fuel).run =
        .ok (some amountOut)) :
    EndsWith (swap profile tickToSqrtPrice pool amountIn zeroForOne)
      amountOut := by
  obtain ⟨feeComplement, computed, returned⟩ := bind_eq_pure.mp returned
  exact EndsWith.lift_bind (lift_eq_pure.mp computed)
    (loop_ends_of_returned returned)

/-- The part of an amount that a fee in basis points leaves, rounded up. -/
def amountLessFee (feeRate amountIn : Nat) : Nat :=
  (amountIn * (10000 - feeRate) + 9999) / 10000

theorem amountLessFee_le (feeRate amountIn : Nat) :
    amountLessFee feeRate amountIn ≤ amountIn := by
  have less : amountIn * (10000 - feeRate) ≤ amountIn * 10000 :=
    Nat.mul_le_mul_left amountIn (Nat.sub_le 10000 feeRate)
  unfold amountLessFee
  omega

/-- The same pool without a fee. -/
def withoutFee (pool : ConcentratedPool) : ConcentratedPool :=
  { pool with feeRate := 0 }

/--
A swap without an overflow returns no more than a swap of the amount less the
fee without a fee exactly if each range that only the whole amount enters gives
nothing.
-/
theorem fee_is_charged_iff
    (tickToSqrtPrice : Int → Nat)
    (pool : ConcentratedPool)
    (zeroForOne : Bool)
    (amountIn : Nat)
    {charged free : Nat}
    (chargedEnds :
      EndsWith (swap .debug tickToSqrtPrice pool amountIn zeroForOne) charged)
    (freeEnds :
      EndsWith
        (swap .debug tickToSqrtPrice pool.withoutFee
          (amountLessFee pool.feeRate amountIn) zeroForOne)
        free) :
    (∀ profile,
      EndsWith (swap profile tickToSqrtPrice pool amountIn zeroForOne)
          charged ∧
        EndsWith
          (swap profile tickToSqrtPrice pool.withoutFee
            (amountLessFee pool.feeRate amountIn) zeroForOne)
          free) ∧
      (charged ≤ free ↔
        GivesNothingBetween (pool.ranges tickToSqrtPrice zeroForOne)
          (amountLessFee pool.feeRate amountIn) amountIn) := by
  refine ⟨fun profile =>
    ⟨swap_agrees profile chargedEnds, swap_agrees profile freeEnds⟩, ?_⟩
  rw [swap_climbs pool pool.feeRate chargedEnds, swap_climbs pool 0 freeEnds]
  exact climb_le_iff _ (amountLessFee_le pool.feeRate amountIn)

/-- Prices that grow by the same step from tick to tick. -/
def evenPrice (tick : Int) : Nat :=
  (2 ^ 64 + tick * 2 ^ 32).toNat

/-- A pool with a fee of 30 basis points and two ranges that take 1000 each. -/
def twoRangePool : ConcentratedPool where
  sqrtPriceX64 := 2 ^ 64
  liquidity := 1000 * 2 ^ 32
  tickCurrent := 0
  feeRate := 30
  tickData := [(1, 0), (2, 0)]

/-- An amount of 1001 crosses a tick that the 998 left by the fee do not reach. -/
theorem fee_is_dropped :
    (∀ tick other : Int,
        -2 ^ 31 ≤ tick → tick < other → other < 2 ^ 31 →
        evenPrice tick < evenPrice other) ∧
      EndsWith (swap .debug evenPrice twoRangePool 1001 false) 1998 ∧
      EndsWith
        (swap .debug evenPrice twoRangePool.withoutFee
          (amountLessFee twoRangePool.feeRate 1001) false)
        999 ∧
      ¬ 1998 ≤ 999 := by
  refine ⟨?_, @swap_ends_of_returned _ _ _ _ 4 _ _ (by decide +kernel),
    @swap_ends_of_returned _ _ _ _ 4 _ _ (by decide +kernel), by decide⟩
  intro tick other lowest less _
  unfold evenPrice
  omega

/-- An amount of 500 stays in the first range with and without the fee. -/
theorem small_amount_stays_in_range :
    EndsWith (swap .release evenPrice twoRangePool 500 false) 999 ∧
      GivesNothingBetween (twoRangePool.ranges evenPrice false)
        (amountLessFee twoRangePool.feeRate 500) 500 := by
  obtain ⟨agrees, charged⟩ :=
    @fee_is_charged_iff evenPrice twoRangePool false 500 999 999
      (@swap_ends_of_returned _ _ _ _ 3 _ _ (by decide +kernel))
      (@swap_ends_of_returned _ _ _ _ 3 _ _ (by decide +kernel))
  exact ⟨(agrees .release).1, charged.mp (Nat.le_refl 999)⟩

end ConcentratedPool

end YieldDaemon
