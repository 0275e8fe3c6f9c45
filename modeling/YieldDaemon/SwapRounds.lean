import YieldDaemon.SwapLadder

namespace YieldDaemon

open CheckedArithmetic WhileLoop

/-!
# Rounds of a swap

The amount that is left need not get smaller in a round of a swap, without
liquidity or between equal prices.  But what is left after a round goes on at
the next tick, so every round has an initialised tick of its own.
-/

namespace ConcentratedPool

variable
  {profile : Profile}
  {tickToSqrtPrice : Int → Nat}
  {pool : ConcentratedPool}
  {feeComplement : Nat}
  {zeroForOne : Bool}

/-- The distinct initialised ticks that a swap comes to after a tick. -/
def tickSet
    (pool : ConcentratedPool)
    (zeroForOne : Bool)
    (tick : Int) : Finset Int :=
  (pool.ticksBeyond zeroForOne tick).toFinset

/-- The state in which the loop of a swap starts. -/
def startSwap (pool : ConcentratedPool) (amountIn : Nat) : SwapState :=
  ⟨amountIn, 0, pool.sqrtPriceX64, pool.liquidity, pool.tickCurrent⟩

/-- A round goes on from what is left, and moves it to the tick ahead. -/
theorem swapRound_goOn
    {state following : SwapState}
    (goesOn :
      swapRound profile tickToSqrtPrice pool feeComplement zeroForOne state =
        .ok (.goOn following)) :
    state.remaining ≠ 0 ∧
      ∃ next,
        pool.tickAhead zeroForOne state.tick = some next ∧
          (following.remaining ≠ 0 → following.tick = next) := by
  unfold swapRound at goesOn
  split at goesOn
  · exact absurd (Except.ok.inj goesOn) nofun
  · next remains =>
      split at goesOn
      · exact absurd (Except.ok.inj goesOn) nofun
      · next next ahead =>
          refine ⟨remains, next, ahead, ?_⟩
          obtain ⟨amounts, -, goesOn⟩ := Checked.bind_eq_ok.mp goesOn
          obtain ⟨product, -, goesOn⟩ := Checked.bind_eq_ok.mp goesOn
          obtain ⟨adjusted, -, goesOn⟩ := Checked.bind_eq_ok.mp goesOn
          obtain ⟨amountOut, -, goesOn⟩ := Checked.bind_eq_ok.mp goesOn
          split at goesOn
          · obtain ⟨liquidity, -, goesOn⟩ := Checked.bind_eq_ok.mp goesOn
            cases goesOn
            exact fun _ => rfl
          · next exhausted =>
              cases goesOn
              exact fun left => absurd (Nat.pos_of_ne_zero left) exhausted

/-- The ticks ahead of a swap, none when its amount is used up. -/
def roundsLeft
    (pool : ConcentratedPool)
    (zeroForOne : Bool)
    (state : SwapState) : Nat :=
  if state.remaining = 0 then 0 else (pool.tickSet zeroForOne state.tick).card

theorem mem_tickSet {tick other : Int} :
    other ∈ pool.tickSet zeroForOne tick ↔
      other ∈ pool.tickData.map Prod.fst ∧
        TickBefore zeroForOne tick other := by
  rw [tickSet, List.mem_toFinset, ticksBeyond, List.mem_filter,
    decide_eq_true_iff]

/-- The tick ahead is beyond the current one, but not beyond itself. -/
theorem tickSet_lt
    {tick next : Int}
    (ahead : pool.tickAhead zeroForOne tick = some next) :
    (pool.tickSet zeroForOne next).card <
      (pool.tickSet zeroForOne tick).card := by
  have member : next ∈ pool.tickSet zeroForOne tick :=
    List.mem_toFinset.mpr (tickAhead_mem ahead)
  have isBeyond := (mem_tickSet.mp member).2
  apply Finset.card_lt_card
  refine (Finset.ssubset_iff_of_subset ?_).mpr ⟨next, member, ?_⟩
  · intro other otherMember
    obtain ⟨initialised, further⟩ := mem_tickSet.mp otherMember
    exact mem_tickSet.mpr ⟨initialised, isBeyond.trans further⟩
  · exact fun self => TickBefore.irrefl next (mem_tickSet.mp self).2

/-- Every round that goes on has a tick of its own. -/
theorem roundsLeft_lt
    {state following : SwapState}
    (goesOn :
      swapRound profile tickToSqrtPrice pool feeComplement zeroForOne state =
        .ok (.goOn following)) :
    pool.roundsLeft zeroForOne following < pool.roundsLeft zeroForOne state := by
  obtain ⟨remains, next, ahead, moves⟩ := swapRound_goOn goesOn
  have lower := tickSet_lt ahead
  rw [roundsLeft, roundsLeft, if_neg remains]
  split
  · exact Nat.zero_lt_of_lt lower
  · next left =>
      rwa [moves left]

theorem roundsLeft_start_le (amountIn : Nat) :
    pool.roundsLeft zeroForOne (pool.startSwap amountIn) ≤
      (pool.tickSet zeroForOne pool.tickCurrent).card := by
  rw [roundsLeft]
  split
  · exact Nat.zero_le _
  · exact le_refl _

/-- A swap with more fuel than ticks does not run out of it. -/
theorem swap_has_fuel
    (profile : Profile)
    (tickToSqrtPrice : Int → Nat)
    (pool : ConcentratedPool)
    (amountIn : Nat)
    (zeroForOne : Bool) :
    (swap profile tickToSqrtPrice pool amountIn zeroForOne
      ((pool.tickSet zeroForOne pool.tickCurrent).card + 1)).run ≠
        .ok none := by
  have enough := Nat.lt_succ_of_le (@roundsLeft_start_le pool zeroForOne amountIn)
  unfold swap
  cases sub profile 128 10000 pool.feeRate with
  | error panic =>
      exact nofun
  | ok feeComplement =>
      exact loop_within (pool.roundsLeft zeroForOne)
        (fun _ _ => roundsLeft_lt) enough

/--
The loop of a swap goes on for at most one round per distinct initialised tick
ahead of it.  With fuel for one more round, which leaves the loop, it returns
unless its arithmetic panics.
-/
theorem swap_loop_ends
    (profile : Profile)
    (tickToSqrtPrice : Int → Nat)
    (pool : ConcentratedPool)
    (amountIn : Nat)
    (zeroForOne : Bool) :
    (∀ feeComplement count final,
      GoesOn
          (swapRound profile tickToSqrtPrice pool feeComplement zeroForOne)
          count (pool.startSwap amountIn) final →
        count ≤ (pool.tickSet zeroForOne pool.tickCurrent).card) ∧
    ((∃ panic,
        (swap profile tickToSqrtPrice pool amountIn zeroForOne
          ((pool.tickSet zeroForOne pool.tickCurrent).card + 1)).run =
            .error panic) ∨
      ∃ amountOut,
        (swap profile tickToSqrtPrice pool amountIn zeroForOne
          ((pool.tickSet zeroForOne pool.tickCurrent).card + 1)).run =
            .ok (some amountOut) ∧
          EndsWith (swap profile tickToSqrtPrice pool amountIn zeroForOne)
            amountOut) := by
  constructor
  · intro feeComplement count final goesOn
    exact (goesOn.le_measure (pool.roundsLeft zeroForOne)
      (fun _ _ => roundsLeft_lt)).trans (roundsLeft_start_le amountIn)
  · cases returned :
        (swap profile tickToSqrtPrice pool amountIn zeroForOne
          ((pool.tickSet zeroForOne pool.tickCurrent).card + 1)).run with
    | error panic =>
        exact .inl ⟨panic, rfl⟩
    | ok result =>
        cases result with
        | some amountOut =>
            exact .inr ⟨amountOut, rfl, swap_ends_of_returned returned⟩
        | none =>
            exact absurd returned
              (swap_has_fuel profile tickToSqrtPrice pool amountIn zeroForOne)

end ConcentratedPool

end YieldDaemon
