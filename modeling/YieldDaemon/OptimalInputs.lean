import YieldDaemon.NarrowingSearch
import YieldDaemon.SwapAgreement

namespace YieldDaemon

open CheckedArithmetic FlooredSwaps NarrowingSearch

/-!
# The best input for two pools

The ternary search for the best input is the general one over the exact gain of
an input.  Both swaps and both fees round, so the gain rises and falls in steps,
and a round may drop the best input; with a wide interval the rounds also end
before three inputs are left.
-/

namespace AmmPool

open StateShadow

variable
  {profile : Profile}
  {pool pool1 pool2 : AmmPool}
  {maxInput input : Nat}

/-- Both reserves hold something, and the fee is below the whole. -/
structure Trades (pool : AmmPool) : Prop where
  reserveX : 0 < pool.reserveX
  reserveY : 0 < pool.reserveY
  fee : pool.feeNumerator < pool.feeDenominator

/-- What a swap of X pays in Y. -/
def paidY (pool : AmmPool) (amountIn : Nat) : Nat :=
  payment pool.reserveX pool.reserveY
    (netInput amountIn pool.feeNumerator pool.feeDenominator)

/-- What a swap of Y pays in X. -/
def paidX (pool : AmmPool) (amountIn : Nat) : Nat :=
  payment pool.reserveY pool.reserveX
    (netInput amountIn pool.feeNumerator pool.feeDenominator)

section Swaps

variable {amountIn : Nat}

/-- A swap whose sums fit pays the exact amount in all builds. -/
theorem Trades.swapXToY_of_fits
    (trades : pool.Trades)
    (fits :
      ExchangeFits pool.reserveX pool.reserveY pool.feeNumerator
        pool.feeDenominator amountIn)
    (profile : Profile) :
    pool.swapXToY profile amountIn = .ok (pool.paidY amountIn) := by
  rw [swapXToY_eq_exchange, exchange_of_fits fits
    (Nat.zero_lt_of_lt trades.fee) trades.fee.le
    (Nat.add_pos_left trades.reserveX _).ne']
  rfl

theorem Trades.swapYToX_of_fits
    (trades : pool.Trades)
    (fits :
      ExchangeFits pool.reserveY pool.reserveX pool.feeNumerator
        pool.feeDenominator amountIn)
    (profile : Profile) :
    pool.swapYToX profile amountIn = .ok (pool.paidX amountIn) := by
  rw [swapYToX_eq_exchange, exchange_of_fits fits
    (Nat.zero_lt_of_lt trades.fee) trades.fee.le
    (Nat.add_pos_left trades.reserveY _).ne']
  rfl

/-- So does a swap that does not overflow. -/
theorem Trades.swapXToY_eq
    (trades : pool.Trades)
    (free : pool.swapXToY .debug amountIn ≠ .error .arithmeticOverflow)
    (profile : Profile) :
    pool.swapXToY profile amountIn = .ok (pool.paidY amountIn) := by
  rw [swapXToY_eq_exchange] at free
  exact trades.swapXToY_of_fits
    (exchangeFits_of_noOverflow (Checked.ne_error_of_bind free)
      (Nat.zero_lt_of_lt trades.fee) trades.fee.le)
    profile

theorem Trades.swapYToX_eq
    (trades : pool.Trades)
    (free : pool.swapYToX .debug amountIn ≠ .error .arithmeticOverflow)
    (profile : Profile) :
    pool.swapYToX profile amountIn = .ok (pool.paidX amountIn) := by
  rw [swapYToX_eq_exchange] at free
  exact trades.swapYToX_of_fits
    (exchangeFits_of_noOverflow (Checked.ne_error_of_bind free)
      (Nat.zero_lt_of_lt trades.fee) trades.fee.le)
    profile

end Swaps

/-- Swap on the first pool and back on the second one. -/
def roundTrip
    (profile : Profile)
    (pool1 pool2 : AmmPool)
    (input : Nat) : Checked Nat := do
  let outB ← pool1.swapXToY profile input
  pool2.swapYToX profile outB

/-- What both swaps make of an input. -/
def output (pool1 pool2 : AmmPool) (input : Nat) : Nat :=
  pool2.paidX (pool1.paidY input)

/-- What both swaps gain, or lose. -/
def gain (pool1 pool2 : AmmPool) (input : Nat) : Int :=
  output pool1 pool2 input - input

/-- No input of the range overflows in the swaps of these pools. -/
structure Searchable (pool1 pool2 : AmmPool) (maxInput : Nat) : Prop where
  first : pool1.Trades
  second : pool2.Trades
  small : maxInput ≤ 2 ^ 64
  noOverflow :
    ∀ input, 1 ≤ input → input ≤ maxInput →
      roundTrip .debug pool1 pool2 input ≠ .error .arithmeticOverflow

/-- The inputs that are searched. -/
def inputs (maxInput : Nat) : Range :=
  ⟨1, maxInput⟩

/-- Both swaps are computed exactly in all builds. -/
theorem Searchable.swaps
    (searchable : Searchable pool1 pool2 maxInput)
    (inside : (inputs maxInput).Holds input)
    (profile : Profile) :
    pool1.swapXToY profile input = .ok (pool1.paidY input) ∧
      pool2.swapYToX profile (pool1.paidY input) =
        .ok (output pool1 pool2 input) := by
  have free := searchable.noOverflow input inside.1 inside.2
  have bought :=
    searchable.first.swapXToY_eq (Checked.ne_error_of_bind free)
  rw [roundTrip, bought .debug, Checked.ok_bind] at free
  exact ⟨bought profile, searchable.second.swapYToX_eq free profile⟩

theorem Searchable.gains_iff
    (searchable : Searchable pool1 pool2 maxInput)
    (inside : (inputs maxInput).Holds input)
    (profit : Nat) :
    Gains profile pool1 pool2 input profit ↔
      output pool1 pool2 input = input + profit := by
  obtain ⟨bought, sold⟩ := searchable.swaps inside profile
  constructor
  · rintro ⟨outB, isBought, isSold⟩
    obtain rfl := Except.ok.inj (bought.symm.trans isBought)
    exact Except.ok.inj (sold.symm.trans isSold)
  · intro gains
    exact ⟨_, bought, gains ▸ sold⟩

/-- An output is converted without a change, unless overflows are unchecked. -/
def Fits
    (profile : Profile)
    (pool1 pool2 : AmmPool)
    (input : Nat) : Prop :=
  profile = .debug → output pool1 pool2 input < 2 ^ 127

/-- A gain of 127 bits is computed exactly, or its output does not fit. -/
theorem Searchable.profitAt_eq_ok_iff
    (searchable : Searchable pool1 pool2 maxInput)
    (inside : (inputs maxInput).Holds input)
    (small : gain pool1 pool2 input < 2 ^ 127)
    {profit : Int} :
    profitAt profile pool1 pool2 input = .ok profit ↔
      Fits profile pool1 pool2 input ∧ gain pool1 pool2 input = profit := by
  obtain ⟨bought, sold⟩ := searchable.swaps inside profile
  have inputSmall : input ≤ 2 ^ 64 := inside.2.trans searchable.small
  have bounded :
      |(output pool1 pool2 input : Int) - input| < 2 ^ 127 := by
    rw [abs_lt]
    unfold gain at small
    omega
  rw [profitAt, bought, Checked.ok_bind, sold, Checked.ok_bind]
  exact subI128_asI128_eq_ok (by omega) bounded

/-! The search. -/

/-- The range of the search. -/
def InputRange.toRange (range : InputRange) : Range :=
  ⟨range.lo, range.hi⟩

theorem InputRange.toRange_injective {first second : InputRange} :
    first.toRange = second.toRange ↔ first = second := by
  cases first
  cases second
  simp [toRange]

/-- The range after a comparison of two profits. -/
def InputRange.next (range : InputRange) (p1 p2 : Int) : InputRange :=
  if p1 < p2 then
    { range with lo := PeakSearch.lower range.lo range.hi + 1 }
  else
    { range with hi := PeakSearch.upper range.lo range.hi - 1 }

theorem InputRange.narrow_toRange (range : InputRange) (value : Nat → Int) :
    narrow value range.toRange =
      (range.next (value (PeakSearch.lower range.lo range.hi))
        (value (PeakSearch.upper range.lo range.hi))).toRange := by
  rw [InputRange.next, apply_ite InputRange.toRange]
  rfl

/-- A round on a wide range compares the profits of both inner points. -/
theorem narrowInput_wide
    {rounds : Nat}
    {range : InputRange}
    (wide : range.lo < range.hi)
    (fits : range.hi < 2 ^ 128) :
    narrowInput profile pool1 pool2 (rounds + 1) range = (do
      let p1 ← profitAt profile pool1 pool2
        (PeakSearch.lower range.lo range.hi)
      let p2 ← profitAt profile pool1 pool2
        (PeakSearch.upper range.lo range.hi)
      narrowInput profile pool1 pool2 rounds (range.next p1 p2)) := by
  have third : (range.hi - range.lo) / 3 < range.hi := by omega
  have positive : range.hi - (range.hi - range.lo) / 3 ≠ 0 := by omega
  rw [narrowInput, if_neg (Nat.not_le.mpr wide), sub_of_le wide.le,
    Checked.ok_bind, add_of_lt (by omega), Checked.ok_bind,
    sub_of_le third.le, Checked.ok_bind]
  refine bind_congr fun p1 => bind_congr fun p2 => ?_
  rw [add_of_lt (by omega), Checked.ok_bind, if_neg positive,
    sub_of_le (Nat.one_le_iff_ne_zero.mpr positive), Checked.ok_bind]
  exact (apply_ite (narrowInput profile pool1 pool2 rounds) _ _ _).symm

section Searches

variable
  {rounds : Nat}
  {range found : InputRange}

/-- The search returns what the general one leaves, if it can compare. -/
theorem Searchable.narrowInput_eq_ok_iff
    (searchable : Searchable pool1 pool2 maxInput)
    (small :
      ∀ input, (inputs maxInput).Holds input →
        gain pool1 pool2 input < 2 ^ 127)
    (least : 1 ≤ range.lo)
    (most : range.hi ≤ maxInput) :
    narrowInput profile pool1 pool2 rounds range = .ok found ↔
      (∀ input ∈ compared (gain pool1 pool2) rounds range.toRange,
          Fits profile pool1 pool2 input) ∧
        run (gain pool1 pool2) rounds range.toRange = found.toRange := by
  induction rounds generalizing range with
  | zero =>
      rw [narrowInput, Except.ok.injEq, compared, run,
        InputRange.toRange_injective]
      exact (and_iff_right (List.forall_mem_nil _)).symm
  | succ rounds inductionHypothesis =>
      by_cases single : range.hi ≤ range.lo
      · rw [narrowInput, if_pos single, Except.ok.injEq, compared,
          if_pos (show range.toRange.hi ≤ range.toRange.lo from single), run,
          if_pos (show range.toRange.hi ≤ range.toRange.lo from single),
          InputRange.toRange_injective]
        exact (and_iff_right (List.forall_mem_nil _)).symm
      · have wide : range.toRange.lo < range.toRange.hi :=
          Nat.not_le.mp single
        have m1 := lower_lt wide
        have m2 := lt_upper wide
        have maxSmall := searchable.small
        have lowerInside :
            (inputs maxInput).Holds (PeakSearch.lower range.lo range.hi) :=
          ⟨least.trans m1.1, m1.2.le.trans most⟩
        have upperInside :
            (inputs maxInput).Holds (PeakSearch.upper range.lo range.hi) :=
          ⟨least.trans m2.1.le, m2.2.trans most⟩
        have part := narrow_within (gain pool1 pool2) wide
        rw [InputRange.narrow_toRange] at part
        have later := inductionHypothesis (least.trans part.1)
          (part.2.2.trans most)
        rw [narrowInput_wide wide (by omega), compared,
          if_neg (show ¬ range.toRange.hi ≤ range.toRange.lo from single), run,
          if_neg (show ¬ range.toRange.hi ≤ range.toRange.lo from single),
          List.forall_mem_cons, List.forall_mem_cons,
          InputRange.narrow_toRange]
        simp only [Checked.bind_eq_ok,
          searchable.profitAt_eq_ok_iff lowerInside (small _ lowerInside),
          searchable.profitAt_eq_ok_iff upperInside (small _ upperInside)]
        constructor
        · rintro ⟨_, ⟨lowerFits, rfl⟩, _, ⟨upperFits, rfl⟩, returned⟩
          obtain ⟨laterFit, isFound⟩ := later.mp returned
          exact ⟨⟨lowerFits, upperFits, laterFit⟩, isFound⟩
        · rintro ⟨⟨lowerFits, upperFits, laterFit⟩, isFound⟩
          exact ⟨_, ⟨lowerFits, rfl⟩, _, ⟨upperFits, rfl⟩,
            later.mpr ⟨laterFit, isFound⟩⟩

/-- The best input of the general search. -/
def BestInput.toBest (best : BestInput) : Best Int :=
  ⟨best.input, best.profit⟩

/-- Keep the better one of the best input so far and another one, exactly. -/
def keepBetter (pool1 pool2 : AmmPool) (best : BestInput) (input : Nat) :
    BestInput :=
  if best.profit < gain pool1 pool2 input then
    ⟨input, gain pool1 pool2 input⟩
  else
    best

/-- A profit that is not positive is returned as 0, as `toNat` has it. -/
theorem toNat_eq (profit : Int) :
    (if 0 < profit then profit.toNat else 0) = profit.toNat := by
  split
  · rfl
  · next none => exact (Int.toNat_of_nonpos (not_lt.mp none)).symm

theorem foldl_tryPoint_toBest
    (pool1 pool2 : AmmPool)
    (points : List Nat)
    (best : BestInput) :
    points.foldl (tryPoint (gain pool1 pool2)) best.toBest =
      (points.foldl (keepBetter pool1 pool2) best).toBest := by
  refine List.foldl_hom BestInput.toBest fun best input => ?_
  rw [keepBetter, apply_ite BestInput.toBest]
  rfl

theorem Searchable.tryInput_eq_ok_iff
    (searchable : Searchable pool1 pool2 maxInput)
    (inside : (inputs maxInput).Holds input)
    (small : gain pool1 pool2 input < 2 ^ 127)
    (best next : BestInput) :
    tryInput profile pool1 pool2 best input = .ok next ↔
      Fits profile pool1 pool2 input ∧
        keepBetter pool1 pool2 best input = next := by
  simp only [tryInput, Checked.bind_eq_ok,
    searchable.profitAt_eq_ok_iff inside small]
  constructor
  · rintro ⟨_, ⟨fits, rfl⟩, isNext⟩
    exact ⟨fits, Except.ok.inj isNext⟩
  · rintro ⟨fits, isNext⟩
    exact ⟨_, ⟨fits, rfl⟩, congrArg Except.ok isNext⟩

/-- The search returns the result of the general one, if it can compare. -/
theorem Searchable.optimalArbInput_eq_ok_iff
    (searchable : Searchable pool1 pool2 maxInput)
    (small :
      ∀ input, (inputs maxInput).Holds input →
        gain pool1 pool2 input < 2 ^ 127)
    (result : Nat × Nat) :
    optimalArbInput profile pool1 pool2 maxInput = .ok result ↔
      (∀ input ∈ visited (gain pool1 pool2) 60 (inputs maxInput),
          Fits profile pool1 pool2 input) ∧
        ((search (gain pool1 pool2) 60 (inputs maxInput)).point,
          (search (gain pool1 pool2) 60 (inputs maxInput)).value.toNat) =
          result := by
  have narrowed (found : InputRange) :=
    @narrowInput_eq_ok_iff profile pool1 pool2 maxInput 60 ⟨1, maxInput⟩
      found searchable small (le_refl 1) (le_refl maxInput)
  have left : (run (gain pool1 pool2) 60 (inputs maxInput)).lo ≤ 2 ^ 64 := by
    rcases Nat.lt_or_ge 1 maxInput with wide | single
    · have part := run_within (gain pool1 pool2) 60
        (show (inputs maxInput).lo ≤ (inputs maxInput).hi from wide.le)
      exact part.2.1.trans (part.2.2.trans searchable.small)
    · rw [run_of_le _ _ (show (inputs maxInput).hi ≤ (inputs maxInput).lo
        from single)]
      exact Nat.one_le_two_pow
  have tried (best : BestInput) :
      (candidates (run (gain pool1 pool2) 60 (inputs maxInput))).foldlM
          (tryInput profile pool1 pool2) ⟨0, 0⟩ = .ok best ↔ _ :=
    Checked.foldlM_eq_ok_iff (keepBetter pool1 pool2)
      fun input isCandidate best next =>
        have inside := mem_visited (List.mem_append_right _ isCandidate)
        searchable.tryInput_eq_ok_iff inside (small input inside) best next
  have sameBest :
      search (gain pool1 pool2) 60 (inputs maxInput) =
        ((candidates (run (gain pool1 pool2) 60 (inputs maxInput))).foldl
          (keepBetter pool1 pool2) ⟨0, 0⟩).toBest :=
    foldl_tryPoint_toBest pool1 pool2 _ ⟨0, 0⟩
  rw [visited, List.forall_mem_append, sameBest]
  simp only [optimalArbInput, Checked.bind_eq_ok]
  constructor
  · rintro ⟨range, isRange, top, isTop, best, isBest, isResult⟩
    obtain ⟨comparedFit, sameRange⟩ := (narrowed range).mp isRange
    have isLeft :
        (⟨1, maxInput⟩ : InputRange).toRange = inputs maxInput := rfl
    rw [isLeft] at comparedFit sameRange
    rw [sameRange] at tried left ⊢
    obtain rfl :=
      Except.ok.inj ((add_of_lt (show range.lo + 2 < 2 ^ 128 from
        (Nat.add_le_add_right left 2).trans_lt (by norm_num))).symm.trans
        isTop)
    obtain ⟨triedFit, rfl⟩ := (tried best).mp isBest
    exact ⟨⟨comparedFit, triedFit⟩,
      (congrArg (Prod.mk _) (toNat_eq _).symm).trans
        (Except.ok.inj isResult)⟩
  · rintro ⟨⟨comparedFit, triedFit⟩, isResult⟩
    refine ⟨⟨_, _⟩, (narrowed ⟨_, _⟩).mpr ⟨comparedFit, rfl⟩, _,
      add_of_lt ((Nat.add_le_add_right left 2).trans_lt (by norm_num)), _,
      (tried _).mpr ⟨triedFit, rfl⟩, ?_⟩
    exact congrArg Except.ok
      ((congrArg (Prod.mk _) (toNat_eq _)).trans isResult)

/-- A profit that is returned is one of an i128. -/
theorem optimalArbInput_lt
    {input profit : Nat}
    (returned :
      optimalArbInput profile pool1 pool2 maxInput = .ok (input, profit)) :
    profit < 2 ^ 127 := by
  simp only [optimalArbInput, Checked.bind_eq_ok] at returned
  obtain ⟨range, -, top, -, best, tried, isResult⟩ := returned
  have small : best.profit < 2 ^ 127 := by
    apply Checked.foldlM_preserves (fun best : BestInput => best.profit < 2 ^ 127)
      ?_ (by norm_num) tried
    intro candidate _ current next currentSmall computed
    simp only [tryInput, profitAt, Checked.bind_eq_ok] at computed
    obtain ⟨found, ⟨outB, -, outA, -, subtracted⟩, isNext⟩ := computed
    obtain rfl := Except.ok.inj isNext
    split
    · exact (subI128_wraps subtracted).trans_lt (bmod_lt _)
    · exact currentSmall
  obtain ⟨-, isProfit⟩ := Prod.mk.inj (Except.ok.inj isResult)
  rw [toNat_eq] at isProfit
  omega

end Searches

/-- The search returns the largest gain of its range, if there is any. -/
def FindsBestInput
    (profile : Profile)
    (pool1 pool2 : AmmPool)
    (maxInput : Nat) : Prop :=
  ∃ input profit,
    optimalArbInput profile pool1 pool2 maxInput = .ok (input, profit) ∧
      (∀ other otherProfit, 1 ≤ other → other ≤ maxInput →
        Gains profile pool1 pool2 other otherProfit →
          otherProfit ≤ profit) ∧
      (0 < profit →
        1 ≤ input ∧ input ≤ maxInput ∧
          Gains profile pool1 pool2 input profit)

/--
The search finds the best input exactly if the gains are below 2^127, the
visited outputs fit an i128 where overflows are checked, and, where some input
gains, no round drops some input of the largest gain, which is among the first
three that are kept.
-/
theorem findsBestInput_iff
    (searchable : Searchable pool1 pool2 maxInput) :
    FindsBestInput profile pool1 pool2 maxInput ↔
      (∀ input, (inputs maxInput).Holds input →
          gain pool1 pool2 input < 2 ^ 127) ∧
        (∀ input ∈ visited (gain pool1 pool2) 60 (inputs maxInput),
          Fits profile pool1 pool2 input) ∧
        ((∃ input,
            (inputs maxInput).Holds input ∧ 0 < gain pool1 pool2 input) →
          ∃ best,
            (inputs maxInput).Holds best ∧
              (∀ other, (inputs maxInput).Holds other →
                gain pool1 pool2 other ≤ gain pool1 pool2 best) ∧
              Keeps (gain pool1 pool2) 60 (inputs maxInput) best ∧
              ∀ other, (inputs maxInput).Holds other →
                Keeps (gain pool1 pool2) 60 (inputs maxInput) other →
                  best ≤ other + 2) := by
  have nonneg := search_nonneg (gain pool1 pool2) 60 (inputs maxInput)
  constructor
  · rintro ⟨input, profit, returned, largest, -⟩
    have profitSmall := optimalArbInput_lt returned
    have bounded :
        ∀ other, (inputs maxInput).Holds other →
          gain pool1 pool2 other ≤ profit := by
      intro other inside
      unfold gain
      by_contra more
      have gains :
          Gains profile pool1 pool2 other
            (output pool1 pool2 other - other) :=
        (searchable.gains_iff inside _).mpr (by omega)
      have most := largest other _ inside.1 inside.2 gains
      omega
    have small :
        ∀ other, (inputs maxInput).Holds other →
          gain pool1 pool2 other < 2 ^ 127 :=
      fun other inside =>
        (bounded other inside).trans_lt (by exact_mod_cast profitSmall)
    obtain ⟨fits, isResult⟩ :=
      (searchable.optimalArbInput_eq_ok_iff small _).mp returned
    refine ⟨small, fits, search_finds_iff.mp fun other inside => ?_⟩
    have isProfit := congrArg Prod.snd isResult
    have most := bounded other inside
    dsimp only at isProfit
    omega
  · rintro ⟨small, fits, condition⟩
    have returned :=
      (searchable.optimalArbInput_eq_ok_iff small _).mpr ⟨fits, rfl⟩
    have largest := search_finds_iff.mpr condition
    refine ⟨_, _, returned, ?_, fun positive => ?_⟩
    · intro other otherProfit atLeastOne atMost gains
      have inside : (inputs maxInput).Holds other := ⟨atLeastOne, atMost⟩
      have out := (searchable.gains_iff inside otherProfit).mp gains
      have most :
          (output pool1 pool2 other : Int) - other ≤
            (search (gain pool1 pool2) 60 (inputs maxInput)).value :=
        largest other inside
      omega
    · obtain ⟨isVisited, attained⟩ :=
        search_attains (Int.lt_toNat.mp positive)
      have inside := mem_visited isVisited
      refine ⟨inside.1, inside.2, (searchable.gains_iff inside _).mpr ?_⟩
      rw [gain] at attained
      omega

/--
The search finds the best input of a range that the rounds narrow to three, if
the gains, and where overflows are checked the outputs, fit an i128, and no
comparison leaves all inputs of the largest gain behind.
-/
theorem findsBestInput_of_guides
    (searchable : Searchable pool1 pool2 maxInput)
    (few : maxInput * 2 ^ 60 ≤ 3 ^ 61)
    (small :
      ∀ input, (inputs maxInput).Holds input →
        gain pool1 pool2 input < 2 ^ 127)
    (fits :
      ∀ input, (inputs maxInput).Holds input →
        Fits profile pool1 pool2 input)
    (guides :
      (∃ input,
          (inputs maxInput).Holds input ∧ 0 < gain pool1 pool2 input) →
        Guides (gain pool1 pool2) (inputs maxInput)) :
    FindsBestInput profile pool1 pool2 maxInput := by
  refine (findsBestInput_iff searchable).mpr
    ⟨small, fun input isVisited => fits input (mem_visited isVisited), ?_⟩
  refine search_finds_iff.mp fun input inside => ?_
  by_cases some :
      ∃ input, (inputs maxInput).Holds input ∧ 0 < gain pool1 pool2 input
  · refine search_finds_of_guides ?_ (guides some) input inside
    exact few.trans_eq (pow_succ' 3 60)
  · have nothing : gain pool1 pool2 input ≤ 0 :=
      not_lt.mp (fun positive => some ⟨input, inside, positive⟩)
    exact nothing.trans (search_nonneg _ _ _)

/-! Pools without a fee. -/

/-- No fee, and positive reserves of 64 bits. -/
structure FeeFree (pool : AmmPool) : Prop where
  reserveX : 0 < pool.reserveX ∧ pool.reserveX < 2 ^ 64
  reserveY : 0 < pool.reserveY ∧ pool.reserveY < 2 ^ 64
  noFee : pool.feeNumerator = 0
  whole : pool.feeDenominator = 1

theorem FeeFree.trades (feeFree : pool.FeeFree) : pool.Trades where
  reserveX := feeFree.reserveX.1
  reserveY := feeFree.reserveY.1
  fee := by rw [feeFree.noFee, feeFree.whole]; exact Nat.one_pos

/-- The sums of an exchange without a fee fit. -/
theorem exchangeFits_of_small
    {reserveIn reserveOut feeDen amountIn : Nat}
    (reserveInSmall : reserveIn < 2 ^ 64)
    (reserveOutSmall : reserveOut < 2 ^ 64)
    (amountSmall : amountIn ≤ 2 ^ 64) :
    ExchangeFits reserveIn reserveOut 0 feeDen amountIn where
  fee := by rw [Nat.mul_zero]; exact Nat.two_pow_pos 128
  sum := by
    have left := netInput_le amountIn 0 feeDen
    omega
  product :=
    (Nat.mul_lt_mul'' reserveInSmall reserveOutSmall).trans_eq
      (Nat.pow_add 2 64 64).symm

theorem searchable_of_feeFree
    (first : pool1.FeeFree)
    (second : pool2.FeeFree)
    (small : maxInput ≤ 2 ^ 64) :
    Searchable pool1 pool2 maxInput where
  first := first.trades
  second := second.trades
  small := small
  noOverflow := by
    intro input _ atMost
    have buys :
        ExchangeFits pool1.reserveX pool1.reserveY pool1.feeNumerator
          pool1.feeDenominator input := by
      rw [first.noFee]
      exact exchangeFits_of_small first.reserveX.2 first.reserveY.2
        (atMost.trans small)
    have sells :
        ExchangeFits pool2.reserveY pool2.reserveX pool2.feeNumerator
          pool2.feeDenominator (pool1.paidY input) := by
      rw [second.noFee]
      exact exchangeFits_of_small second.reserveY.2 second.reserveX.2
        ((payment_le _ _ _).trans first.reserveY.2.le)
    rw [roundTrip, first.trades.swapXToY_of_fits buys, Checked.ok_bind,
      second.trades.swapYToX_of_fits sells]
    nofun

/-- A fee-free pool of some reserves. -/
def feeFreePool
    (byte : UInt8)
    (reserveX reserveY : Fin (2 ^ 64)) : AmmPool where
  reserveX := reserveX.val
  reserveY := reserveY.val
  feeNumerator := 0
  feeDenominator := 1
  poolId := Vector.replicate 32 byte
  reserveXFits := reserveX.isLt.trans (by norm_num)
  reserveYFits := reserveY.isLt.trans (by norm_num)

theorem feeFree_feeFreePool
    {byte : UInt8}
    {reserveX reserveY : Fin (2 ^ 64)}
    (xPositive : 0 < reserveX.val)
    (yPositive : 0 < reserveY.val) :
    (feeFreePool byte reserveX reserveY).FeeFree where
  reserveX := ⟨xPositive, reserveX.isLt⟩
  reserveY := ⟨yPositive, reserveY.isLt⟩
  noFee := rfl
  whole := rfl

/-- Two small pools, whose first gains are 9, 8, 7 and 10. -/
def cheapPool : AmmPool :=
  feeFreePool 1 14 5

def dearPool : AmmPool :=
  feeFreePool 2 20 1

theorem smallPools_searchable (small : maxInput ≤ 2 ^ 64) :
    Searchable cheapPool dearPool maxInput :=
  searchable_of_feeFree (feeFree_feeFreePool (by decide) (by decide))
    (feeFree_feeFreePool (by decide) (by decide)) small

/-- Two pools whose gain rises up to an input of 7. -/
def cheapSmallPool : AmmPool :=
  feeFreePool 1 5 40

def dearSmallPool : AmmPool :=
  feeFreePool 2 120 5

theorem largest_smallPools_eq {peak : Nat}
    (isPeak :
      Largest (gain cheapSmallPool dearSmallPool) (inputs 12) peak) :
    peak = 7 := by
  have gains :
      ∀ input < 13, 1 ≤ input → input ≠ 7 →
        gain cheapSmallPool dearSmallPool input <
          gain cheapSmallPool dearSmallPool 7 := by
    decide +kernel
  obtain ⟨⟨least, most⟩, largest⟩ := isPeak
  by_contra other
  exact absurd (largest 7 ⟨by decide, by decide⟩)
    (not_le.mpr (gains peak (Nat.lt_succ_of_le most) least other))

/-- Of their first twelve inputs the search finds the best one. -/
theorem twelve_inputs_are_searched :
    FindsBestInput .debug cheapSmallPool dearSmallPool 12 := by
  have searchable : Searchable cheapSmallPool dearSmallPool 12 :=
    searchable_of_feeFree (feeFree_feeFreePool (by decide) (by decide))
      (feeFree_feeFreePool (by decide) (by decide)) (by norm_num)
  have atMost (input : Nat) :
      output cheapSmallPool dearSmallPool input < 2 ^ 7 :=
    (payment_le _ _ _).trans_lt (by decide)
  have falls :
      ∀ first < 13, ∀ second < 13,
        7 ≤ first ∧ first < second →
          gain cheapSmallPool dearSmallPool second ≤
            gain cheapSmallPool dearSmallPool first := by
    decide +kernel
  have rises :
      ∀ second < 8, ∀ first < second,
        1 ≤ first →
          gain cheapSmallPool dearSmallPool first <
            gain cheapSmallPool dearSmallPool second := by
    decide +kernel
  refine findsBestInput_of_guides searchable (by norm_num)
    (fun input _ => ?_) (fun input _ _ => (atMost input).trans (by norm_num))
    fun _ => ⟨?_, ?_⟩
  · have few := atMost input
    unfold gain
    omega
  · intro first second peak less most isPeak below _ better
    obtain rfl := largest_smallPools_eq isPeak
    have most : second ≤ 12 := most
    exact absurd better (not_lt.mpr
      (falls first (by omega) second (by omega) ⟨below, less⟩))
  · intro first second peak least less isPeak above _ worse
    obtain rfl := largest_smallPools_eq isPeak
    exact absurd worse (not_le.mpr
      (rises second (Nat.lt_succ_of_le above) first less least))

/-- Two large pools, whose best inputs are around 333333333333. -/
def cheapDeepPool : AmmPool :=
  feeFreePool 1 1000000000000 2000000000000

def dearDeepPool : AmmPool :=
  feeFreePool 2 2000000000000 1000000000000

/-- A larger gain than the one that is returned has been missed. -/
theorem not_findsBestInput
    {input profit other otherProfit : Nat}
    (returned :
      optimalArbInput profile pool1 pool2 maxInput = .ok (input, profit))
    (inside : (inputs maxInput).Holds other)
    (gains : Gains profile pool1 pool2 other otherProfit)
    (more : profit < otherProfit) :
    ¬ FindsBestInput profile pool1 pool2 maxInput := by
  rintro ⟨_, _, isReturned, largest, -⟩
  obtain ⟨rfl, rfl⟩ :=
    Prod.mk.inj (Except.ok.inj (returned.symm.trans isReturned))
  exact Nat.not_le.mpr more
    (largest other otherProfit inside.1 inside.2 gains)

/--
A round drops the fourth input of the small pools, and 60 rounds leave too many
inputs of the large ones.
-/
theorem best_inputs_are_missed :
    (Searchable cheapPool dearPool 4 ∧
        ¬ FindsBestInput .debug cheapPool dearPool 4) ∧
      Searchable cheapDeepPool dearDeepPool (2 ^ 64) ∧
        ¬ FindsBestInput .debug cheapDeepPool dearDeepPool (2 ^ 64) := by
  have small :
      optimalArbInput .debug cheapPool dearPool 4 = .ok (1, 9) := by
    decide
  have deep :
      optimalArbInput .debug cheapDeepPool dearDeepPool (2 ^ 64) =
        .ok (333123374881, 333333267190) := by
    decide +kernel
  have smallGain : Gains .debug cheapPool dearPool 4 10 := ⟨_, rfl, rfl⟩
  have deepGain :
      Gains .debug cheapDeepPool dearDeepPool 333333333333 333333333334 :=
    ⟨_, rfl, rfl⟩
  refine ⟨⟨smallPools_searchable (by norm_num), ?_⟩, ?_, ?_⟩
  · exact not_findsBestInput small ⟨by decide, by decide⟩ smallGain
      (by norm_num)
  · exact searchable_of_feeFree
      (feeFree_feeFreePool (by decide) (by decide))
      (feeFree_feeFreePool (by decide) (by decide)) (le_refl _)
  · exact not_findsBestInput deep ⟨by decide, by decide⟩ deepGain
      (by norm_num)

end AmmPool

end YieldDaemon
