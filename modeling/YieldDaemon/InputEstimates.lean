import YieldDaemon.PeakSearch
import YieldDaemon.RouteOptimizer

namespace YieldDaemon

open CheckedArithmetic

/-!
# Optimized inputs

The optimizer looks for the best input of a two-leg route by a ternary search
over an estimate that is proportional to the input.  The claimed profit is then
raised to that of the route, whatever the search has found, so it belongs to
the input and the output beside it only if the search has found as much.
-/

deriving instance DecidableEq for OptimalInput

/-- The output of the input is the input and the claimed profit. -/
structure OptimalInput.Consistent (optimal : OptimalInput) : Prop where
  positive : 0 < optimal.inputAmount
  balanced :
    optimal.expectedOutput = optimal.inputAmount + optimal.expectedProfit

namespace RouteOptimizer

/-- The interval that is left and the best input so far. -/
structure InputSearch where
  lo : Nat
  hi : Nat
  bestInput : Nat
  bestProfit : Nat
  bestOutput : Nat

/--
Estimate output using the route's expected profit ratio.  The saturating
subtraction of the source is the one of `Nat`.
-/
def estimatedProfit
    (profile : Profile)
    (route : ArbitrageRoute)
    (input : Nat) : Checked Nat := do
  let product ← mul profile 128 input route.expectedProfit
  return product / 100000 - input

/-- Keep an input whose profit, narrowed to 64 bits, beats the best so far. -/
def tryEstimate
    (profile : Profile)
    (search : InputSearch)
    (input estimate : Nat) : Checked InputSearch :=
  if search.bestProfit < estimate % 2 ^ 64 then do
    let output ← add profile 128 input estimate
    return { search with
      bestInput := input
      bestProfit := estimate % 2 ^ 64
      bestOutput := output }
  else
    return search

/-- Ternary search on profit, with at most the given number of rounds. -/
def searchInput
    (profile : Profile)
    (route : ArbitrageRoute) :
    Nat → InputSearch → Checked InputSearch
  | 0, search => .ok search
  | rounds + 1, search => do
    let width ← sub profile 128 search.hi search.lo
    if width < 3 then
      return search
    else
      let m1 ← add profile 128 search.lo (width / 3)
      let m2 ← sub profile 128 search.hi (width / 3)
      let p1 ← estimatedProfit profile route m1
      let p2 ← estimatedProfit profile route m2
      let first ← tryEstimate profile search m1 p1
      let second ← tryEstimate profile first m2 p2
      searchInput profile route rounds
        (if p1 < p2 then { second with lo := m1 } else { second with hi := m2 })

/-- Optimize the input amount for maximum profit via ternary search. -/
def optimizeInput
    (profile : Profile)
    (_optimizer : RouteOptimizer)
    (route : ArbitrageRoute) : Checked OptimalInput :=
  if route.legs.length ≠ 2 then do
    -- A route not backed by pool data falls back to its own estimate.
    let inputAmount ← mul profile 128 route.expectedProfit 10
    let expectedOutput ← mul profile 128 route.expectedProfit 11
    return ⟨inputAmount, route.expectedProfit, expectedOutput⟩
  else do
    let search ←
      searchInput profile route 60 ⟨1, 10000000000, 0, 0, 0⟩
    return ⟨search.bestInput,
      max search.bestProfit route.expectedProfit, search.bestOutput⟩

variable
  {profile : Profile}
  {route : ArbitrageRoute}
  {rounds input : Nat}
  {search : InputSearch}

/-- The estimate in exact numbers. -/
def estimate (route : ArbitrageRoute) (input : Nat) : Nat :=
  input * route.expectedProfit / 100000 - input

/-- The estimates of the inputs up to 10 SOL fit in 64 bits. -/
def EstimatesFit (route : ArbitrageRoute) : Prop :=
  ∀ input ≤ 10000000000, estimate route input < 2 ^ 64

theorem estimatedProfit_eq
    (profile : Profile)
    (narrow : route.expectedProfit < 2 ^ 64)
    (bounded : input ≤ 10000000000) :
    estimatedProfit profile route input = .ok (estimate route input) := by
  have fits : input * route.expectedProfit < 2 ^ 128 :=
    calc input * route.expectedProfit
        ≤ 10000000000 * 2 ^ 64 := Nat.mul_le_mul bounded narrow.le
      _ < 2 ^ 128 := by norm_num
  rw [estimatedProfit, mul, fit_of_lt fits]
  rfl

/-- The search as one for the peak of a function. -/
def InputSearch.toSearch (search : InputSearch) : PeakSearch.Search :=
  ⟨search.lo, search.hi, search.bestInput, search.bestProfit⟩

/-- The best output is the best input and its profit. -/
def InputSearch.Balanced (search : InputSearch) : Prop :=
  search.bestOutput = search.bestInput + search.bestProfit

/-- An estimate that fits is visited as it is, and the output follows it. -/
theorem tryEstimate_visits
    (profile : Profile)
    (bounded : input ≤ 10000000000)
    (fits : estimate route input < 2 ^ 64)
    (balanced : search.Balanced) :
    ∃ tried,
      tryEstimate profile search input (estimate route input) = .ok tried ∧
        tried.toSearch =
          PeakSearch.visit (estimate route) search.toSearch input ∧
        tried.Balanced := by
  unfold tryEstimate
  rw [Nat.mod_eq_of_lt fits]
  split
  · next better =>
      have sumFits : input + estimate route input < 2 ^ 128 := by
        omega
      rw [add_of_lt sumFits]
      exact ⟨_, rfl, (if_pos better).symm, rfl⟩
  · next worse =>
      exact ⟨search, rfl, (if_neg worse).symm, balanced⟩

/-- The search returns, and has looked for the peak of the estimate. -/
theorem searchInput_runs
    (profile : Profile)
    (narrow : route.expectedProfit < 2 ^ 64)
    (fits : EstimatesFit route)
    (within : PeakSearch.Within 1 10000000000 search.toSearch)
    (balanced : search.Balanced) :
    ∃ found,
      searchInput profile route rounds search = .ok found ∧
        found.toSearch =
          PeakSearch.run (estimate route) rounds search.toSearch ∧
        found.Balanced := by
  induction rounds generalizing search with
  | zero =>
      exact ⟨search, rfl, rfl, balanced⟩
  | succ rounds inductionHypothesis =>
      have ordered : search.lo ≤ search.hi := within.ordered
      have most : search.hi ≤ 10000000000 := within.most
      rw [searchInput, sub_of_le ordered, Checked.ok_bind]
      by_cases done : search.hi - search.lo < 3
      · rw [if_pos done]
        exact ⟨search, rfl, (if_pos done).symm, balanced⟩
      · let m1 := PeakSearch.lower search.lo search.hi
        let m2 := PeakSearch.upper search.lo search.hi
        have m1Inside := PeakSearch.lower_mem ordered
        have m2Inside := PeakSearch.upper_mem ordered
        have m1Bound : m1 ≤ 10000000000 := m1Inside.2.trans most
        have m2Bound : m2 ≤ 10000000000 := m2Inside.2.trans most
        have isLower : search.lo + (search.hi - search.lo) / 3 = m1 := rfl
        have isUpper : search.hi - (search.hi - search.lo) / 3 = m2 := rfl
        have m1Sum : search.lo + (search.hi - search.lo) / 3 < 2 ^ 128 := by
          omega
        have m2Difference : (search.hi - search.lo) / 3 ≤ search.hi := by
          omega
        obtain ⟨first, firstTried, firstVisits, firstBalanced⟩ :=
          tryEstimate_visits profile m1Bound (fits m1 m1Bound) balanced
        obtain ⟨second, secondTried, secondVisits, secondBalanced⟩ :=
          tryEstimate_visits profile m2Bound (fits m2 m2Bound) firstBalanced
        let next :=
          if estimate route m1 < estimate route m2 then
            { second with lo := m1 }
          else
            { second with hi := m2 }
        have nextNarrows :
            next.toSearch =
              PeakSearch.narrow (estimate route) search.toSearch := by
          rw [firstVisits] at secondVisits
          unfold PeakSearch.narrow
          dsimp only [next]
          rw [apply_ite InputSearch.toSearch]
          change (if estimate route m1 < estimate route m2 then
              { second.toSearch with lo := m1 }
            else
              { second.toSearch with hi := m2 }) = _
          rw [secondVisits]
          rfl
        have nextWithin : PeakSearch.Within 1 10000000000 next.toSearch := by
          rw [nextNarrows]
          exact within.narrow
        have nextBalanced : next.Balanced := by
          dsimp only [next]
          split <;> exact secondBalanced
        obtain ⟨found, searched, runs, foundBalanced⟩ :=
          inductionHypothesis nextWithin nextBalanced
        refine ⟨found, ?_, ?_, foundBalanced⟩
        · rw [if_neg done, add_of_lt m1Sum, Checked.ok_bind,
            sub_of_le m2Difference, Checked.ok_bind, isLower, isUpper,
            estimatedProfit_eq profile narrow m1Bound, Checked.ok_bind,
            estimatedProfit_eq profile narrow m2Bound, Checked.ok_bind,
            firstTried, Checked.ok_bind, secondTried, Checked.ok_bind]
          exact searched
        · rw [runs, nextNarrows]
          exact (if_neg done).symm

/-- A small profit is above the estimate of every input up to 10 SOL. -/
theorem estimate_lt_of_small
    (positive : 0 < route.expectedProfit)
    (small : route.expectedProfit ≤ 100001)
    (bounded : input ≤ 10000000000) :
    estimate route input < route.expectedProfit := by
  unfold estimate
  rcases Nat.lt_or_ge 100000 route.expectedProfit with least | none
  · -- The estimate of the profit 100001 is a hundred thousandth of the input.
    have exactly : route.expectedProfit = 100001 :=
      Nat.le_antisymm small least
    rw [exactly]
    omega
  · have noGain : input * route.expectedProfit / 100000 ≤ input :=
      calc input * route.expectedProfit / 100000
          ≤ input * 100000 / 100000 :=
            Nat.div_le_div_right (Nat.mul_le_mul_left input none)
        _ = input := Nat.mul_div_cancel input (by decide)
    rw [Nat.sub_eq_zero_of_le noGain]
    exact positive

/-- A larger profit is reached at the upper point of the first round. -/
theorem le_estimate_of_large (large : 100002 ≤ route.expectedProfit) :
    route.expectedProfit ≤ estimate route 6666666667 := by
  unfold estimate
  omega

/-- The search of the whole interval before its first round. -/
def wholeInterval : InputSearch :=
  ⟨1, 10000000000, 0, 0, 0⟩

theorem wholeInterval_within :
    PeakSearch.Within 1 10000000000 wholeInterval.toSearch :=
  PeakSearch.within_start (by decide)

/-- A profit that the search has found belongs to an input. -/
theorem bestInput_pos
    {found : InputSearch}
    (tracks : PeakSearch.Tracks (estimate route) found.toSearch)
    (gains : 0 < found.bestProfit) :
    0 < found.bestInput := by
  rcases tracks with ⟨-, nothing⟩ | belongs
  · exact absurd nothing gains.ne'
  · by_contra none
    have noInput : found.bestInput = 0 := Nat.eq_zero_of_not_pos none
    have noGain : found.bestProfit = estimate route found.bestInput := belongs
    rw [noInput, estimate, Nat.zero_mul] at noGain
    exact gains.ne' noGain

/-- The search finds the route's profit exactly if that profit is large. -/
theorem le_bestProfit_iff
    {found : InputSearch}
    (positive : 0 < route.expectedProfit)
    (runs :
      found.toSearch =
        PeakSearch.run (estimate route) 60 wholeInterval.toSearch) :
    route.expectedProfit ≤ found.bestProfit ↔
      100002 ≤ route.expectedProfit := by
  have isBest :
      found.bestProfit =
        (PeakSearch.run (estimate route) 60
          wholeInterval.toSearch).bestValue :=
    congrArg PeakSearch.Search.bestValue runs
  constructor
  · intro reached
    by_contra small
    rw [Nat.not_le, Nat.lt_succ_iff] at small
    have tracks :
        PeakSearch.Tracks (estimate route) found.toSearch :=
      runs ▸ PeakSearch.tracks_start.run
    have within : PeakSearch.Within 1 10000000000 found.toSearch :=
      runs ▸ wholeInterval_within.run
    have bounded : found.bestInput ≤ 10000000000 :=
      within.best.elim
        (fun nothing => nothing.trans_le (Nat.zero_le _)) And.right
    rcases tracks with ⟨-, nothing⟩ | belongs
    · exact positive.not_ge (reached.trans_eq nothing)
    · exact (estimate_lt_of_small positive small bounded).not_ge
        (reached.trans_eq belongs)
  · intro large
    rw [isBest, PeakSearch.le_run_bestValue_iff]
    refine .inr ⟨6666666667, ?_, le_estimate_of_large large⟩
    exact List.mem_cons_of_mem _ List.mem_cons_self

/--
An optimized input is consistent exactly if the route has no two legs, and
falls back to its own estimate, or claims a profit of at least 100002.
-/
theorem optimizeInput_consistent_iff
    {route : ArbitrageRoute}
    (positive : 0 < route.expectedProfit)
    (narrow : route.expectedProfit < 2 ^ 64)
    (fits : route.legs.length = 2 → EstimatesFit route)
    (profile : Profile)
    (optimizer : RouteOptimizer) :
    ∃ optimal,
      optimizer.optimizeInput profile route = .ok optimal ∧
        (optimal.Consistent ↔
          route.legs.length ≠ 2 ∨ 100002 ≤ route.expectedProfit) := by
  unfold optimizeInput
  by_cases twoLegs : route.legs.length = 2
  · rw [if_neg (not_not.mpr twoLegs)]
    obtain ⟨found, searched, runs, balanced⟩ :=
      @searchInput_runs route 60 wholeInterval profile narrow (fits twoLegs)
        wholeInterval_within rfl
    have reaches := le_bestProfit_iff positive runs
    refine ⟨⟨found.bestInput, max found.bestProfit route.expectedProfit,
      found.bestOutput⟩, ?_, ?_⟩
    · change searchInput profile route 60 wholeInterval >>= _ = _
      rw [searched]
      rfl
    · rw [← reaches]
      constructor
      · intro consistent
        have output : found.bestOutput =
            found.bestInput + max found.bestProfit route.expectedProfit :=
          consistent.balanced
        rw [balanced, Nat.add_left_cancel_iff] at output
        exact .inr (output ▸ le_max_right _ _)
      · rintro (otherLegs | reached)
        · exact absurd twoLegs otherLegs
        · have tracks :
              PeakSearch.Tracks (estimate route) found.toSearch :=
            runs ▸ PeakSearch.tracks_start.run
          refine ⟨bestInput_pos tracks (positive.trans_le reached), ?_⟩
          rw [max_eq_left reached]
          exact balanced
  · rw [if_pos twoLegs]
    have tenfold : route.expectedProfit * 10 < 2 ^ 128 := by
      omega
    have elevenfold : route.expectedProfit * 11 < 2 ^ 128 := by
      omega
    refine ⟨⟨route.expectedProfit * 10, route.expectedProfit,
      route.expectedProfit * 11⟩, ?_, ?_⟩
    · rw [mul, fit_of_lt tenfold, Checked.ok_bind, mul, fit_of_lt elevenfold]
      rfl
    · refine iff_of_true ⟨Nat.mul_pos positive (by decide), ?_⟩
        (.inl twoLegs)
      exact Nat.mul_succ route.expectedProfit 10

/-- A route of two legs, through the pools of ones and twos. -/
def twoLegRoute (expectedProfit : Nat) : ArbitrageRoute where
  legs := [
    ⟨List.replicate 32 1, List.replicate 32 3, List.replicate 32 4, .xToY⟩,
    ⟨List.replicate 32 2, List.replicate 32 4, List.replicate 32 3, .yToX⟩]
  expectedProfit := expectedProfit

/-- A profit of 200000 doubles every input, and the search finds more. -/
theorem doubled_inputs_are_consistent :
    ∃ optimal,
      (⟨10000⟩ : RouteOptimizer).optimizeInput .debug (twoLegRoute 200000) =
          .ok optimal ∧
        (optimal.Consistent ↔
          (twoLegRoute 200000).legs.length ≠ 2 ∨ 100002 ≤ 200000) :=
  optimizeInput_consistent_iff (by decide) (by decide)
    (fun _ input bounded => by
      unfold estimate
      simp only [twoLegRoute]
      omega)
    .debug ⟨10000⟩

/-- A profit of 20000 is claimed for an input of nothing. -/
theorem nothing_is_claimed_to_gain :
    (⟨10000⟩ : RouteOptimizer).optimizeInput .debug (twoLegRoute 20000) =
        .ok ⟨0, 20000, 0⟩ ∧
      ¬ (⟨0, 20000, 0⟩ : OptimalInput).Consistent :=
  ⟨by decide +kernel, fun consistent => consistent.positive.false⟩

end RouteOptimizer

end YieldDaemon
