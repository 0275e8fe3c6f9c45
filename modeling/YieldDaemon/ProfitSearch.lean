import YieldDaemon.BundleAmounts
import YieldDaemon.PeakSearch
import YieldDaemon.ShadowLiquidity

namespace YieldDaemon

open CheckedArithmetic

/-!
# Profits that the solver finds

The ternary search of the solver is the general one over the profit of a
cycle.  What it reports is a real profit inside the interval, since the best
point is one that was visited; what it misses is a profit away from the points
that it visits, or one that the probe in front of it does not see.
-/

namespace SimdSolver

variable
  {profile : Profile}
  {solver : SimdSolver}
  {shadow : StateShadow}
  {cycle : ArbCycle}

/-- The profit of a cycle at an input, and nothing if it does not return. -/
def profit
    (profile : Profile)
    (shadow : StateShadow)
    (cycle : ArbCycle)
    (input : Nat) : Nat :=
  match simulateCycle profile shadow cycle input with
  | .ok output => output - input
  | .error _ => 0

theorem profit_of_simulateCycle
    {input output : Nat}
    (simulated : simulateCycle profile shadow cycle input = .ok output) :
    profit profile shadow cycle input = output - input := by
  rw [profit, simulated]

/-- The solver's search as a search for a peak. -/
def TernarySearch.toSearch (search : TernarySearch) : PeakSearch.Search :=
  ⟨search.lo, search.hi, search.bestInput, search.bestProfit⟩

theorem trackBest_toSearch
    (value : Nat → Nat)
    (search : TernarySearch)
    (input : Nat) :
    (trackBest search input (value input)).toSearch =
      PeakSearch.visit value search.toSearch input := by
  unfold trackBest PeakSearch.visit
  split
  · next better => exact (if_pos better).symm
  · next worse => exact (if_neg worse).symm

/-- The search after the profits at its two inner points. -/
def nextRound (search : TernarySearch) (m1 m2 p1 p2 : Nat) :
    TernarySearch :=
  let tracked := trackBest (trackBest search m1 p1) m2 p2
  let p1Less := if p1 < p2 then 1 else 0
  { tracked with
    lo := p1Less * m1 + (1 - p1Less) * search.lo
    hi := p1Less * search.hi + (1 - p1Less) * m2 }

/-- A round of the solver's search is a round of the search for a peak. -/
theorem nextRound_toSearch
    (value : Nat → Nat)
    (search : TernarySearch)
    {m1 m2 : Nat}
    (isLower : m1 = PeakSearch.lower search.lo search.hi)
    (isUpper : m2 = PeakSearch.upper search.lo search.hi) :
    (nextRound search m1 m2 (value m1) (value m2)).toSearch =
      PeakSearch.narrow value search.toSearch := by
  subst isLower isUpper
  let m1 := PeakSearch.lower search.lo search.hi
  let m2 := PeakSearch.upper search.lo search.hi
  let tracked := trackBest (trackBest search m1 (value m1)) m2 (value m2)
  have visited :
      tracked.toSearch =
        PeakSearch.visit value (PeakSearch.visit value search.toSearch m1)
          m2 := by
    rw [trackBest_toSearch, trackBest_toSearch]
  have lo : tracked.lo = search.lo :=
    (congrArg PeakSearch.Search.lo visited).trans
      (PeakSearch.visit_lo.trans PeakSearch.visit_lo)
  have hi : tracked.hi = search.hi :=
    (congrArg PeakSearch.Search.hi visited).trans
      (PeakSearch.visit_hi.trans PeakSearch.visit_hi)
  rcases Nat.lt_or_ge (value m1) (value m2) with rises | falls
  · have risen :
        PeakSearch.narrow value search.toSearch =
          { PeakSearch.visit value
              (PeakSearch.visit value search.toSearch m1) m2 with
            lo := m1 } :=
      if_pos rises
    rw [risen, nextRound, if_pos rises, ← visited]
    simp [TernarySearch.toSearch, hi, tracked, m1, m2]
  · have fallen :
        PeakSearch.narrow value search.toSearch =
          { PeakSearch.visit value
              (PeakSearch.visit value search.toSearch m1) m2 with
            hi := m2 } :=
      if_neg (Nat.not_lt.mpr falls)
    rw [fallen, nextRound, if_neg (Nat.not_lt.mpr falls), ← visited]
    simp [TernarySearch.toSearch, lo, tracked, m1, m2]

/-- A round on a wide interval simulates both inner points. -/
theorem searchRounds_wide
    {rounds : Nat}
    {search : TernarySearch}
    (ordered : search.lo ≤ search.hi)
    (fits : search.hi < 2 ^ 128)
    (wide : ¬ search.hi - search.lo < 3) :
    searchRounds profile shadow cycle (rounds + 1) search = (do
      let m1 := PeakSearch.lower search.lo search.hi
      let m2 := PeakSearch.upper search.lo search.hi
      let out1 ← simulateCycle profile shadow cycle m1
      let out2 ← simulateCycle profile shadow cycle m2
      searchRounds profile shadow cycle rounds
        (nextRound search m1 m2 (out1 - m1) (out2 - m2))) := by
  rw [searchRounds, sub_of_le ordered, Checked.ok_bind, if_neg wide,
    add_of_lt (by omega), Checked.ok_bind, sub_of_le (by omega),
    Checked.ok_bind]
  rfl

/-- The search ends on a narrow interval. -/
theorem searchRounds_narrow
    {rounds : Nat}
    {search : TernarySearch}
    (ordered : search.lo ≤ search.hi)
    (narrow : search.hi - search.lo < 3) :
    searchRounds profile shadow cycle (rounds + 1) search = .ok search := by
  rw [searchRounds, sub_of_le ordered, Checked.ok_bind, if_pos narrow]
  rfl

section Searches

variable
  {bottom top rounds : Nat}
  {search found : TernarySearch}

/-- The next search of a returning round lies between the same bounds. -/
theorem within_nextRound
    (value : Nat → Nat)
    (within : PeakSearch.Within bottom top search.toSearch) :
    PeakSearch.Within bottom top
      (nextRound search (PeakSearch.lower search.lo search.hi)
        (PeakSearch.upper search.lo search.hi)
        (value (PeakSearch.lower search.lo search.hi))
        (value (PeakSearch.upper search.lo search.hi))).toSearch := by
  rw [nextRound_toSearch value search rfl rfl]
  exact within.narrow

/-- A search that returns has run the search for the peak of the profit. -/
theorem searchRounds_eq_run
    (within : PeakSearch.Within bottom top search.toSearch)
    (fits : top < 2 ^ 128)
    (searched :
      searchRounds profile shadow cycle rounds search = .ok found) :
    found.toSearch =
      PeakSearch.run (profit profile shadow cycle) rounds
        search.toSearch := by
  induction rounds generalizing search with
  | zero =>
      obtain rfl := Except.ok.inj searched
      rfl
  | succ rounds inductionHypothesis =>
      by_cases narrow : search.hi - search.lo < 3
      · rw [searchRounds_narrow within.ordered narrow] at searched
        obtain rfl := Except.ok.inj searched
        exact (if_pos narrow).symm
      · rw [searchRounds_wide within.ordered
          (within.most.trans_lt fits) narrow] at searched
        obtain ⟨out1, simulated1, searched⟩ := Checked.bind_eq_ok.mp searched
        obtain ⟨out2, simulated2, searched⟩ := Checked.bind_eq_ok.mp searched
        rw [← profit_of_simulateCycle simulated1,
          ← profit_of_simulateCycle simulated2] at searched
        rw [inductionHypothesis (within_nextRound _ within) searched,
          nextRound_toSearch _ search rfl rfl]
        exact (if_neg narrow).symm

/-- A search returns if the cycle does on the whole interval. -/
theorem searchRounds_returns
    (within : PeakSearch.Within bottom top search.toSearch)
    (fits : top < 2 ^ 128)
    (returns :
      ∀ input, bottom ≤ input → input ≤ top →
        ∃ output, simulateCycle profile shadow cycle input = .ok output) :
    ∃ found, searchRounds profile shadow cycle rounds search = .ok found := by
  induction rounds generalizing search with
  | zero =>
      exact ⟨search, rfl⟩
  | succ rounds inductionHypothesis =>
      by_cases narrow : search.hi - search.lo < 3
      · exact ⟨search, searchRounds_narrow within.ordered narrow⟩
      · have m1 := PeakSearch.lower_mem within.ordered
        have m2 := PeakSearch.upper_mem within.ordered
        obtain ⟨out1, simulated1⟩ :=
          returns _ (within.least.trans m1.1) (m1.2.trans within.most)
        obtain ⟨out2, simulated2⟩ :=
          returns _ (within.least.trans m2.1) (m2.2.trans within.most)
        rw [searchRounds_wide within.ordered (within.most.trans_lt fits)
          narrow]
        refine Checked.bind_returns ⟨out1, simulated1⟩ fun first found => ?_
        rw [← profit_of_simulateCycle found]
        refine Checked.bind_returns ⟨out2, simulated2⟩ fun second found => ?_
        rw [← profit_of_simulateCycle found]
        exact inductionHypothesis (within_nextRound _ within)

end Searches

theorem hop_agrees
    (profile : Profile)
    (shadow : StateShadow)
    (cycle : ArbCycle)
    (i amount : Nat) :
    Agrees (hop .debug shadow cycle i amount)
      (hop profile shadow cycle i amount) :=
  (Agrees.refl _).bind fun _ =>
    (Agrees.refl _).bind fun _ =>
      StateShadow.simSwap_agrees profile shadow _ _ _

theorem simulateFrom_agrees
    (profile : Profile)
    (shadow : StateShadow)
    (cycle : ArbCycle)
    (hops : List Nat)
    (amount : Nat) :
    Agrees (simulateFrom .debug shadow cycle hops amount)
      (simulateFrom profile shadow cycle hops amount) := by
  induction hops generalizing amount with
  | nil =>
      exact Agrees.refl _
  | cons i hops inductionHypothesis =>
      rw [simulateFrom_cons, simulateFrom_cons]
      refine (hop_agrees profile shadow cycle i amount).bind fun swapped => ?_
      split
      · exact Agrees.refl _
      · exact inductionHypothesis swapped

/-- No input that the solver may try overflows in the swaps of the cycle. -/
def NoOverflow
    (solver : SimdSolver)
    (shadow : StateShadow)
    (cycle : ArbCycle) : Prop :=
  ∀ input, input ≤ max solver.maxInput 100 →
    simulateCycle .debug shadow cycle input ≠ .error .arithmeticOverflow

/-- Where nothing overflows, all builds simulate the same. -/
theorem NoOverflow.simulateCycle_eq
    (noOverflow : NoOverflow solver shadow cycle)
    (profile : Profile)
    {input : Nat}
    (tried : input ≤ max solver.maxInput 100) :
    simulateCycle profile shadow cycle input =
      simulateCycle .debug shadow cycle input :=
  simulateFrom_agrees profile shadow cycle _ input (noOverflow input tried)

/-- A swap of nothing pays out nothing. -/
theorem simSwap_zero
    {idx out : Nat}
    {xToY : Bool}
    (swapped : shadow.simSwap .debug idx 0 xToY = .ok out) :
    out = 0 := by
  obtain ⟨pool, -, ⟨-, empty⟩ | ⟨-, afterFee, newIn, newOut, charged,
    paidOut⟩⟩ := StateShadow.simSwap_cases swapped
  · exact empty
  · have nothing : afterFee = 0 := by
      rw [StateShadow.amountAfterFee_debug charged, Nat.zero_sub]
    obtain ⟨nonzero, rfl, rfl, kept⟩ :=
      StateShadow.constantProduct_debug paidOut
    -- The product is divided by the reserve that it was made with.
    rw [nothing, Nat.add_zero] at nonzero kept
    rw [Nat.mul_div_cancel_left _ (Nat.pos_of_ne_zero nonzero)] at kept
    exact Nat.add_eq_right.mp kept

/-- A cycle of some hops makes nothing out of nothing. -/
theorem simulateCycle_zero
    {output : Nat}
    (someHop : cycle.poolIndices ≠ [])
    (simulated : simulateCycle .debug shadow cycle 0 = .ok output) :
    output = 0 := by
  obtain ⟨count, isCount⟩ :=
    Nat.exists_eq_succ_of_ne_zero
      (fun none => someHop (List.eq_nil_of_length_eq_zero none))
  rw [simulateCycle, isCount, List.range_succ_eq_map, simulateFrom_cons,
    Checked.bind_eq_ok] at simulated
  obtain ⟨swapped, swap, later⟩ := simulated
  simp only [hop, Checked.bind_eq_ok] at swap
  obtain ⟨poolIdx, -, xToY, -, swap⟩ := swap
  rw [if_pos (simSwap_zero swap)] at later
  exact (Except.ok.inj later).symm

/-- An input that gains is not zero. -/
theorem input_pos_of_gain
    {input output : Nat}
    (someHop : cycle.poolIndices ≠ [])
    (noOverflow : NoOverflow solver shadow cycle)
    (simulated : simulateCycle profile shadow cycle input = .ok output)
    (gain : input < output) :
    0 < input := by
  refine Nat.pos_of_ne_zero fun nothing => ?_
  rw [nothing, noOverflow.simulateCycle_eq profile (Nat.zero_le _)]
    at simulated
  rw [simulateCycle_zero someHop simulated] at gain
  exact Nat.not_lt_zero _ gain

/-- The best input is none, or one of the interval. -/
theorem bestInput_within
    {rounds : Nat}
    {search : TernarySearch}
    (someInput : 1 ≤ solver.maxInput)
    (maxFits : solver.maxInput < 2 ^ 128)
    (searched :
      searchRounds profile shadow cycle rounds ⟨1, solver.maxInput, 0, 0⟩ =
        .ok search) :
    search.bestInput = 0 ∨
      1 ≤ search.bestInput ∧ search.bestInput ≤ solver.maxInput := by
  have start := PeakSearch.within_start someInput
  have within : PeakSearch.Within 1 solver.maxInput search.toSearch := by
    rw [searchRounds_eq_run start maxFits searched]
    exact start.run
  exact within.best

/-- The input that a cycle is probed with. -/
def probeInput (solver : SimdSolver) : Nat :=
  max (solver.maxInput / 1000) 100

/-- Profit in basis points -/
def profitBps (profile : Profile) (netProfit optimalInput : Nat) :
    Checked Nat :=
  if 0 < optimalInput then do
    let scaled ← mul profile 128 netProfit 10000
    let bps ← div scaled optimalInput
    pure (bps % 2 ^ 32)
  else
    pure 0

/-- Both branches of the basis points go on in the same way. -/
theorem profitBps_bind
    {Result : Type}
    (netProfit optimalInput : Nat)
    (next : Nat → Checked Result) :
    (if 0 < optimalInput then do
        let scaled ← mul profile 128 netProfit 10000
        let bps ← div scaled optimalInput
        let shown ← pure (bps % 2 ^ 32)
        next shown
      else do
        let shown ← pure 0
        next shown) =
      profitBps profile netProfit optimalInput >>= next := by
  unfold profitBps
  split
  · simp only [bind_assoc]
  · rfl

/-- What a search and an output are reported as. -/
def report (cycle : ArbCycle) (idx optimalInput maxOutput bps : Nat) :
    ArbResult where
  cycleIdx := idx
  optimalInput := optimalInput
  expectedOutput := maxOutput
  netProfit := maxOutput - optimalInput
  profitBps := bps
  poolSequence := cycle.poolIndices
  directions := cycle.directions

/-- Where the probe and the search both gain, a result is reported. -/
theorem evaluateSingle_of_gain
    {probeOutput optimalInput maxOutput : Nat}
    (nonempty : ¬ (cycle.path = [] ∨ cycle.poolIndices = []))
    (probed :
      simulateCycle profile shadow cycle solver.probeInput =
        .ok probeOutput)
    (probeGains : solver.probeInput < probeOutput)
    (optimal :
      solver.binarySearchOptimal profile shadow cycle =
        .ok (optimalInput, maxOutput))
    (gain : optimalInput < maxOutput)
    (enough : solver.minProfit ≤ maxOutput - optimalInput)
    (idx : Nat) :
    solver.evaluateSingle profile shadow cycle idx = (do
      let bps ← profitBps profile (maxOutput - optimalInput) optimalInput
      return some (report cycle idx optimalInput maxOutput bps)) := by
  rw [evaluateSingle, if_neg nonempty]
  dsimp only
  rw [show max (solver.maxInput / 1000) 100 = solver.probeInput from rfl,
    probed, Checked.ok_bind, if_neg (Nat.not_le.mpr probeGains), optimal,
    Checked.ok_bind]
  dsimp only
  rw [if_neg (Nat.not_le.mpr gain), sub_of_le gain.le, Checked.ok_bind,
    if_neg (Nat.not_lt.mpr enough), profitBps_bind]
  rfl

/-- A cycle is reported exactly if the probe and the search both gain. -/
theorem evaluateSingle_eq_some_iff
    {idx : Nat}
    {result : ArbResult} :
    solver.evaluateSingle profile shadow cycle idx = .ok (some result) ↔
      ¬ (cycle.path = [] ∨ cycle.poolIndices = []) ∧
        ∃ probeOutput search maxOutput bps,
          simulateCycle profile shadow cycle solver.probeInput =
              .ok probeOutput ∧
            solver.probeInput < probeOutput ∧
            searchRounds profile shadow cycle solver.searchIterations
              ⟨1, solver.maxInput, 0, 0⟩ = .ok search ∧
            simulateCycle profile shadow cycle search.bestInput =
              .ok maxOutput ∧
            search.bestInput < maxOutput ∧
            solver.minProfit ≤ maxOutput - search.bestInput ∧
            profitBps profile (maxOutput - search.bestInput)
              search.bestInput = .ok bps ∧
            report cycle idx search.bestInput maxOutput bps = result := by
  constructor
  · intro evaluated
    simp only [evaluateSingle] at evaluated
    split at evaluated
    · cases evaluated
    next nonempty =>
    simp only [Checked.bind_eq_ok] at evaluated
    obtain ⟨probeOutput, probed, evaluated⟩ := evaluated
    split at evaluated
    · cases evaluated
    next probeGains =>
    simp only [Checked.bind_eq_ok, binarySearchOptimal] at evaluated
    obtain ⟨⟨optimalInput, maxOutput⟩, ⟨search, searched, output, simulated,
      shape⟩, evaluated⟩ := evaluated
    obtain ⟨rfl, rfl⟩ := Prod.mk.inj (Except.ok.inj shape)
    split at evaluated
    · cases evaluated
    next gains =>
    have gain := Nat.not_le.mp gains
    rw [sub_of_le gain.le, Checked.ok_bind] at evaluated
    split at evaluated
    · cases evaluated
    next enough =>
    rw [profitBps_bind, Checked.bind_eq_ok] at evaluated
    obtain ⟨bps, scaled, shape⟩ := evaluated
    exact ⟨nonempty, probeOutput, search, output, bps, probed,
      Nat.not_le.mp probeGains, searched, simulated, gain,
      Nat.not_lt.mp enough, scaled, Option.some.inj (Except.ok.inj shape)⟩
  · rintro ⟨nonempty, probeOutput, search, maxOutput, bps, probed, probeGains,
      searched, simulated, gain, enough, scaled, rfl⟩
    have optimal :
        solver.binarySearchOptimal profile shadow cycle =
          .ok (search.bestInput, maxOutput) := by
      rw [binarySearchOptimal, searched, Checked.ok_bind, simulated]
      rfl
    rw [evaluateSingle_of_gain nonempty probed probeGains optimal gain enough,
      scaled]
    rfl

/-- A result is a profit that the cycle makes at an input in the interval. -/
structure IsReal
    (profile : Profile)
    (solver : SimdSolver)
    (shadow : StateShadow)
    (cycle : ArbCycle)
    (result : ArbResult) : Prop where
  pools : result.poolSequence = cycle.poolIndices
  directions : result.directions = cycle.directions
  atLeastOne : 1 ≤ result.optimalInput
  atMost : result.optimalInput ≤ solver.maxInput
  output :
    simulateCycle profile shadow cycle result.optimalInput =
      .ok result.expectedOutput
  netProfit :
    result.netProfit = result.expectedOutput - result.optimalInput
  gain : result.optimalInput < result.expectedOutput
  enough : max solver.minProfit 1 ≤ result.netProfit

theorem isReal_of_evaluateSingle
    {idx : Nat}
    {result : ArbResult}
    (someInput : 1 ≤ solver.maxInput)
    (maxFits : solver.maxInput < 2 ^ 128)
    (noOverflow : NoOverflow solver shadow cycle)
    (evaluated :
      solver.evaluateSingle profile shadow cycle idx = .ok (some result)) :
    IsReal profile solver shadow cycle result := by
  obtain ⟨nonempty, probeOutput, search, maxOutput, bps, -, -, searched,
    simulated, gain, enough, -, rfl⟩ := evaluateSingle_eq_some_iff.mp evaluated
  have positive :=
    input_pos_of_gain (fun none => nonempty (.inr none)) noOverflow simulated
      gain
  obtain ⟨atLeastOne, atMost⟩ :=
    (bestInput_within someInput maxFits searched).resolve_left
      (Nat.ne_of_gt positive)
  exact
    { pools := rfl
      directions := rfl
      atLeastOne := atLeastOne
      atMost := atMost
      output := simulated
      netProfit := rfl
      gain := gain
      enough := max_le enough (Nat.sub_pos_of_lt gain) }

/--
The results of a batch: each is a real profit of a cycle of its own, and they
are sorted by profit.
-/
structure Reports
    (profile : Profile)
    (solver : SimdSolver)
    (shadow : StateShadow)
    (cycles : List ArbCycle)
    (results : List ArbResult) : Prop where
  real :
    ∃ found : List (ArbCycle × ArbResult),
      (found.map Prod.fst).Sublist cycles ∧
        results.Perm (found.map Prod.snd) ∧
        ∀ entry ∈ found, IsReal profile solver shadow entry.1 entry.2
  sorted :
    results.Pairwise
      (fun first second => second.netProfit ≤ first.netProfit)

/-- The results that are collected from the cycles one after the other. -/
theorem foldlM_evaluateNext
    {cycles : List ArbCycle}
    {results collected : List ArbResult}
    (someInput : 1 ≤ solver.maxInput)
    (maxFits : solver.maxInput < 2 ^ 128)
    (noOverflow : ∀ cycle ∈ cycles, NoOverflow solver shadow cycle)
    (evaluated :
      cycles.foldlM (solver.evaluateNext profile shadow) results =
        .ok collected) :
    ∃ found : List (ArbCycle × ArbResult),
      (found.map Prod.fst).Sublist cycles ∧
        collected = results ++ found.map Prod.snd ∧
        ∀ entry ∈ found, IsReal profile solver shadow entry.1 entry.2 := by
  induction cycles generalizing results with
  | nil =>
      obtain rfl := Except.ok.inj evaluated
      exact ⟨[], List.Sublist.refl _, by simp, List.forall_mem_nil _⟩
  | cons cycle cycles inductionHypothesis =>
      rw [List.forall_mem_cons] at noOverflow
      rw [List.foldlM_cons] at evaluated
      obtain ⟨middle, next, later⟩ := Checked.bind_eq_ok.mp evaluated
      obtain ⟨found, chosen, collectedEq, real⟩ :=
        inductionHypothesis noOverflow.2 later
      simp only [evaluateNext, Checked.bind_eq_ok] at next
      obtain ⟨single, singleEvaluated, shape⟩ := next
      cases single with
      | none =>
          obtain rfl := Except.ok.inj shape
          exact ⟨found, chosen.cons cycle, collectedEq, real⟩
      | some result =>
          obtain rfl := Except.ok.inj shape
          refine ⟨(cycle, result) :: found, chosen.cons_cons cycle, ?_,
            List.forall_mem_cons.mpr ⟨?_, real⟩⟩
          · rw [collectedEq, List.append_assoc]
            rfl
          · exact isReal_of_evaluateSingle someInput maxFits noOverflow.1
              singleEvaluated

/-- Every opportunity that a batch reports is real. -/
theorem evaluateBatch_reports_real_profits
    {profitSort : ProfitSort}
    {cycles : List ArbCycle}
    {results : List ArbResult}
    (someInput : 1 ≤ solver.maxInput)
    (maxFits : solver.maxInput < 2 ^ 128)
    (noOverflow : ∀ cycle ∈ cycles, NoOverflow solver shadow cycle)
    (evaluated :
      solver.evaluateBatch profile profitSort shadow cycles = .ok results) :
    Reports profile solver shadow cycles results := by
  simp only [evaluateBatch, Checked.bind_eq_ok, Checked.pure_eq_ok,
    Except.ok.injEq] at evaluated
  obtain ⟨collected, evaluatedAll, rfl⟩ := evaluated
  obtain ⟨found, chosen, rfl, real⟩ :=
    foldlM_evaluateNext someInput maxFits noOverflow evaluatedAll
  exact ⟨⟨found, chosen, profitSort.perm _, real⟩, profitSort.sorted _⟩

theorem crossCycle_noOverflow :
    NoOverflow Aste.crossEngine.solver Aste.crossShadow Aste.crossCycle := by
  unfold NoOverflow
  decide +kernel

/-- The cycle through two pools is reported with a profit of 208. -/
theorem cross_cycle_is_reported :
    ∃ results,
      Aste.crossEngine.solver.evaluateBatch .debug stableSort
          Aste.crossShadow [Aste.crossCycle] = .ok results ∧
        Aste.crossResult ∈ results ∧
        Reports .debug Aste.crossEngine.solver Aste.crossShadow
          [Aste.crossCycle] results := by
  have member : Aste.crossResult ∈ stableSort.sort [Aste.crossResult] :=
    (stableSort.perm [Aste.crossResult]).mem_iff.mpr List.mem_cons_self
  exact ⟨stableSort.sort [Aste.crossResult], rfl, member,
    evaluateBatch_reports_real_profits (by decide) (by decide)
      (List.forall_mem_singleton.mpr crossCycle_noOverflow) rfl⟩

end SimdSolver

end YieldDaemon
