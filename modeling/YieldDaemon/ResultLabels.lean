import YieldDaemon.ProfitSearch

namespace YieldDaemon

open CheckedArithmetic

/-!
# Labels of the results

A result of a batch is numbered by the results before it, and its basis points
are cut to 32 bits.  So the results are the opportunities of the batch, each
with its position among the opportunities, in the order of the sort.
-/

namespace SimdSolver

variable
  {profile : Profile}
  {solver : SimdSolver}
  {shadow : StateShadow}
  {cycle : ArbCycle}

/-- The basis points that are stored for a profit. -/
def storedBps (netProfit optimalInput : Nat) : Nat :=
  netProfit * 10000 % 2 ^ 128 / optimalInput % 2 ^ 32

theorem profitBps_eq_storedBps
    {netProfit optimalInput bps : Nat}
    (scaled : profitBps profile netProfit optimalInput = .ok bps) :
    bps = storedBps netProfit optimalInput := by
  unfold profitBps at scaled
  split at scaled
  · simp only [Checked.bind_eq_ok, div_eq_ok] at scaled
    obtain ⟨product, multiplied, quotient, ⟨-, rfl⟩, isBps⟩ := scaled
    obtain rfl := fit_wraps multiplied
    exact (Except.ok.inj isBps).symm
  · next noInput =>
      obtain rfl := Except.ok.inj scaled
      simp [storedBps, Nat.eq_zero_of_not_pos noInput]

/-- Exact basis points are those that neither width cuts. -/
theorem storedBps_exact_iff
    {netProfit optimalInput : Nat}
    (positive : 0 < optimalInput)
    (fits : optimalInput < 2 ^ 128) :
    storedBps netProfit optimalInput = netProfit * 10000 / optimalInput ↔
      netProfit * 10000 < 2 ^ 128 ∧
        netProfit * 10000 / optimalInput < 2 ^ 32 := by
  constructor
  · intro exact
    have small : netProfit * 10000 / optimalInput < 2 ^ 32 :=
      exact ▸ Nat.mod_lt _ (Nat.two_pow_pos 32)
    refine ⟨?_, small⟩
    by_contra wraps
    -- A wrapped product is smaller by more than the input.
    have wrapped :
        netProfit * 10000 % 2 ^ 128 + optimalInput ≤ netProfit * 10000 := by
      omega
    have smaller :
        netProfit * 10000 % 2 ^ 128 / optimalInput + 1 ≤
          netProfit * 10000 / optimalInput := by
      rw [← Nat.add_div_right _ positive]
      exact Nat.div_le_div_right wrapped
    have cut := Nat.mod_le
      (netProfit * 10000 % 2 ^ 128 / optimalInput) (2 ^ 32)
    rw [storedBps] at exact
    omega
  · rintro ⟨product, small⟩
    rw [storedBps, Nat.mod_eq_of_lt product, Nat.mod_eq_of_lt small]

theorem trackBest_lt
    {search : TernarySearch}
    {input bound : Nat}
    (bestSmall : search.bestInput < bound)
    (small : input < bound)
    (profit : Nat) :
    (trackBest search input profit).bestInput < bound := by
  unfold trackBest
  split
  · exact small
  · exact bestSmall

/-- The search keeps its points in 128 bits. -/
theorem searchRounds_fits
    {rounds : Nat}
    {search found : TernarySearch}
    (bestFits : search.bestInput < 2 ^ 128)
    (hiFits : search.hi < 2 ^ 128)
    (searched :
      searchRounds profile shadow cycle rounds search = .ok found) :
    found.bestInput < 2 ^ 128 := by
  induction rounds generalizing search with
  | zero =>
      obtain rfl := Except.ok.inj searched
      exact bestFits
  | succ rounds inductionHypothesis =>
      simp only [searchRounds, Checked.bind_eq_ok] at searched
      obtain ⟨width, -, searched⟩ := searched
      split at searched
      · obtain rfl := Except.ok.inj searched
        exact bestFits
      · simp only [Checked.bind_eq_ok] at searched
        obtain ⟨m1, lower, m2, upper, out1, -, out2, -, searched⟩ := searched
        have m1Fits := fit_lt lower
        have m2Fits := sub_lt hiFits upper
        refine inductionHypothesis ?_ ?_ searched
        · exact trackBest_lt (trackBest_lt bestFits m1Fits _) m2Fits _
        · dsimp only
          split
          · simpa using hiFits
          · simpa using m2Fits

/-- A cycle that gains, with the input and the output that are found for it. -/
structure Opportunity where
  cycle : ArbCycle
  input : Nat
  output : Nat

namespace Opportunity

def profit (found : Opportunity) : Nat :=
  found.output - found.input

/-- What the opportunity is reported as when it is numbered. -/
def result (found : Opportunity) (idx : Nat) : ArbResult :=
  report found.cycle idx found.input found.output
    (storedBps found.profit found.input)

end Opportunity

/-- The opportunity that a cycle is, if the probe and the search both gain. -/
def opportunity
    (profile : Profile)
    (solver : SimdSolver)
    (shadow : StateShadow)
    (cycle : ArbCycle) : Option Opportunity :=
  if cycle.path = [] ∨ cycle.poolIndices = [] then
    none
  else
    match simulateCycle profile shadow cycle solver.probeInput,
      solver.binarySearchOptimal profile shadow cycle with
    | .ok probeOutput, .ok (input, output) =>
      if solver.probeInput < probeOutput ∧ input < output ∧
          solver.minProfit ≤ output - input then
        some ⟨cycle, input, output⟩
      else
        none
    | _, _ => none

/-- The opportunities of a batch, in the order of its cycles. -/
def opportunities
    (profile : Profile)
    (solver : SimdSolver)
    (shadow : StateShadow)
    (cycles : List ArbCycle) : List Opportunity :=
  cycles.filterMap (solver.opportunity profile shadow)

theorem opportunity_eq_some_iff {found : Opportunity} :
    solver.opportunity profile shadow cycle = some found ↔
      ¬ (cycle.path = [] ∨ cycle.poolIndices = []) ∧
        found.cycle = cycle ∧
        (∃ probeOutput,
          simulateCycle profile shadow cycle solver.probeInput =
              .ok probeOutput ∧
            solver.probeInput < probeOutput) ∧
        solver.binarySearchOptimal profile shadow cycle =
          .ok (found.input, found.output) ∧
        found.input < found.output ∧
        solver.minProfit ≤ found.output - found.input := by
  obtain ⟨ofCycle, input, output⟩ := found
  unfold opportunity
  by_cases empty : cycle.path = [] ∨ cycle.poolIndices = []
  · simp [empty]
  rw [if_neg empty]
  cases simulateCycle profile shadow cycle solver.probeInput with
  | error reason =>
      simp
  | ok probeOutput =>
      cases solver.binarySearchOptimal profile shadow cycle with
      | error reason =>
          simp
      | ok optimal =>
          obtain ⟨optimalInput, maxOutput⟩ := optimal
          constructor
          · intro found
            dsimp only at found
            split at found
            · next gains =>
                obtain ⟨rfl, rfl, rfl⟩ :=
                  Opportunity.mk.inj (Option.some.inj found)
                exact ⟨empty, rfl, ⟨_, rfl, gains.1⟩, rfl, gains.2⟩
            · exact absurd found nofun
          · rintro ⟨-, rfl, ⟨_, probed, probeGains⟩, optimal, gains⟩
            obtain rfl := Except.ok.inj probed
            obtain ⟨rfl, rfl⟩ := Prod.mk.inj (Except.ok.inj optimal)
            exact if_pos ⟨probeGains, gains⟩

/-- What an evaluation returns is the numbered opportunity of its cycle. -/
theorem evaluateSingle_eq_opportunity
    {idx : Nat}
    {result : Option ArbResult}
    (evaluated :
      solver.evaluateSingle profile shadow cycle idx = .ok result) :
    result =
      (solver.opportunity profile shadow cycle).map
        (fun found => found.result idx) := by
  cases isFound : solver.opportunity profile shadow cycle with
  | some found =>
      obtain ⟨nonempty, rfl, ⟨probeOutput, probed, probeGains⟩, optimal, gain,
        enough⟩ := opportunity_eq_some_iff.mp isFound
      rw [evaluateSingle_of_gain nonempty probed probeGains optimal gain
        enough, Checked.bind_eq_ok] at evaluated
      obtain ⟨bps, scaled, isResult⟩ := evaluated
      rw [profitBps_eq_storedBps scaled] at isResult
      exact (Except.ok.inj isResult).symm
  | none =>
      cases result with
      | none =>
          rfl
      | some result =>
          obtain ⟨nonempty, probeOutput, search, maxOutput, bps, probed,
            probeGains, searched, simulated, gain, enough, -, -⟩ :=
            evaluateSingle_eq_some_iff.mp evaluated
          have optimal :
              solver.binarySearchOptimal profile shadow cycle =
                .ok (search.bestInput, maxOutput) := by
            rw [binarySearchOptimal, searched, Checked.ok_bind, simulated]
            rfl
          have isOpportunity :
              solver.opportunity profile shadow cycle =
                some ⟨cycle, search.bestInput, maxOutput⟩ :=
            opportunity_eq_some_iff.mpr
              ⟨nonempty, rfl, ⟨probeOutput, probed, probeGains⟩, optimal,
                gain, enough⟩
          rw [isFound] at isOpportunity
          cases isOpportunity

theorem opportunity_fits
    {found : Opportunity}
    (maxFits : solver.maxInput < 2 ^ 128)
    (isFound : solver.opportunity profile shadow cycle = some found) :
    found.input < 2 ^ 128 := by
  obtain ⟨-, -, -, optimal, -⟩ := opportunity_eq_some_iff.mp isFound
  simp only [binarySearchOptimal, Checked.bind_eq_ok] at optimal
  obtain ⟨search, searched, output, -, shape⟩ := optimal
  obtain ⟨sameInput, -⟩ := Prod.mk.inj (Except.ok.inj shape)
  rw [← sameInput]
  exact searchRounds_fits (Nat.two_pow_pos 128) maxFits searched

/-- The results that are collected are the numbered opportunities. -/
theorem foldlM_evaluateNext_eq
    {cycles : List ArbCycle}
    {results collected : List ArbResult}
    (evaluated :
      cycles.foldlM (solver.evaluateNext profile shadow) results =
        .ok collected) :
    collected =
      results ++
        ((solver.opportunities profile shadow cycles).zipIdx
          results.length).map (fun entry => entry.1.result entry.2) := by
  induction cycles generalizing results with
  | nil =>
      obtain rfl := Except.ok.inj evaluated
      simp [opportunities]
  | cons cycle cycles inductionHypothesis =>
      rw [List.foldlM_cons] at evaluated
      obtain ⟨middle, next, later⟩ := Checked.bind_eq_ok.mp evaluated
      simp only [evaluateNext, Checked.bind_eq_ok] at next
      obtain ⟨single, singleEvaluated, shape⟩ := next
      have numbered := evaluateSingle_eq_opportunity singleEvaluated
      rw [inductionHypothesis later]
      simp only [opportunities, List.filterMap_cons]
      cases isFound : solver.opportunity profile shadow cycle with
      | none =>
          rw [isFound] at numbered
          obtain rfl := numbered
          obtain rfl := Except.ok.inj shape
          rfl
      | some found =>
          rw [isFound] at numbered
          obtain rfl := numbered
          obtain rfl := Except.ok.inj shape
          simp

/-- The results of a batch are its opportunities, each with its position. -/
theorem mem_evaluateBatch
    {profitSort : ProfitSort}
    {cycles : List ArbCycle}
    {results : List ArbResult}
    (returned :
      solver.evaluateBatch profile profitSort shadow cycles = .ok results)
    (result : ArbResult) :
    result ∈ results ↔
      ∃ idx, ∃ found : Opportunity,
        (solver.opportunities profile shadow cycles)[idx]? = some found ∧
          found.result idx = result := by
  simp only [evaluateBatch, Checked.bind_eq_ok] at returned
  obtain ⟨collected, evaluated, sorted⟩ := returned
  obtain rfl := Except.ok.inj sorted
  rw [(profitSort.perm collected).mem_iff, foldlM_evaluateNext_eq evaluated]
  simp only [List.nil_append, List.mem_map, List.length_nil, Prod.exists,
    List.mem_zipIdx_iff_getElem?]
  exact exists_comm

/--
A result names the cycle that it was found for, and its basis points are the
quotient of its profit and its input.  There is no quotient without an input.
-/
structure Labelled
    (cycles : List ArbCycle)
    (result : ArbResult) : Prop where
  cycle :
    ∃ cycle : ArbCycle,
      cycles[result.cycleIdx]? = some cycle ∧
        cycle.poolIndices = result.poolSequence ∧
        cycle.directions = result.directions
  someInput : 0 < result.optimalInput
  profitBps :
    result.profitBps = result.netProfit * 10000 / result.optimalInput

/--
Every result is labelled correctly exactly if each opportunity has the hops of
the cycle that stands at its position, and its basis points fit.
-/
theorem results_labelled_iff
    {profitSort : ProfitSort}
    {cycles : List ArbCycle}
    {results : List ArbResult}
    (maxFits : solver.maxInput < 2 ^ 128)
    (returned :
      solver.evaluateBatch profile profitSort shadow cycles = .ok results) :
    (∀ result ∈ results, Labelled cycles result) ↔
      ∀ (idx : Nat) (found : Opportunity),
        (solver.opportunities profile shadow cycles)[idx]? = some found →
          (∃ cycle : ArbCycle,
            cycles[idx]? = some cycle ∧
              cycle.poolIndices = found.cycle.poolIndices ∧
              cycle.directions = found.cycle.directions) ∧
            0 < found.input ∧
            found.profit * 10000 < 2 ^ 128 ∧
            found.profit * 10000 / found.input < 2 ^ 32 := by
  have fits :
      ∀ (idx : Nat) (found : Opportunity),
        (solver.opportunities profile shadow cycles)[idx]? = some found →
          found.input < 2 ^ 128 := by
    intro idx found isFound
    obtain ⟨cycle, -, isOpportunity⟩ :=
      List.mem_filterMap.mp (List.mem_of_getElem? isFound)
    exact opportunity_fits maxFits isOpportunity
  simp only [mem_evaluateBatch returned]
  constructor
  · intro labelled idx found isFound
    obtain ⟨cycle, positive, exact⟩ :=
      labelled _ ⟨idx, found, isFound, rfl⟩
    exact ⟨cycle, positive,
      (storedBps_exact_iff positive (fits idx found isFound)).mp exact⟩
  · rintro correct result ⟨idx, found, isFound, rfl⟩
    obtain ⟨cycle, positive, exact⟩ := correct idx found isFound
    exact ⟨cycle, positive,
      (storedBps_exact_iff positive (fits idx found isFound)).mpr exact⟩

/-- The evaluation of a cycle returns a result. -/
def Accepts
    (profile : Profile)
    (solver : SimdSolver)
    (shadow : StateShadow)
    (cycle : ArbCycle) : Prop :=
  ∃ idx result,
    solver.evaluateSingle profile shadow cycle idx = .ok (some result)

/-- An input that gains is some input, and its exact basis points fit. -/
def ScalesExactly
    (profile : Profile)
    (shadow : StateShadow)
    (cycle : ArbCycle)
    (input : Nat) : Prop :=
  ∀ output,
    simulateCycle profile shadow cycle input = .ok output →
    input < output →
      0 < input ∧
        (output - input) * 10000 < 2 ^ 128 ∧
        (output - input) * 10000 / input < 2 ^ 32

/--
No cycle that is not accepted stands before one that is, and every input that
may be tried for an accepted one scales exactly.  From a largest input of 0 the
search of a release build wraps to inputs beyond it.
-/
structure LabelsFit
    (profile : Profile)
    (solver : SimdSolver)
    (shadow : StateShadow)
    (cycles : List ArbCycle) : Prop where
  acceptedFirst :
    cycles.Pairwise
      (fun first second =>
        solver.Accepts profile shadow second →
          solver.Accepts profile shadow first)
  scales :
    ∀ cycle ∈ cycles,
      solver.Accepts profile shadow cycle →
        ∀ input < 2 ^ 128,
          input ≤ solver.maxInput ∨ solver.maxInput = 0 →
            ScalesExactly profile shadow cycle input

theorem opportunity_isSome_of_accepts
    (accepts : solver.Accepts profile shadow cycle) :
    (solver.opportunity profile shadow cycle).isSome := by
  obtain ⟨idx, result, evaluated⟩ := accepts
  have numbered := evaluateSingle_eq_opportunity evaluated
  cases isFound : solver.opportunity profile shadow cycle with
  | none =>
      rw [isFound] at numbered
      exact absurd numbered nofun
  | some found =>
      rfl

/-- In a batch that returns, the opportunities are the accepted cycles. -/
theorem accepts_of_opportunity
    {profitSort : ProfitSort}
    {cycles : List ArbCycle}
    {results : List ArbResult}
    (returned :
      solver.evaluateBatch profile profitSort shadow cycles = .ok results)
    (member : cycle ∈ cycles)
    {found : Opportunity}
    (isFound : solver.opportunity profile shadow cycle = some found) :
    solver.Accepts profile shadow cycle := by
  simp only [evaluateBatch, Checked.bind_eq_ok] at returned
  obtain ⟨collected, evaluated, -⟩ := returned
  obtain ⟨before, after, ran⟩ := Checked.foldlM_ran evaluated member
  simp only [evaluateNext, Checked.bind_eq_ok] at ran
  obtain ⟨result, single, -⟩ := ran
  have numbered := evaluateSingle_eq_opportunity single
  rw [isFound] at numbered
  exact ⟨before.length, _, numbered ▸ single⟩

/-- Where the kept items come first, they are numbered as they stand. -/
theorem getElem?_of_filterMap
    {Item Kept : Type}
    {keep : Item → Option Kept}
    {items : List Item}
    (keptFirst :
      items.Pairwise
        (fun first second => (keep second).isSome → (keep first).isSome))
    {idx : Nat}
    {kept : Kept}
    (isKept : (items.filterMap keep)[idx]? = some kept) :
    ∃ item, items[idx]? = some item ∧ keep item = some kept := by
  induction items generalizing idx with
  | nil =>
      exact absurd isKept nofun
  | cons item items inductionHypothesis =>
      obtain ⟨behind, keptFirst⟩ := List.pairwise_cons.mp keptFirst
      cases here : keep item with
      | none =>
          -- Nothing behind a dropped item is kept.
          rw [List.filterMap_cons_none here] at isKept
          obtain ⟨other, member, otherKept⟩ :=
            List.mem_filterMap.mp (List.mem_of_getElem? isKept)
          have some := behind other member (by rw [otherKept]; rfl)
          rw [here] at some
          exact absurd some nofun
      | some first =>
          rw [List.filterMap_cons_some here] at isKept
          cases idx with
          | zero =>
              obtain rfl := Option.some.inj isKept
              exact ⟨item, rfl, here⟩
          | succ idx =>
              exact inductionHypothesis keptFirst isKept

/-- An opportunity has an input that the search may try. -/
theorem opportunity_tried
    {found : Opportunity}
    (maxFits : solver.maxInput < 2 ^ 128)
    (isFound : solver.opportunity profile shadow cycle = some found) :
    (found.input ≤ solver.maxInput ∨ solver.maxInput = 0) ∧
      simulateCycle profile shadow cycle found.input =
        .ok found.output := by
  obtain ⟨-, -, -, optimal, -⟩ := opportunity_eq_some_iff.mp isFound
  simp only [binarySearchOptimal, Checked.bind_eq_ok] at optimal
  obtain ⟨search, searched, output, simulated, shape⟩ := optimal
  obtain ⟨sameInput, sameOutput⟩ := Prod.mk.inj (Except.ok.inj shape)
  rw [← sameInput, ← sameOutput]
  refine ⟨?_, simulated⟩
  rcases Nat.eq_zero_or_pos solver.maxInput with none | someInput
  · exact .inr none
  · rcases bestInput_within someInput maxFits searched with nothing | inside
    · exact .inl (nothing.trans_le (Nat.zero_le _))
    · exact .inl inside.2

/--
If no rejected cycle stands before an accepted one, and the basis points of
all inputs that may be tried fit, then every result is labelled correctly.
-/
theorem results_labelled_of_fit
    {profitSort : ProfitSort}
    {cycles : List ArbCycle}
    {results : List ArbResult}
    (maxFits : solver.maxInput < 2 ^ 128)
    (returned :
      solver.evaluateBatch profile profitSort shadow cycles = .ok results)
    (fit : LabelsFit profile solver shadow cycles) :
    ∀ result ∈ results, Labelled cycles result := by
  refine (results_labelled_iff maxFits returned).mpr ?_
  intro idx found isFound
  have foundFirst :
      cycles.Pairwise
        (fun first second =>
          (solver.opportunity profile shadow second).isSome →
            (solver.opportunity profile shadow first).isSome) := by
    refine fit.acceptedFirst.imp_of_mem ?_
    intro first second _ secondMember accepted some
    obtain ⟨other, isOther⟩ := Option.isSome_iff_exists.mp some
    exact opportunity_isSome_of_accepts
      (accepted (accepts_of_opportunity returned secondMember isOther))
  obtain ⟨cycle, atIdx, isOpportunity⟩ :=
    getElem?_of_filterMap foundFirst isFound
  obtain ⟨-, ofCycle, -, -, gain, -⟩ :=
    opportunity_eq_some_iff.mp isOpportunity
  have member := List.mem_of_getElem? atIdx
  obtain ⟨tried, simulated⟩ := opportunity_tried maxFits isOpportunity
  obtain ⟨positive, product, quotient⟩ :=
    fit.scales cycle member
      (accepts_of_opportunity returned member isOpportunity) found.input
      (opportunity_fits maxFits isOpportunity) tried found.output simulated
      gain
  exact ⟨⟨cycle, atIdx, by rw [ofCycle], by rw [ofCycle]⟩, positive, product,
    quotient⟩

/-- The gaining cycle alone, and again behind itself, is labelled correctly. -/
theorem cross_cycle_is_labelled :
    ∃ results,
      Aste.crossEngine.solver.evaluateBatch .debug stableSort
          Aste.crossShadow [Aste.crossCycle, Aste.crossCycle] = .ok results ∧
        ∀ result ∈ results,
          Labelled [Aste.crossCycle, Aste.crossCycle] result := by
  have returned :
      Aste.crossEngine.solver.evaluateBatch .debug stableSort
          Aste.crossShadow [Aste.crossCycle, Aste.crossCycle] =
        .ok (stableSort.sort
          [Aste.crossResult, { Aste.crossResult with cycleIdx := 1 }]) := rfl
  have scales :
      ∀ input ≤ Aste.crossEngine.solver.maxInput,
        ∀ output ∈
          (simulateCycle .debug Aste.crossShadow Aste.crossCycle
            input).toOption,
          input < output →
            0 < input ∧
              (output - input) * 10000 < 2 ^ 128 ∧
              (output - input) * 10000 / input < 2 ^ 32 := by
    decide +kernel
  refine ⟨_, returned, results_labelled_of_fit (by decide) returned
    ⟨by simp, ?_⟩⟩
  intro cycle member _ input _ tried output simulated gain
  obtain rfl : cycle = Aste.crossCycle := by simpa using member
  exact scales input (tried.resolve_right (by decide)) output
    (by rw [simulated]; rfl) gain

/-- The same pools in the other order, where nothing is gained. -/
def backCycle : ArbCycle :=
  ⟨[0, 1, 0], [1, 0], [true, false], 131072⟩

/-- Behind a cycle that gains nothing the same cycle gets its index. -/
theorem cross_cycle_is_mislabelled :
    ∃ results,
      Aste.crossEngine.solver.evaluateBatch .debug stableSort
          Aste.crossShadow [backCycle, Aste.crossCycle] = .ok results ∧
        Aste.crossResult ∈ results ∧
        ¬ Labelled [backCycle, Aste.crossCycle]
          Aste.crossResult := by
  have returned :
      Aste.crossEngine.solver.evaluateBatch .debug stableSort
          Aste.crossShadow [backCycle, Aste.crossCycle] =
        .ok (stableSort.sort [Aste.crossResult]) := rfl
  refine ⟨_, returned,
    (stableSort.perm [Aste.crossResult]).mem_iff.mpr List.mem_cons_self, ?_⟩
  rintro ⟨⟨cycle, isBack, samePools, -⟩, -⟩
  obtain rfl := Option.some.inj isBack
  exact absurd samePools (by decide)

end SimdSolver

end YieldDaemon
