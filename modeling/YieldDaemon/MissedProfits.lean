import YieldDaemon.ProfitSearch
import YieldDaemon.ShadowBounds

namespace YieldDaemon

open CheckedArithmetic

/-!
# Profits that the solver misses

A cycle is probed with a thousandth of the largest input before anything is
searched, and the search keeps the best of the points that it happens to
visit.  A profitable cycle is reported exactly if the probe gains and one of
these points is profitable enough, which a wide peak of the profit guarantees.
-/

namespace SimdSolver

variable
  {profile : Profile}
  {solver : SimdSolver}
  {shadow : StateShadow}
  {cycle : ArbCycle}

/-- A hop names a pool and a direction, and its fee can be charged. -/
def CanSwap (shadow : StateShadow) (cycle : ArbCycle) (i : Nat) : Prop :=
  ∃ (pool : PoolIdx) (xToY : Bool),
    index cycle.poolIndices i = .ok pool.val ∧
      index cycle.directions i = .ok xToY ∧
      (shadow.specReserveX pool = 0 ∨ shadow.specReserveY pool = 0 ∨
        shadow.feeDen pool ≠ 0)

/-- A hop that has been swapped once can be swapped. -/
theorem canSwap_of_hop
    {i amount swapped : Nat}
    (swap : hop profile shadow cycle i amount = .ok swapped) :
    CanSwap shadow cycle i := by
  simp only [hop, Checked.bind_eq_ok] at swap
  obtain ⟨poolIdx, poolFound, xToY, directionFound, swap⟩ := swap
  obtain ⟨pool, rfl, ⟨empty, -⟩ | ⟨-, afterFee, -, -, charged, -⟩⟩ :=
    StateShadow.simSwap_cases swap
  · exact ⟨pool, xToY, poolFound, directionFound, empty.imp_right .inl⟩
  · refine ⟨pool, xToY, poolFound, directionFound,
      .inr (.inr fun zero => ?_)⟩
    rw [zero] at charged
    exact StateShadow.amountAfterFee_zero _ _ _ _ charged

/-- A hop that can be swapped panics only on an overflow. -/
theorem hop_ne_error
    {i : Nat}
    {reason : Panic}
    (canSwap : CanSwap shadow cycle i)
    (noOverflow : reason ≠ .arithmeticOverflow)
    (amount : Nat) :
    hop .debug shadow cycle i amount ≠ .error reason := by
  obtain ⟨pool, xToY, poolFound, directionFound, swappable⟩ := canSwap
  rw [hop, poolFound, Checked.ok_bind, directionFound, Checked.ok_bind]
  refine StateShadow.simSwap_ne_error ?_ ?_
  · intro funded
    rw [not_or] at funded
    exact StateShadow.amountAfterFee_ne_error
      ((swappable.resolve_left funded.1).resolve_left funded.2) noOverflow
  · intro funded afterFee _
    rw [not_or] at funded
    refine StateShadow.constantProduct_ne_error ?_ noOverflow
    cases xToY with
    | true => exact Nat.pos_of_ne_zero funded.1
    | false => exact Nat.pos_of_ne_zero funded.2

/-- So does a cycle of such hops. -/
theorem simulateFrom_ne_error
    {hops : List Nat}
    {reason : Panic}
    (canSwap : ∀ i ∈ hops, CanSwap shadow cycle i)
    (noOverflow : reason ≠ .arithmeticOverflow)
    (amount : Nat) :
    simulateFrom .debug shadow cycle hops amount ≠ .error reason := by
  induction hops generalizing amount with
  | nil =>
      nofun
  | cons i hops inductionHypothesis =>
      rw [List.forall_mem_cons] at canSwap
      rw [simulateFrom_cons]
      apply Checked.bind_ne_error
        (hop_ne_error canSwap.1 noOverflow amount)
      intro swapped _
      split
      · nofun
      · exact inductionHypothesis canSwap.2 swapped

/-- Without an overflow a cycle of such hops is simulated for every input. -/
theorem simulateCycle_returns
    (canSwap : ∀ i < cycle.poolIndices.length, CanSwap shadow cycle i)
    (noOverflow : NoOverflow solver shadow cycle)
    (profile : Profile)
    {input : Nat}
    (tried : input ≤ max solver.maxInput 100) :
    ∃ output, simulateCycle profile shadow cycle input = .ok output := by
  rw [noOverflow.simulateCycle_eq profile tried]
  cases simulated : simulateCycle .debug shadow cycle input with
  | ok output =>
      exact ⟨output, rfl⟩
  | error reason =>
      by_cases overflow : reason = .arithmeticOverflow
      · rw [overflow] at simulated
        exact absurd simulated (noOverflow input tried)
      · exact absurd simulated
          (simulateFrom_ne_error
            (fun i member => canSwap i (List.mem_range.mp member))
            overflow input)

/-- Some input of the interval makes a profit that is worth reporting. -/
def Profitable
    (profile : Profile)
    (solver : SimdSolver)
    (shadow : StateShadow)
    (cycle : ArbCycle) : Prop :=
  ∃ input output,
    1 ≤ input ∧ input ≤ solver.maxInput ∧
      simulateCycle profile shadow cycle input = .ok output ∧
      max solver.minProfit 1 ≤ output - input

/-- The points that the ternary search visits. -/
def visitedPoints
    (profile : Profile)
    (solver : SimdSolver)
    (shadow : StateShadow)
    (cycle : ArbCycle) : List Nat :=
  PeakSearch.points (profit profile shadow cycle) solver.searchIterations 1
    solver.maxInput

/--
The probe gains, a visited point is worth reporting, and a debug build can
scale the visited profits to basis points.
-/
structure Seen
    (profile : Profile)
    (solver : SimdSolver)
    (shadow : StateShadow)
    (cycle : ArbCycle) : Prop where
  probe : 0 < profit profile shadow cycle solver.probeInput
  visited :
    ∃ point ∈ solver.visitedPoints profile shadow cycle,
      max solver.minProfit 1 ≤ profit profile shadow cycle point
  scales :
    profile = .debug →
      ∀ point ∈ solver.visitedPoints profile shadow cycle,
        profit profile shadow cycle point * 10000 < 2 ^ 128

/-- A cycle that makes a profit somewhere can be simulated everywhere. -/
theorem Profitable.canSwap
    (profitable : Profitable profile solver shadow cycle) :
    ∀ i < cycle.poolIndices.length, CanSwap shadow cycle i := by
  obtain ⟨input, output, -, -, simulated, enough⟩ := profitable
  have positive : output ≠ 0 := by omega
  obtain ⟨amounts, path⟩ := path_of_simulateFrom simulated positive
  intro i inRange
  obtain ⟨entering, swapped, swap⟩ :=
    path.hop_returns i (List.mem_range.mpr inRange)
  exact canSwap_of_hop swap

theorem profit_zero
    (someHop : cycle.poolIndices ≠ [])
    (noOverflow : NoOverflow solver shadow cycle) :
    profit profile shadow cycle 0 = 0 := by
  rw [profit, noOverflow.simulateCycle_eq profile (Nat.zero_le _)]
  cases simulated : simulateCycle .debug shadow cycle 0 with
  | ok output =>
      exact simulateCycle_zero someHop simulated
  | error _ =>
      rfl

/-- The best input of a search has the largest of the visited profits. -/
theorem le_profit_best_iff
    {search : TernarySearch}
    {bound : Nat}
    (someHop : cycle.poolIndices ≠ [])
    (someInput : 1 ≤ solver.maxInput)
    (maxFits : solver.maxInput < 2 ^ 128)
    (noOverflow : NoOverflow solver shadow cycle)
    (searched :
      searchRounds profile shadow cycle solver.searchIterations
        ⟨1, solver.maxInput, 0, 0⟩ = .ok search)
    (positive : 0 < bound) :
    bound ≤ profit profile shadow cycle search.bestInput ↔
      ∃ point ∈ solver.visitedPoints profile shadow cycle,
        bound ≤ profit profile shadow cycle point := by
  have isRun :=
    searchRounds_eq_run (PeakSearch.within_start someInput) maxFits searched
  have tracks :
      PeakSearch.Tracks (profit profile shadow cycle) search.toSearch := by
    rw [isRun]
    exact PeakSearch.tracks_start.run
  have best :
      search.toSearch.bestValue =
        profit profile shadow cycle search.bestInput := by
    rcases tracks with ⟨nothing, zero⟩ | isBest
    · have noInput : search.bestInput = 0 := nothing
      rw [zero, noInput, profit_zero someHop noOverflow]
    · exact isBest
  rw [← best, isRun, PeakSearch.le_run_bestValue_iff]
  exact or_iff_right (Nat.not_le.mpr positive)

/-- The scaling to basis points fails only on an overflow in a debug build. -/
theorem profitBps_returns_iff
    {netProfit optimalInput : Nat}
    (someInput : 0 < optimalInput) :
    (∃ bps, profitBps profile netProfit optimalInput = .ok bps) ↔
      (profile = .debug → netProfit * 10000 < 2 ^ 128) := by
  rw [profitBps, if_pos someInput]
  constructor
  · rintro ⟨bps, scaled⟩ rfl
    simp only [Checked.bind_eq_ok, mul_debug_eq_ok] at scaled
    obtain ⟨product, ⟨fits, -⟩, -⟩ := scaled
    exact fits
  · intro fits
    have scales :
        ∃ scaled, mul profile 128 netProfit 10000 = .ok scaled := by
      cases profile with
      | debug =>
          exact ⟨_, mul_debug_eq_ok.mpr ⟨fits rfl, rfl⟩⟩
      | release =>
          exact mul_release_returns 128 netProfit 10000
    refine Checked.bind_returns scales fun scaled _ => ?_
    refine Checked.bind_returns
      ⟨_, div_eq_ok.mpr ⟨Nat.ne_of_gt someInput, rfl⟩⟩ fun bps _ => ?_
    exact ⟨_, rfl⟩

/-- The whole evaluation of a cycle returns if its hops can be swapped. -/
theorem evaluation_returns
    (someInput : 1 ≤ solver.maxInput)
    (maxFits : solver.maxInput < 2 ^ 128)
    (noOverflow : NoOverflow solver shadow cycle)
    (canSwap : ∀ i < cycle.poolIndices.length, CanSwap shadow cycle i)
    (profile : Profile) :
    ∃ probeOutput search maxOutput,
      simulateCycle profile shadow cycle solver.probeInput =
          .ok probeOutput ∧
        searchRounds profile shadow cycle solver.searchIterations
          ⟨1, solver.maxInput, 0, 0⟩ = .ok search ∧
        simulateCycle profile shadow cycle search.bestInput =
          .ok maxOutput := by
  have returns :
      ∀ input, input ≤ max solver.maxInput 100 →
        ∃ output, simulateCycle profile shadow cycle input = .ok output :=
    fun _ => simulateCycle_returns canSwap noOverflow profile
  have searches :
      ∃ search,
        searchRounds profile shadow cycle solver.searchIterations
          ⟨1, solver.maxInput, 0, 0⟩ = .ok search :=
    searchRounds_returns (PeakSearch.within_start someInput) maxFits
      fun input _ small => returns input (le_max_of_le_left small)
  obtain ⟨probeOutput, probed⟩ :=
    returns solver.probeInput
      (max_le_max (Nat.div_le_self _ _) (le_refl 100))
  obtain ⟨search, searched⟩ := searches
  have bestFits : search.bestInput ≤ solver.maxInput := by
    rcases bestInput_within someInput maxFits searched with nothing | inside
    · exact nothing.trans_le (Nat.zero_le _)
    · exact inside.2
  obtain ⟨maxOutput, simulated⟩ :=
    returns search.bestInput (le_max_of_le_left bestFits)
  exact ⟨probeOutput, search, maxOutput, probed, searched, simulated⟩

/-- A cycle is reported exactly if the probe and the best input gain. -/
theorem reported_iff
    {probeOutput maxOutput : Nat}
    {search : TernarySearch}
    (nonempty : ¬ (cycle.path = [] ∨ cycle.poolIndices = []))
    (probed :
      simulateCycle profile shadow cycle solver.probeInput =
        .ok probeOutput)
    (searched :
      searchRounds profile shadow cycle solver.searchIterations
        ⟨1, solver.maxInput, 0, 0⟩ = .ok search)
    (simulated :
      simulateCycle profile shadow cycle search.bestInput = .ok maxOutput)
    (idx : Nat) :
    (∃ result,
        solver.evaluateSingle profile shadow cycle idx =
          .ok (some result)) ↔
      solver.probeInput < probeOutput ∧
        search.bestInput < maxOutput ∧
        solver.minProfit ≤ maxOutput - search.bestInput ∧
        ∃ bps,
          profitBps profile (maxOutput - search.bestInput)
            search.bestInput = .ok bps := by
  constructor
  · rintro ⟨result, evaluated⟩
    obtain ⟨-, output, found, largest, bps, isProbe, probeGains, isSearch,
      isLargest, gain, enough, scaled, -⟩ :=
      evaluateSingle_eq_some_iff.mp evaluated
    obtain rfl := Except.ok.inj (probed.symm.trans isProbe)
    obtain rfl := Except.ok.inj (searched.symm.trans isSearch)
    obtain rfl := Except.ok.inj (simulated.symm.trans isLargest)
    exact ⟨probeGains, gain, enough, bps, scaled⟩
  · rintro ⟨probeGains, gain, enough, bps, scaled⟩
    exact ⟨_, evaluateSingle_eq_some_iff.mpr
      ⟨nonempty, probeOutput, search, maxOutput, bps, probed, probeGains,
        searched, simulated, gain, enough, scaled, rfl⟩⟩

/-- A cycle that can be simulated is reported exactly if it is seen. -/
theorem reported_iff_seen
    (nonempty : ¬ (cycle.path = [] ∨ cycle.poolIndices = []))
    (someInput : 1 ≤ solver.maxInput)
    (maxFits : solver.maxInput < 2 ^ 128)
    (noOverflow : NoOverflow solver shadow cycle)
    (canSwap : ∀ i < cycle.poolIndices.length, CanSwap shadow cycle i)
    (idx : Nat) :
    (∃ result,
        solver.evaluateSingle profile shadow cycle idx =
          .ok (some result)) ↔
      Seen profile solver shadow cycle := by
  have someHop : cycle.poolIndices ≠ [] :=
    fun none => nonempty (.inr none)
  have enoughPositive : 0 < max solver.minProfit 1 :=
    le_max_right solver.minProfit 1
  obtain ⟨probeOutput, search, maxOutput, probed, searched, simulated⟩ :=
    evaluation_returns someInput maxFits noOverflow canSwap profile
  have best :
      ∀ bound, 0 < bound →
        (bound ≤ maxOutput - search.bestInput ↔
          ∃ point ∈ solver.visitedPoints profile shadow cycle,
            bound ≤ profit profile shadow cycle point) := by
    intro bound positive
    rw [← profit_of_simulateCycle simulated]
    exact le_profit_best_iff someHop someInput maxFits noOverflow searched
      positive
  rw [reported_iff nonempty probed searched simulated idx]
  constructor
  · rintro ⟨probeGains, gain, enough, scales⟩
    have positive := input_pos_of_gain someHop noOverflow simulated gain
    have fits := (profitBps_returns_iff positive).mp scales
    refine
      { probe := ?_
        visited :=
          (best _ enoughPositive).mp
            (max_le enough (Nat.sub_pos_of_lt gain))
        scales := fun isDebug point visited => ?_ }
    · rw [profit_of_simulateCycle probed]
      exact Nat.sub_pos_of_lt probeGains
    · -- The profit of the best input is the largest of the visited ones.
      rcases Nat.eq_zero_or_pos (profit profile shadow cycle point)
        with zero | some
      · rw [zero, Nat.zero_mul]
        exact Nat.two_pow_pos 128
      · have smaller := (best _ some).mpr ⟨point, visited, le_refl _⟩
        exact (Nat.mul_le_mul_right 10000 smaller).trans_lt (fits isDebug)
  · intro seen
    have enough := (best _ enoughPositive).mpr seen.visited
    have gain : search.bestInput < maxOutput :=
      Nat.lt_of_sub_pos (enoughPositive.trans_le enough)
    have probeGains := seen.probe
    rw [profit_of_simulateCycle probed] at probeGains
    have positive := input_pos_of_gain someHop noOverflow simulated gain
    refine ⟨Nat.lt_of_sub_pos probeGains, gain,
      (le_max_left _ _).trans enough, (profitBps_returns_iff positive).mpr ?_⟩
    intro isDebug
    obtain ⟨point, visited, larger⟩ :=
      (best _ (Nat.sub_pos_of_lt gain)).mp (le_refl _)
    exact (Nat.mul_le_mul_right 10000 larger).trans_lt
      (seen.scales isDebug point visited)

/--
No profit is missed exactly if every profitable cycle is seen by the probe
and by the search.
-/
theorem misses_nothing_iff_seen
    (nonempty : ¬ (cycle.path = [] ∨ cycle.poolIndices = []))
    (someInput : 1 ≤ solver.maxInput)
    (maxFits : solver.maxInput < 2 ^ 128)
    (noOverflow : NoOverflow solver shadow cycle)
    (idx : Nat) :
    (Profitable profile solver shadow cycle →
        ∃ result,
          solver.evaluateSingle profile shadow cycle idx =
            .ok (some result)) ↔
      (Profitable profile solver shadow cycle →
        Seen profile solver shadow cycle) :=
  imp_congr_right fun profitable =>
    reported_iff_seen nonempty someInput maxFits noOverflow
      profitable.canSwap idx

/--
The probe gains, and the inputs from `first` to `last` are worth reporting: the
profit rises towards them and does not rise behind them, and they are too many
to be stepped over by the rounds of the search.  In a debug build all profits
can be scaled to basis points.
-/
structure Prominent
    (profile : Profile)
    (solver : SimdSolver)
    (shadow : StateShadow)
    (cycle : ArbCycle)
    (first last : Nat) : Prop where
  probe : 0 < profit profile shadow cycle solver.probeInput
  enough :
    ∀ input, first ≤ input → input ≤ last →
      max solver.minProfit 1 ≤ profit profile shadow cycle input
  peaks :
    PeakSearch.Peaks (profit profile shadow cycle) 1 solver.maxInput first
      last
  wide :
    (solver.maxInput - 1 - 2) * 2 ^ solver.searchIterations <
      (last - first - 2) * 3 ^ solver.searchIterations
  scales :
    profile = .debug →
      ∀ input, 1 ≤ input → input ≤ solver.maxInput →
        profit profile shadow cycle input * 10000 < 2 ^ 128

theorem Prominent.seen
    {first last : Nat}
    (prominent : Prominent profile solver shadow cycle first last)
    (someInput : 1 ≤ solver.maxInput) :
    Seen profile solver shadow cycle where
  probe := prominent.probe
  visited := by
    obtain ⟨point, visited, atLeast, atMost⟩ :=
      prominent.peaks.exists_point (le_refl 1) prominent.peaks.least
        prominent.peaks.most (le_refl _) prominent.wide
    exact ⟨point, visited, prominent.enough point atLeast atMost⟩
  scales := by
    intro isDebug point visited
    obtain ⟨least, most⟩ :=
      PeakSearch.points_within someInput visited
    exact prominent.scales isDebug point least most

/-- No profit is missed if every profitable cycle has a prominent peak. -/
theorem evaluateSingle_misses_nothing
    (nonempty : ¬ (cycle.path = [] ∨ cycle.poolIndices = []))
    (someInput : 1 ≤ solver.maxInput)
    (maxFits : solver.maxInput < 2 ^ 128)
    (noOverflow : NoOverflow solver shadow cycle)
    (prominent :
      Profitable profile solver shadow cycle →
        ∃ first last, Prominent profile solver shadow cycle first last)
    (profitable : Profitable profile solver shadow cycle)
    (idx : Nat) :
    ∃ result,
      solver.evaluateSingle profile shadow cycle idx = .ok (some result) := by
  refine (misses_nothing_iff_seen nonempty someInput maxFits noOverflow
    idx).mpr (fun profitable => ?_) profitable
  obtain ⟨first, last, isProminent⟩ := prominent profitable
  exact isProminent.seen someInput

/-- A pool of 64-bit reserves pays out a 64-bit amount. -/
theorem simSwap_lt
    {idx amount out : Nat}
    {xToY : Bool}
    (bounded : ∀ pool, (shadow.view pool).Bounded 0)
    (swapped : shadow.simSwap .debug idx amount xToY = .ok out) :
    out < 2 ^ 64 := by
  obtain ⟨pool, -, ⟨-, rfl⟩ | ⟨-, afterFee, newIn, newOut, -, paidOut⟩⟩ :=
    StateShadow.simSwap_cases swapped
  · exact Nat.two_pow_pos 64
  · have outgoing := (bounded pool).specOut_lt xToY
    obtain ⟨-, -, -, kept⟩ := StateShadow.constantProduct_debug paidOut
    omega

theorem simulateFrom_never_overflows
    {hops : List Nat}
    {amount : Nat}
    (bounded : ∀ pool, (shadow.view pool).Bounded 0)
    (amountSmall : amount < 2 ^ 64) :
    simulateFrom .debug shadow cycle hops amount ≠
      .error .arithmeticOverflow := by
  induction hops generalizing amount with
  | nil =>
      nofun
  | cons i hops inductionHypothesis =>
      rw [simulateFrom_cons]
      apply Checked.bind_ne_error
      · apply Checked.bind_ne_error (index_ne_error (by decide))
        intro poolIdx _
        apply Checked.bind_ne_error (index_ne_error (by decide))
        intro xToY _
        exact StateShadow.simSwap_never_overflows bounded (by decide)
          amountSmall poolIdx xToY
      · intro swapped swap
        split
        · nofun
        · simp only [hop, Checked.bind_eq_ok] at swap
          obtain ⟨poolIdx, -, xToY, -, swap⟩ := swap
          exact inductionHypothesis (simSwap_lt bounded swap)

/-- Pools of 64-bit reserves do not overflow for any 64-bit input. -/
theorem noOverflow_of_bounded
    (bounded : ∀ pool, (shadow.view pool).Bounded 0)
    (maxSmall : solver.maxInput < 2 ^ 64)
    (cycle : ArbCycle) :
    NoOverflow solver shadow cycle :=
  fun _ tried =>
    simulateFrom_never_overflows bounded
      (tried.trans_lt (max_lt maxSmall (by decide)))

/-- A shadow with one more pool, or the same one if that panics. -/
def withPool
    (shadow : StateShadow)
    (entry : StateShadow.Registration) : StateShadow :=
  match shadow.registerPool .debug entry with
  | .ok (_, next) => next
  | .error _ => shadow

theorem withPool_bounded
    {entry : StateShadow.Registration}
    (small : (ShadowOp.register entry).Small)
    (bounded : ∀ pool, (shadow.view pool).Bounded 0)
    (pool : PoolIdx) :
    ((withPool shadow entry).view pool).Bounded 0 := by
  unfold withPool
  split
  · next idx next registered =>
    have performed :
        ShadowOp.Performs .debug shadow (.register entry) next := by
      refine ⟨trivial, ?_⟩
      rw [ShadowOp.apply, registered]
      rfl
    exact ShadowOp.bounded_register small bounded performed pool
  · exact bounded pool

/-- The pools of `Aste.crossShadow`, a thousand times as large. -/
def wideShadow : StateShadow :=
  withPool (withPool StateShadow.new (Aste.crossEntry 1 1000000 2000000))
    (Aste.crossEntry 2 2000000 1000000)

theorem wideShadow_bounded :
    ∀ pool, (wideShadow.view pool).Bounded 0 :=
  withPool_bounded (by simp [ShadowOp.Small, Aste.crossEntry])
    (withPool_bounded (by simp [ShadowOp.Small, Aste.crossEntry])
      (ShadowOp.inRange_new (Nat.two_pow_pos 60)))

/-- The solver of the default configuration probes these pools too high. -/
theorem wide_cycle_is_missed :
    NoOverflow (Aste.new AsteConfig.default).solver wideShadow
        Aste.crossCycle ∧
      Profitable .debug (Aste.new AsteConfig.default).solver wideShadow
        Aste.crossCycle ∧
      (Aste.new AsteConfig.default).solver.evaluateSingle .debug wideShadow
        Aste.crossCycle 0 = .ok none := by
  have profitable :
      Profitable .debug (Aste.new AsteConfig.default).solver wideShadow
        Aste.crossCycle :=
    ⟨200000, 500001, by decide, by decide, rfl, by decide⟩
  exact ⟨noOverflow_of_bounded wideShadow_bounded (by decide) _, profitable,
    rfl⟩

/-- A solver for the small pools, whose best inputs are around 330. -/
def peakSolver : SimdSolver :=
  SimdSolver.new 330 600

/-- The small pools are worth reporting from an input of 280 to one of 380. -/
theorem crossCycle_prominent :
    Prominent .debug peakSolver Aste.crossShadow Aste.crossCycle 280 380 := by
  have profits :
      ∀ input < 601,
        profit .debug Aste.crossShadow Aste.crossCycle input < 336 ∧
          (input ≤ 180 →
            profit .debug Aste.crossShadow Aste.crossCycle input ≤ 289) ∧
          (190 ≤ input → input ≤ 280 →
            289 < profit .debug Aste.crossShadow Aste.crossCycle input) ∧
          (280 ≤ input → input ≤ 380 →
            330 ≤ profit .debug Aste.crossShadow Aste.crossCycle input) ∧
          (380 ≤ input → input ≤ 440 →
            310 ≤ profit .debug Aste.crossShadow Aste.crossCycle input) ∧
          (482 ≤ input →
            profit .debug Aste.crossShadow Aste.crossCycle input ≤ 310) := by
    decide +kernel
  refine
    { probe := by decide +kernel
      enough := ?_
      peaks :=
        { least := by decide
          most := by decide
          rises := ?_
          falls := ?_ }
      wide := by decide
      scales := ?_ }
  · intro input atLeast atMost
    exact (profits input (by omega)).2.2.2.1 atLeast atMost
  · intro point other least less below apart
    have low := (profits point (by omega)).2.1 (by omega)
    have high := (profits other (by omega)).2.2.1 (by omega) (by omega)
    exact low.trans_lt high
  · intro point other above less most apart
    have most : other ≤ 600 := most
    have high :=
      (profits point (by omega)).2.2.2.2.1 above.le (by omega)
    have low := (profits other (by omega)).2.2.2.2.2 (by omega)
    exact low.trans high
  · intro _ input _ most
    have small := (profits input (Nat.lt_succ_of_le most)).1
    omega

/-- That solver does not miss the cycle through the small pools. -/
theorem cross_cycle_is_not_missed :
    ∃ result,
      peakSolver.evaluateSingle .debug Aste.crossShadow Aste.crossCycle 0 =
        .ok (some result) := by
  have noOverflow :
      NoOverflow peakSolver Aste.crossShadow Aste.crossCycle := by
    unfold NoOverflow
    decide +kernel
  exact evaluateSingle_misses_nothing (by decide) (by decide) (by decide)
    noOverflow (fun _ => ⟨280, 380, crossCycle_prominent⟩)
    ⟨330, 664, by decide, by decide, rfl, by decide⟩ 0

end SimdSolver

end YieldDaemon
