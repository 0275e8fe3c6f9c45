import YieldDaemon.BundleAmounts
import YieldDaemon.EngineSteps
import YieldDaemon.PoolGraph
import YieldDaemon.ResultLabels
import YieldDaemon.SearchResults
import YieldDaemon.ShadowOperations

namespace YieldDaemon

open CheckedArithmetic LabelledRun

/-!
# Routes of the engine

The engine searches a graph that may be older than its shadow.  The edges of the
graph still name registered pools and the tokens that these trade, so every
bundle that the engine builds swaps along a closed route: each swap takes in the
token that the one before pays out, and the last pays out what the first takes.
-/

namespace StateShadow

/-- The registered pools of the first shadow trade the same in the second. -/
structure Extends (first second : StateShadow) : Prop where
  count : first.poolCount ≤ second.poolCount
  tokenIn :
    ∀ pool xToY,
      pool.val < first.poolCount →
        second.tokenIn pool xToY = first.tokenIn pool xToY
  tokenOut :
    ∀ pool xToY,
      pool.val < first.poolCount →
        second.tokenOut pool xToY = first.tokenOut pool xToY

theorem Extends.refl (shadow : StateShadow) : shadow.Extends shadow :=
  ⟨Nat.le_refl _, fun _ _ _ => rfl, fun _ _ _ => rfl⟩

variable {profile : Profile} {before after : StateShadow}

/-- Columns of tokens that agree on the registered pools. -/
theorem extends_of_columns
    (count : before.poolCount ≤ after.poolCount)
    (tokenX :
      ∀ pool : PoolIdx, pool.val < before.poolCount →
        after.tokenXId pool = before.tokenXId pool)
    (tokenY :
      ∀ pool : PoolIdx, pool.val < before.poolCount →
        after.tokenYId pool = before.tokenYId pool) :
    before.Extends after where
  count := count
  tokenIn pool xToY inRange := by
    cases xToY with
    | true => exact tokenX pool inRange
    | false => exact tokenY pool inRange
  tokenOut pool xToY inRange := by
    cases xToY with
    | true => exact tokenY pool inRange
    | false => exact tokenX pool inRange

theorem extends_registerPool
    {entry : Registration}
    {idx : Option Nat}
    (registered : before.registerPool profile entry = .ok (idx, after)) :
    before.Extends after := by
  rcases registerPool_cases registered with
    ⟨-, rfl⟩ | ⟨room, xPerY, yPerX, -, rfl⟩
  · exact Extends.refl _
  · have apart (pool : PoolIdx) (inRange : pool.val < before.poolCount) :
        pool ≠ ⟨before.poolCount, room⟩ := by
      rintro rfl
      exact Nat.lt_irrefl _ inRange
    exact extends_of_columns (Nat.le_succ _)
      (fun pool inRange => Function.update_of_ne (apart pool inRange) _ _)
      (fun pool inRange => Function.update_of_ne (apart pool inRange) _ _)

theorem extends_applySpeculativeSwap
    {idx amountIn amountOut : Nat}
    {xToY : Bool}
    (applied :
      before.applySpeculativeSwap profile idx amountIn xToY =
        .ok (amountOut, after)) :
    before.Extends after := by
  obtain ⟨pool, afterFee, newIn, k, -, -, -, rfl⟩ :=
    applySpeculativeSwap_cases applied
  unfold markDirty
  split <;>
    exact extends_of_columns (Nat.le_refl _) (fun _ _ => rfl)
      (fun _ _ => rfl)

theorem extends_updateReserves
    {idx reserveX reserveY slot : Nat}
    (updated :
      before.updateReserves profile idx reserveX reserveY slot =
        .ok after) :
    before.Extends after := by
  obtain ⟨pool, xPerY, yPerX, -, -, rfl⟩ := updateReserves_cases updated
  exact extends_of_columns (Nat.le_refl _) (fun _ _ => rfl) (fun _ _ => rfl)

theorem extends_onNewBlock (shadow : StateShadow) (slot : Nat) :
    shadow.Extends (shadow.onNewBlock slot) :=
  extends_of_columns (Nat.le_refl _) (fun _ _ => rfl) (fun _ _ => rfl)

end StateShadow

namespace PriceGraph

/--
Every edge is a swap through a registered pool, between the nodes of the tokens
that the pool trades; the weights may be those of older reserves.
-/
structure Follows
    (graph : PriceGraph)
    (tokens : List Nat)
    (shadow : StateShadow) : Prop where
  distinct : tokens.Nodup
  few : tokens.length ≤ 2 * maxPools
  edges :
    ∀ edge ∈ graph.edges, ∃ pool : PoolIdx,
      edge.poolIdx = pool.val ∧
        pool.val < shadow.poolCount ∧
        tokens[edge.src]? = some (shadow.tokenIn pool edge.xToY) ∧
        tokens[edge.dst]? = some (shadow.tokenOut pool edge.xToY)

variable
  {graph : PriceGraph}
  {tokens : List Nat}
  {shadow later : StateShadow}

theorem follows_new (shadow : StateShadow) : new.Follows [] shadow where
  distinct := List.nodup_nil
  few := Nat.zero_le _
  edges := List.forall_mem_nil _

/-- A graph follows the shadow that it was drawn from. -/
theorem Draws.follows
    {floats : FloatRates}
    (draws : graph.Draws tokens (SwapRoute.throughPools floats shadow)) :
    graph.Follows tokens shadow where
  distinct := draws.distinct
  few :=
    draws.length_le.trans (Nat.mul_le_mul_left 2 shadow.poolCountInRange)
  edges edge member := by
    rw [draws.edges] at member
    obtain ⟨route, offered, rfl⟩ := List.mem_map.mp member
    have inTable : route.tokenIn ∈ tokens :=
      (draws.used _).mpr ⟨route, offered, .inl rfl⟩
    have outTable : route.tokenOut ∈ tokens :=
      (draws.used _).mpr ⟨route, offered, .inr rfl⟩
    obtain ⟨pool, xToY, inRange, -, rfl⟩ := mem_throughPools offered
    exact ⟨pool, rfl, inRange, List.getElem?_idxOf inTable,
      List.getElem?_idxOf outTable⟩

/-- It follows every shadow that extends this one. -/
theorem Follows.extend
    (follows : graph.Follows tokens shadow)
    (extended : shadow.Extends later) :
    graph.Follows tokens later where
  distinct := follows.distinct
  few := follows.few
  edges edge member := by
    obtain ⟨pool, isPool, inRange, src, dst⟩ := follows.edges edge member
    refine ⟨pool, isPool, inRange.trans_le extended.count, ?_, ?_⟩
    · rw [extended.tokenIn pool _ inRange]
      exact src
    · rw [extended.tokenOut pool _ inRange]
      exact dst

theorem Follows.nodesFit (follows : graph.Follows tokens shadow) :
    graph.NodesFit := by
  intro edge member
  obtain ⟨pool, -, -, src, -⟩ := follows.edges edge member
  obtain ⟨inTable, -⟩ := List.getElem?_eq_some_iff.mp src
  have few := follows.few
  unfold maxPools at few
  omega

/-- A cycle of the search is made of hops that form a simple cycle. -/
theorem hops_of_mem_findArbitrageCycles
    {maxHops : Nat}
    {cycles : List ArbCycle}
    {cycle : ArbCycle}
    (nodesFit : graph.NodesFit)
    (found : graph.findArbitrageCycles maxHops = .ok cycles)
    (member : cycle ∈ cycles) :
    ∃ hops,
      graph.SimpleCycle hops ∧
        2 ≤ hops.length ∧ hops.length ≤ maxHops + 1 ∧
        cycle.poolIndices = hops.map PriceEdge.poolIdx ∧
        cycle.directions = hops.map PriceEdge.xToY := by
  obtain rfl :=
    Except.ok.inj ((findArbitrageCycles_eq nodesFit maxHops).symm.trans found)
  obtain ⟨source, inRange, edge, edgeMember, isCandidate⟩ :=
    mem_candidates.mp
      (FirstOccurrences.mem_of_mem_firsts (List.mem_mergeSort.mp member))
  have isLinked := linked_finalSearch graph maxHops source
  obtain ⟨-, walk, twoNodes, short, rfl⟩ :=
    (candidate_eq_some nodesFit isLinked edgeMember maxHops cycle).mp
      isCandidate
  have onCycle :=
    onCycle_of_walk isLinked (graph.edgesInRange edge edgeMember).2 walk
  refine ⟨_, onCycle.simpleCycle isLinked, ?_, ?_, rfl, rfl⟩
  · simpa [cycleHops, cyclePath_length] using twoNodes
  · simpa [cycleHops, cyclePath_length] using short

end PriceGraph

/-- One swap of a route: a pool and the direction through it. -/
abbrev RouteStep := PoolIdx × Bool

namespace RouteStep

def tokenIn (shadow : StateShadow) (step : RouteStep) : Nat :=
  shadow.tokenIn step.1 step.2

def tokenOut (shadow : StateShadow) (step : RouteStep) : Nat :=
  shadow.tokenOut step.1 step.2

/-- The transaction of the swap. -/
def transaction
    (shadow : StateShadow)
    (input : Nat)
    (step : RouteStep) : List UInt8 :=
  BundleConstructor.buildSwapIx (shadow.poolKeys step.1).toList
    (Aste.tokenAddress (step.tokenIn shadow))
    (Aste.tokenAddress (step.tokenOut shadow)) input

end RouteStep

/--
The route swaps through registered pools, never takes in a token twice, and
each swap takes in what the one before pays out, the first what the last does.
-/
structure ClosedRoute
    (shadow : StateShadow)
    (route : List RouteStep) : Prop where
  registered : ∀ step ∈ route, step.1.val < shadow.poolCount
  simple : (route.map (RouteStep.tokenIn shadow)).Nodup
  closed :
    route.map (RouteStep.tokenOut shadow) =
      (route.map (RouteStep.tokenIn shadow)).rotate 1
  twoSwaps : 2 ≤ route.length

namespace PriceGraph

variable
  {graph : PriceGraph}
  {tokens : List Nat}
  {shadow : StateShadow}

/-- A simple cycle of the graph is a closed route through the pools. -/
theorem Follows.closedRoute
    {hops : List PriceEdge}
    (follows : graph.Follows tokens shadow)
    (simple : graph.SimpleCycle hops)
    (twoHops : 2 ≤ hops.length) :
    ∃ route : List RouteStep,
      ClosedRoute shadow route ∧
        route.map (fun step => step.1.val) = hops.map PriceEdge.poolIdx ∧
        route.map Prod.snd = hops.map PriceEdge.xToY := by
  have : Nonempty PoolIdx := ⟨⟨0, by decide⟩⟩
  choose! pool isPool inRange src dst using
    fun hop member => follows.edges hop (simple.edges hop member)
  -- The tokens of a hop are those of its nodes.
  have takesIn :
      hops.map (fun hop => shadow.tokenIn (pool hop) hop.xToY) =
        (hops.map PriceEdge.src).map (fun node => tokens.getD node 0) := by
    rw [List.map_map]
    refine List.map_congr_left fun hop member => ?_
    rw [Function.comp_apply, List.getD_eq_getElem?_getD, src hop member]
    rfl
  have paysOut :
      hops.map (fun hop => shadow.tokenOut (pool hop) hop.xToY) =
        (hops.map PriceEdge.dst).map (fun node => tokens.getD node 0) := by
    rw [List.map_map]
    refine List.map_congr_left fun hop member => ?_
    rw [Function.comp_apply, List.getD_eq_getElem?_getD, dst hop member]
    rfl
  have apart :
      ((hops.map PriceEdge.src).map
        (fun node => tokens.getD node 0)).Nodup := by
    refine simple.distinct.map_on fun first firstMember second secondMember
      same => ?_
    obtain ⟨firstHop, firstIn, rfl⟩ := List.mem_map.mp firstMember
    obtain ⟨secondHop, secondIn, rfl⟩ := List.mem_map.mp secondMember
    obtain ⟨firstLt, -⟩ := List.getElem?_eq_some_iff.mp (src firstHop firstIn)
    obtain ⟨secondLt, -⟩ :=
      List.getElem?_eq_some_iff.mp (src secondHop secondIn)
    rw [List.getD_eq_getElem _ _ firstLt,
      List.getD_eq_getElem _ _ secondLt] at same
    exact follows.distinct.getElem_inj_iff.mp same
  refine ⟨hops.map (fun hop => (pool hop, hop.xToY)),
    { registered := ?_
      simple := ?_
      closed := ?_
      twoSwaps := by rwa [List.length_map] }, ?_, ?_⟩
  · intro step member
    obtain ⟨hop, hopMember, rfl⟩ := List.mem_map.mp member
    exact inRange hop hopMember
  · rw [List.map_map]
    exact takesIn ▸ apart
  · rw [List.map_map, List.map_map]
    refine paysOut.trans ?_
    rw [simple.linked, List.map_rotate, ← takesIn]
    rfl
  · rw [List.map_map]
    exact List.map_congr_left fun hop member => (isPool hop member).symm
  · rw [List.map_map]
    rfl

end PriceGraph

namespace Aste

/-- The graph follows the shadow, and the settings are those of the start. -/
structure Consistent (config : AsteConfig) (engine : Aste) : Prop where
  follows : ∃ tokens, engine.graph.Follows tokens engine.shadow
  sameConfig : engine.config = config
  sameSolver : engine.solver = SimdSolver.new config.minProfit config.maxInput

variable
  {target : Target}
  {config : AsteConfig}
  {engine next : Aste}
  {elapsedNanos profit : Nat}

theorem consistent_new (config : AsteConfig) :
    (new config).Consistent config :=
  ⟨⟨[], PriceGraph.follows_new _⟩, rfl, rfl⟩

/-- A new shadow that extends the old one keeps the engine consistent. -/
theorem Consistent.withShadow
    (consistent : engine.Consistent config)
    {shadow : StateShadow}
    (extended : engine.shadow.Extends shadow) :
    Consistent config { engine with shadow := shadow } := by
  obtain ⟨⟨tokens, follows⟩, sameConfig, sameSolver⟩ := consistent
  exact ⟨⟨tokens, follows.extend extended⟩, sameConfig, sameSolver⟩

theorem Consistent.rebuildGraph
    (consistent : engine.Consistent config)
    (rebuilt : engine.rebuildGraph target = .ok next) :
    next.Consistent config := by
  obtain ⟨graph, isBuilt, rfl⟩ := rebuildGraph_cases rebuilt
  obtain ⟨built, tokens, building, draws, -⟩ :=
    PriceGraph.buildFromShadow_draws_pools target.floats engine.graph
      engine.shadow
  obtain rfl := Except.ok.inj (building.symm.trans isBuilt)
  exact ⟨⟨tokens, draws.follows⟩, consistent.sameConfig, consistent.sameSolver⟩

theorem Consistent.updateLatency
    (consistent : engine.Consistent config)
    (tracked : engine.updateLatency target elapsedNanos = .ok next) :
    next.Consistent config := by
  obtain ⟨ema, -, rfl⟩ := updateLatency_cases tracked
  exact ⟨consistent.follows, consistent.sameConfig, consistent.sameSolver⟩

theorem Consistent.endSwapCycle
    {result : Nat}
    (consistent : engine.Consistent config)
    (ended :
      engine.endSwapCycle target elapsedNanos profit =
        .ok (result, next)) :
    next.Consistent config := by
  obtain ⟨-, tracked, tracking, rfl⟩ := endSwapCycle_cases ended
  have kept := consistent.updateLatency tracking
  exact ⟨kept.follows, kept.sameConfig, kept.sameSolver⟩

theorem Consistent.simulate
    {poolIdx amountIn : Nat}
    {xToY : Bool}
    (consistent : engine.Consistent config)
    (simulated :
      engine.simulate target poolIdx amountIn xToY = .ok next) :
    next.Consistent config := by
  obtain ⟨amountOut, shadow, applied, rfl⟩ := simulate_cases simulated
  have kept :=
    consistent.withShadow (StateShadow.extends_applySpeculativeSwap applied)
  exact ⟨kept.follows, kept.sameConfig, kept.sameSolver⟩

theorem Consistent.solve
    {cycles : List ArbCycle}
    (consistent : engine.Consistent config)
    (solved : engine.solve target = .ok (cycles, next)) :
    next.Consistent config := by
  obtain ⟨searched, origin, -, rfl⟩ := solve_cases solved
  have kept : searched.Consistent config := by
    rcases origin with ⟨-, rebuilt⟩ | ⟨-, rfl⟩
    · exact consistent.rebuildGraph rebuilt
    · exact consistent
  exact ⟨kept.follows, kept.sameConfig, kept.sameSolver⟩

theorem Consistent.executeArb
    {result : ArbResult}
    (consistent : engine.Consistent config)
    (executed : engine.executeArb result = .ok (profit, next)) :
    next.Consistent config := by
  obtain ⟨-, -, rfl⟩ := executeArb_cases executed
  exact ⟨consistent.follows, consistent.sameConfig, consistent.sameSolver⟩

theorem Consistent.beginCycle
    (consistent : engine.Consistent config)
    (begun : engine.beginCycle target = .ok next) :
    next.Consistent config := by
  obtain ⟨cycleCount, -, rfl⟩ := beginCycle_cases begun
  exact ⟨consistent.follows, consistent.sameConfig, consistent.sameSolver⟩

theorem Consistent.processSwap
    {poolIdx amountIn : Nat}
    {xToY : Bool}
    (consistent : engine.Consistent config)
    (processed :
      engine.processSwap target elapsedNanos poolIdx amountIn xToY =
        .ok (profit, next)) :
    next.Consistent config := by
  obtain ⟨simulated, cycles, solved, simulating, solving, ended⟩ :=
    processSwap_cases processed
  have kept := (consistent.simulate simulating).solve solving
  rcases ended with
    ended | ⟨executing, result, gain, executed, ⟨rest, -, rfl⟩, execution,
      ended⟩
  · exact kept.endSwapCycle ended
  · have counted : solved.countProfitable.Consistent config :=
      ⟨kept.follows, kept.sameConfig, kept.sameSolver⟩
    exact (counted.executeArb execution).endSwapCycle ended

theorem Consistent.processEvent
    {event : MempoolEvent}
    (consistent : engine.Consistent config)
    (processed :
      engine.processEvent target elapsedNanos event = .ok (profit, next)) :
    next.Consistent config := by
  obtain ⟨counted, counting, processed⟩ := processEvent_cases processed
  have begun := consistent.beginCycle counting
  cases event with
  | pendingSwap poolIdx amountIn xToY =>
      exact begun.processSwap processed
  | newBlock slot =>
      obtain ⟨-, rebuilt, rebuilding, tracking⟩ :=
        processBlock_cases processed
      have advanced :=
        begun.withShadow (StateShadow.extends_onNewBlock counted.shadow slot)
      exact (advanced.rebuildGraph rebuilding).updateLatency tracking
  | poolUpdate poolIdx reserveX reserveY slot =>
      obtain ⟨-, shadow, updated, tracking⟩ := processed
      exact (begun.withShadow
        (StateShadow.extends_updateReserves updated)).updateLatency tracking

theorem Consistent.registerPool
    {entry : StateShadow.Registration}
    {idx : Option Nat}
    (consistent : engine.Consistent config)
    (registered : engine.registerPool target entry = .ok (idx, next)) :
    next.Consistent config := by
  obtain ⟨shadow, entered, registered⟩ := registerPool_cases registered
  have kept :=
    consistent.withShadow (StateShadow.extends_registerPool entered)
  split at registered
  · exact kept.rebuildGraph registered
  · exact registered ▸ kept

/-- Every engine that calls lead to is consistent. -/
theorem Reached.consistent
    {log : List (Call × Nat)}
    (reached : Reached target config log engine) :
    engine.Consistent config := by
  refine Run.preserves (Consistent config) ?_ reached (consistent_new config)
  rintro before ⟨made, profit⟩ after consistent called
  cases made with
  | register entry =>
      obtain ⟨-, idx, registered⟩ := calls_register called
      exact consistent.registerPool registered
  | process arrival =>
      exact consistent.processEvent called

/-! Executed results. -/

/-- The leg of a step of a route. -/
def stepLeg (shadow : StateShadow) (step : RouteStep) : RouteLeg where
  poolId := (shadow.poolKeys step.1).toList
  tokenIn := tokenAddress (step.tokenIn shadow)
  tokenOut := tokenAddress (step.tokenOut shadow)
  direction := if step.2 then .xToY else .yToX

/-- A result whose hops are those of a route has the legs of the route. -/
theorem resultBundle_of_route
    {result : ArbResult}
    {route : List RouteStep}
    (pools : result.poolSequence = route.map (fun step => step.1.val))
    (directions : result.directions = route.map Prod.snd) :
    ∃ bundle,
      engine.resultBundle result = .ok bundle ∧
        bundle.transactions =
          route.map
              (RouteStep.transaction engine.shadow result.optimalInput) ++
            [BundleConstructor.buildTipIx
              (result.netProfit % 2 ^ 64 / 10)] := by
  have sameLength : result.poolSequence.length = route.length := by
    rw [pools, List.length_map]
  have legAt (i : Nat) (inRoute : i < route.length) :
      engine.routeLeg result i = .ok (stepLeg engine.shadow route[i]) := by
    rw [routeLeg, pools, directions,
      index_of_lt (by rwa [List.length_map]), Checked.ok_bind,
      index_of_lt (by rwa [List.length_map]), Checked.ok_bind,
      List.getElem_map, List.getElem_map, poolIndex_val, Checked.ok_bind]
    unfold stepLeg RouteStep.tokenIn RouteStep.tokenOut
    cases route[i].2 <;> rfl
  have legsReturn :
      ∀ i, i < result.poolSequence.length →
        ∃ leg, engine.routeLeg result i = .ok leg :=
    fun i inRange => ⟨_, legAt i (sameLength ▸ inRange)⟩
  obtain ⟨legs, bundle, bundled, pairs, transactions⟩ :=
    resultBundle_returns legsReturn
  have legsEq : legs = route.map (stepLeg engine.shadow) := by
    have legsLength := pairs.length_eq
    rw [List.length_range, sameLength] at legsLength
    refine List.ext_getElem (by rw [List.length_map, legsLength]) ?_
    intro i inLegs inRoute
    have found := pairs.get (by rw [List.length_range]; omega) inLegs
    rw [List.get_eq_getElem, List.getElem_range,
      legAt i (legsLength.symm ▸ inLegs)] at found
    rw [List.getElem_map]
    exact (Except.ok.inj found).symm
  refine ⟨bundle, bundled, ?_⟩
  rw [transactions, legsEq, List.map_map]
  rfl

/-- A result of a batch gains at least the minimum on one of its cycles. -/
theorem evaluateBatch_gains
    {profile : Profile}
    {profitSort : ProfitSort}
    {solver : SimdSolver}
    {shadow : StateShadow}
    {cycles : List ArbCycle}
    {results : List ArbResult}
    {result : ArbResult}
    (evaluated :
      solver.evaluateBatch profile profitSort shadow cycles = .ok results)
    (member : result ∈ results) :
    ∃ cycle ∈ cycles,
      SimdSolver.Evaluates profile shadow cycle result ∧
        result.netProfit = result.expectedOutput - result.optimalInput ∧
        solver.minProfit ≤ result.netProfit := by
  obtain ⟨idx, found, isFound, rfl⟩ :=
    (SimdSolver.mem_evaluateBatch evaluated result).mp member
  obtain ⟨cycle, cycleMember, isOpportunity⟩ :=
    List.mem_filterMap.mp (List.mem_of_getElem? isFound)
  obtain ⟨-, rfl, -, optimal, gain, enough⟩ :=
    SimdSolver.opportunity_eq_some_iff.mp isOpportunity
  simp only [SimdSolver.binarySearchOptimal, Checked.bind_eq_ok,
    Checked.pure_eq_ok, Except.ok.injEq, Prod.mk.injEq] at optimal
  obtain ⟨search, -, output, simulated, sameInput, rfl⟩ := optimal
  rw [sameInput] at simulated
  exact ⟨found.cycle, cycleMember, ⟨rfl, rfl, simulated, gain⟩, rfl, enough⟩

/-- Processing the event brings `executing` to `execute_arb`. -/
def Captures
    (target : Target)
    (engine : Aste)
    (event : MempoolEvent)
    (executing : Aste)
    (result : ArbResult) : Prop :=
  ∃ poolIdx amountIn xToY counted simulated cycles solved,
    event = .pendingSwap poolIdx amountIn xToY ∧
      engine.beginCycle target = .ok counted ∧
      counted.simulate target poolIdx amountIn xToY = .ok simulated ∧
      simulated.solve target = .ok (cycles, solved) ∧
      Executes target solved cycles executing result

/-- The bundle that is built for a result, and the route that it swaps along. -/
structure BuildsRoute
    (config : AsteConfig)
    (executing : Aste)
    (result : ArbResult)
    (route : List RouteStep)
    (bundle : TransactionBundle) : Prop where
  closed : ClosedRoute executing.shadow route
  hops : route.length ≤ config.maxHops + 1
  pools : result.poolSequence = route.map (fun step => step.1.val)
  directions : result.directions = route.map Prod.snd
  gain : result.optimalInput < result.expectedOutput
  netProfit :
    result.netProfit = result.expectedOutput - result.optimalInput
  enough : config.minProfit ≤ result.netProfit
  bundled : executing.resultBundle result = .ok bundle
  transactions :
    bundle.transactions =
      route.map
          (RouteStep.transaction executing.shadow result.optimalInput) ++
        [BundleConstructor.buildTipIx (result.netProfit % 2 ^ 64 / 10)]

/-- What comes to `execute_arb` is a closed route of the engine's pools. -/
theorem Consistent.buildsRoute
    {event : MempoolEvent}
    {executing : Aste}
    {result : ArbResult}
    (consistent : engine.Consistent config)
    (captures : Captures target engine event executing result) :
    ∃ route bundle, BuildsRoute config executing result route bundle := by
  obtain ⟨poolIdx, amountIn, xToY, counted, simulated, cycles, solved, -,
    counting, simulating, solving, rest, evaluated, rfl⟩ := captures
  have begun := (consistent.beginCycle counting).simulate simulating
  -- The graph of the search follows the shadow after the swap.
  have kept := begun.solve solving
  obtain ⟨searched, origin, searching, rfl⟩ := solve_cases solving
  obtain ⟨tokens, follows⟩ := kept.follows
  obtain ⟨cycle, cycleMember, evaluates, netProfit, enough⟩ :=
    evaluateBatch_gains evaluated List.mem_cons_self
  obtain ⟨hops, simple, twoHops, short, pools, directions⟩ :=
    PriceGraph.hops_of_mem_findArbitrageCycles follows.nodesFit searching
      cycleMember
  obtain ⟨route, closed, routePools, routeDirections⟩ :=
    follows.closedRoute simple twoHops
  have resultPools :
      result.poolSequence = route.map (fun step => step.1.val) := by
    rw [evaluates.pools, pools, routePools]
  have resultDirections : result.directions = route.map Prod.snd := by
    rw [evaluates.directions, directions, routeDirections]
  obtain ⟨bundle, bundled, transactions⟩ :=
    resultBundle_of_route resultPools resultDirections
  have sameLength := congrArg List.length routePools
  rw [List.length_map, List.length_map] at sameLength
  refine ⟨route, bundle,
    { closed := closed
      hops := ?_
      pools := resultPools
      directions := resultDirections
      gain := evaluates.gain
      netProfit := netProfit
      enough := ?_
      bundled := bundled
      transactions := transactions }⟩
  · rw [sameLength, ← kept.sameConfig]
    exact short
  · rw [kept.sameSolver] at enough
    exact enough

/-- An event with a profit has come to `execute_arb` with that profit. -/
theorem captures_of_profit
    {event : MempoolEvent}
    (processed :
      engine.processEvent target elapsedNanos event = .ok (profit, next))
    (gained : 0 < profit) :
    ∃ executing result,
      Captures target engine event executing result ∧
        result.netProfit = profit := by
  obtain ⟨counted, counting, processed⟩ := processEvent_cases processed
  cases event with
  | pendingSwap poolIdx amountIn xToY =>
      obtain ⟨simulated, cycles, solved, simulating, solving, ended⟩ :=
        processSwap_cases processed
      rcases ended with
        ended | ⟨executing, result, gain, executed, executes, execution,
          ended⟩
      · obtain ⟨rfl, -⟩ := endSwapCycle_cases ended
        exact absurd gained (Nat.lt_irrefl 0)
      · obtain ⟨rfl, -⟩ := endSwapCycle_cases ended
        obtain ⟨rfl, -⟩ := executeArb_cases execution
        exact ⟨executing, result,
          ⟨poolIdx, amountIn, xToY, counted, simulated, cycles, solved, rfl,
            counting, simulating, solving, executes⟩, rfl⟩
  | newBlock slot =>
      obtain ⟨rfl, -⟩ := processBlock_cases processed
      exact absurd gained (Nat.lt_irrefl 0)
  | poolUpdate poolIdx reserveX reserveY slot =>
      obtain ⟨rfl, -⟩ := processed
      exact absurd gained (Nat.lt_irrefl 0)

/--
Whatever pools were registered and events processed before, an event with a
profit has built a bundle that swaps along a closed route of registered pools.
-/
theorem captured_routes_are_closed
    {log : List (Call × Nat)}
    {arrival : Arrival}
    (reached : Reached target config log engine)
    (processed : Calls target engine (.process arrival, profit) next)
    (captured : 0 < profit) :
    ∃ executing result route bundle,
      Captures target engine arrival.event executing result ∧
        result.netProfit = profit ∧
        BuildsRoute config executing result route bundle := by
  obtain ⟨executing, result, captures, isProfit⟩ :=
    captures_of_profit processed captured
  obtain ⟨route, bundle, builds⟩ :=
    reached.consistent.buildsRoute captures
  exact ⟨executing, result, route, bundle, captures, isProfit, builds⟩

/-- Float rates as fractions; the weights are exact for powers of two. -/
def powerFloats : FloatRates where
  Rate := Nat × Nat
  rate reserveIn reserveOut feeNum feeDen :=
    (reserveOut * (feeDen - feeNum), reserveIn * feeDen)
  isNotPositive rate := rate.1 = 0
  weight rate := 65536 * ((Nat.log2 rate.2 : Int) - Nat.log2 rate.1)

/-- A debug build with these rates, and an engine for small inputs. -/
def crossTarget : Target :=
  ⟨.debug, powerFloats, stableSort⟩

def crossConfig : AsteConfig :=
  { AsteConfig.default with minProfit := 1, maxInput := 100 }

/-- After a swap through one of two pools, the loop through both gains 202. -/
theorem cross_route_is_closed :
    ∃ log engine next executing result route bundle,
      Reached crossTarget crossConfig log engine ∧
        Calls crossTarget engine
          (.process ⟨.pendingSwap 0 10 true, 800⟩, 202) next ∧
        Captures crossTarget engine (.pendingSwap 0 10 true) executing
          result ∧
        result.netProfit = 202 ∧
        BuildsRoute crossConfig executing result route bundle := by
  have returned :
      (do
        let one ← (new crossConfig).call crossTarget
          (.register (crossEntry 1 1000 2000))
        let two ← one.2.call crossTarget
          (.register (crossEntry 2 2000 1000))
        let swapped ← two.2.call crossTarget
          (.process ⟨.pendingSwap 0 10 true, 800⟩)
        return swapped.1 : Checked Nat) = .ok 202 := by
    decide +kernel
  simp only [Checked.bind_eq_ok, Checked.pure_eq_ok, Except.ok.injEq]
    at returned
  obtain ⟨⟨profitOne, one⟩, first, ⟨profitTwo, two⟩, second,
    ⟨profit, next⟩, swapped, rfl⟩ := returned
  have reached :
      Reached crossTarget crossConfig
        [(.register (crossEntry 1 1000 2000), profitOne),
          (.register (crossEntry 2 2000 1000), profitTwo)] two :=
    .cons first (.cons second (.nil two))
  obtain ⟨executing, result, route, bundle, captures, isProfit, builds⟩ :=
    captured_routes_are_closed reached swapped (by decide)
  exact ⟨_, two, next, executing, result, route, bundle, reached, swapped,
    captures, isProfit, builds⟩

end Aste

end YieldDaemon
