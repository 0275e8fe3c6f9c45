import YieldDaemon.Arena
import YieldDaemon.SimdSolver
import YieldDaemon.BundleConstructor

namespace YieldDaemon

open CheckedArithmetic

/-!
# Atomic State Transition Engine

The engine takes mempool events one by one: it applies a pending swap to the
state shadow, looks for arbitrage cycles, evaluates them and builds a bundle
for the best one.  The arena allocation and the log lines of the source are
taken to succeed.  The time that an event takes is an input of the model.
-/

/-- ASTE configuration. -/
structure AsteConfig where
  maxHops : Nat
  minProfit : Nat
  maxInput : Nat
  arenaSize : Nat
  graphRebuildInterval : Nat
  dryRun : Bool

/-- The values of `AsteConfig::default`. -/
def AsteConfig.default : AsteConfig where
  maxHops := 4
  minProfit := 10000
  maxInput := 100000000000
  arenaSize := 16 * 1024 * 1024
  graphRebuildInterval := 50
  dryRun := true

/-- ASTE runtime statistics, all of them `AtomicU64` counters. -/
structure AsteStats where
  cyclesTotal : Nat
  swapsObserved : Nat
  arbCyclesDetected : Nat
  arbProfitable : Nat
  bundlesSubmitted : Nat
  totalProfit : Nat
  avgCycleLatencyNs : Nat
  maxCycleLatencyNs : Nat
  graphRebuilds : Nat
  speculativeSwaps : Nat

def AsteStats.new : AsteStats :=
  ⟨0, 0, 0, 0, 0, 0, 0, 0, 0, 0⟩

/-- Mempool event that the ingestor feeds into the ASTE. -/
inductive MempoolEvent where
  | pendingSwap (poolIdx amountIn : Nat) (xToY : Bool)
  | newBlock (slot : Nat)
  | poolUpdate (poolIdx reserveX reserveY slot : Nat)
  deriving Repr, DecidableEq

/--
What the build and the host fix: the overflow checks, the float computations
and the order in which an unstable sort leaves equal profits.
-/
structure Target where
  profile : Profile
  floats : FloatRates
  profitSort : ProfitSort

/-- The Atomic State Transition Engine. -/
structure Aste where
  config : AsteConfig
  shadow : StateShadow
  graph : PriceGraph
  solver : SimdSolver
  bundler : BundleConstructor
  arena : Arena
  stats : AsteStats
  cycleCount : Nat

namespace Aste

def new (config : AsteConfig) : Aste where
  config := config
  shadow := StateShadow.new
  graph := PriceGraph.new
  solver := SimdSolver.new config.minProfit config.maxInput
  bundler := ⟨config.dryRun⟩
  arena := Arena.new config.arenaSize
  stats := AsteStats.new
  cycleCount := 0

/-- Rebuild the price graph from the state shadow, and count that. -/
def rebuildGraph (target : Target) (engine : Aste) : Checked Aste := do
  let graph ← engine.graph.buildFromShadow target.floats engine.shadow
  return { engine with
    graph := graph
    stats := { engine.stats with
      graphRebuilds := fetchAdd engine.stats.graphRebuilds 1 } }

/-- Register a pool in the state shadow. Must be called during setup. -/
def registerPool
    (target : Target)
    (engine : Aste)
    (entry : StateShadow.Registration) : Checked (Option Nat × Aste) := do
  let (idx, shadow) ← engine.shadow.registerPool target.profile entry
  let registered := { engine with shadow := shadow }
  if idx.isSome then
    let rebuilt ← registered.rebuildGraph target
    return (idx, rebuilt)
  else
    return (idx, registered)

/-- The moving average of the latency after one more cycle. -/
def latencyAverage (profile : Profile) (prev elapsedNs : Nat) :
    Checked Nat :=
  if prev = 0 then
    .ok elapsedNs
  else do
    let weighted ← mul profile 64 prev 15
    let total ← add profile 64 weighted elapsedNs
    div total 16

/-- Update latency tracking. -/
def updateLatency
    (target : Target)
    (engine : Aste)
    (elapsedNanos : Nat) : Checked Aste := do
  let elapsedNs := elapsedNanos % 2 ^ 64
  let ema ←
    latencyAverage target.profile engine.stats.avgCycleLatencyNs elapsedNs
  return { engine with
    stats := { engine.stats with
      avgCycleLatencyNs := ema
      maxCycleLatencyNs :=
        max engine.stats.maxCycleLatencyNs elapsedNs } }

/-- `let mut bytes = [0u8; 32]; bytes[..8].copy_from_slice(..)` -/
def tokenAddress (tokenId : Nat) : List UInt8 :=
  leBytes 8 tokenId ++ List.replicate 24 0

/-- Resolve the pool and the token addresses of one hop of a result. -/
def routeLeg (engine : Aste) (result : ArbResult) (i : Nat) :
    Checked RouteLeg := do
  let poolIdx ← index result.poolSequence i
  let xToY ← index result.directions i
  let pool ← poolIndex poolIdx
  let tokenX := tokenAddress (engine.shadow.tokenXId pool)
  let tokenY := tokenAddress (engine.shadow.tokenYId pool)
  let poolId := (engine.shadow.poolKeys pool).toList
  if xToY then
    return ⟨poolId, tokenX, tokenY, .xToY⟩
  else
    return ⟨poolId, tokenY, tokenX, .yToX⟩

/-- The bundle that the engine queues for a result. -/
def resultBundle (engine : Aste) (result : ArbResult) :
    Checked TransactionBundle := do
  let legs ←
    (List.range result.poolSequence.length).mapM (engine.routeLeg result)
  return engine.bundler.construct
    ⟨legs, result.netProfit % 2 ^ 64⟩
    ⟨result.optimalInput, result.netProfit % 2 ^ 64, result.expectedOutput⟩

/-- Construct a transaction bundle for the arbitrage and queue it. -/
def executeArb (engine : Aste) (result : ArbResult) :
    Checked (Nat × Aste) := do
  let _bundle ← engine.resultBundle result
  let totalProfit :=
    fetchAdd engine.stats.totalProfit (result.netProfit % 2 ^ 64)
  if engine.config.dryRun then
    return (result.netProfit, { engine with
      stats := { engine.stats with totalProfit := totalProfit } })
  else
    return (result.netProfit, { engine with
      stats := { engine.stats with
        bundlesSubmitted := fetchAdd engine.stats.bundlesSubmitted 1
        totalProfit := totalProfit } })

/-- The end of a swap's cycle: track the latency and reset the arena. -/
def endSwapCycle
    (target : Target)
    (engine : Aste)
    (elapsedNanos profit : Nat) : Checked (Nat × Aste) := do
  let tracked ← engine.updateLatency target elapsedNanos
  return (profit, { tracked with arena := tracked.arena.reset })

/-- Count a cycle. -/
def beginCycle (target : Target) (engine : Aste) : Checked Aste := do
  let cycleCount ← add target.profile 64 engine.cycleCount 1
  return { engine with
    cycleCount := cycleCount
    stats := { engine.stats with
      cyclesTotal := fetchAdd engine.stats.cyclesTotal 1 } }

/-- Apply a pending swap to the state shadow. -/
def simulate
    (target : Target)
    (engine : Aste)
    (poolIdx amountIn : Nat)
    (xToY : Bool) : Checked Aste := do
  let (_output, shadow) ←
    engine.shadow.applySpeculativeSwap target.profile poolIdx amountIn xToY
  return { engine with
    shadow := shadow
    stats := { engine.stats with
      swapsObserved := fetchAdd engine.stats.swapsObserved 1
      speculativeSwaps := fetchAdd engine.stats.speculativeSwaps 1 } }

/-- Rebuild the graph periodically and look for arbitrage cycles in it. -/
def solve (target : Target) (engine : Aste) :
    Checked (List ArbCycle × Aste) := do
  let phase ← rem engine.cycleCount engine.config.graphRebuildInterval
  let rebuilt ←
    if phase = 0 then engine.rebuildGraph target else pure engine
  let arbCycles ←
    rebuilt.graph.findArbitrageCycles rebuilt.config.maxHops
  return (arbCycles, { rebuilt with
    stats := { rebuilt.stats with
      arbCyclesDetected :=
        fetchAdd rebuilt.stats.arbCyclesDetected arbCycles.length } })

/-- Simulate, solve, evaluate and execute for one pending swap. -/
def processSwap
    (target : Target)
    (engine : Aste)
    (elapsedNanos poolIdx amountIn : Nat)
    (xToY : Bool) : Checked (Nat × Aste) := do
  let simulated ← engine.simulate target poolIdx amountIn xToY
  let (arbCycles, solved) ← simulated.solve target
  if arbCycles = [] then
    solved.endSwapCycle target elapsedNanos 0
  else
    let results ← solved.solver.evaluateBatch target.profile
      target.profitSort solved.shadow arbCycles
    match results with
    | [] => solved.endSwapCycle target elapsedNanos 0
    | best :: _ =>
      let (profit, executed) ← executeArb
        { solved with
          stats := { solved.stats with
            arbProfitable := fetchAdd solved.stats.arbProfitable 1 } }
        best
      executed.endSwapCycle target elapsedNanos profit

/-- Revert the speculative state for a confirmed block. -/
def processBlock
    (target : Target)
    (engine : Aste)
    (elapsedNanos slot : Nat) : Checked (Nat × Aste) := do
  let rebuilt ← rebuildGraph target
    { engine with shadow := engine.shadow.onNewBlock slot }
  let tracked ← rebuilt.updateLatency target elapsedNanos
  return (0, tracked)

/-- Process a single mempool event through the ASTE pipeline. -/
def processEvent
    (target : Target)
    (engine : Aste)
    (elapsedNanos : Nat)
    (event : MempoolEvent) : Checked (Nat × Aste) := do
  let counted ← engine.beginCycle target
  match event with
  | .pendingSwap poolIdx amountIn xToY =>
    counted.processSwap target elapsedNanos poolIdx amountIn xToY
  | .newBlock slot => counted.processBlock target elapsedNanos slot
  | .poolUpdate poolIdx reserveX reserveY slot => do
    let shadow ← counted.shadow.updateReserves target.profile
      poolIdx reserveX reserveY slot
    let tracked ← updateLatency target { counted with shadow := shadow }
      elapsedNanos
    return (0, tracked)

end Aste

/-- An event with the time that its processing takes. -/
structure Arrival where
  event : MempoolEvent
  elapsedNanos : Nat

/-- The engine and the daemon metrics that its event loop updates. -/
structure AsteLoop where
  engine : Aste
  mevRevenueSat : Nat
  mevBundlesSubmitted : Nat

namespace AsteLoop

/-- The loop as `run_aste` starts it: a new engine, no pool registered. -/
def start (config : AsteConfig) : AsteLoop :=
  ⟨Aste.new config, 0, 0⟩

/-- Receive one event from the channel. -/
def receive
    (target : Target)
    (loop : AsteLoop)
    (arrival : Arrival) : Checked AsteLoop := do
  let (profit, engine) ←
    loop.engine.processEvent target arrival.elapsedNanos arrival.event
  if 0 < profit then
    return {
      engine := engine
      mevRevenueSat := fetchAdd loop.mevRevenueSat (profit % 2 ^ 64)
      mevBundlesSubmitted := fetchAdd loop.mevBundlesSubmitted 1 }
  else
    return { loop with engine := engine }

/-- Receive the events of a run in their order. -/
def run (target : Target) (loop : AsteLoop) (arrivals : List Arrival) :
    Checked AsteLoop :=
  arrivals.foldlM (receive target) loop

end AsteLoop

end YieldDaemon
