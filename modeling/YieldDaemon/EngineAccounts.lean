import YieldDaemon.EngineRoutes

namespace YieldDaemon

open CheckedArithmetic LabelledRun

/-!
# Accounts of the engine

The counters of an engine are compared with a ledger that is written from the
log of its calls.  The counters wrap at 64 bits and the ledger does not.
-/

/-- What a log of calls adds up to. -/
structure Ledger where
  events : Nat
  swaps : Nat
  captures : Nat
  profit : Nat
  rebuilds : Nat
  longest : Nat

namespace Ledger

def empty : Ledger :=
  ⟨0, 0, 0, 0, 0, 0⟩

/-- The graph is rebuilt for every block, and for the swaps at an interval. -/
def rebuildsFor (interval events : Nat) : MempoolEvent → Nat
  | .pendingSwap .. => if events % 2 ^ 64 % interval = 0 then 1 else 0
  | .newBlock _ => 1
  | .poolUpdate .. => 0

def swapsIn : MempoolEvent → Nat
  | .pendingSwap .. => 1
  | _ => 0

/-- Write an event and its profit into the ledger. -/
def event
    (interval : Nat)
    (ledger : Ledger)
    (arrival : Arrival)
    (profit : Nat) : Ledger where
  events := ledger.events + 1
  swaps := ledger.swaps + swapsIn arrival.event
  captures := ledger.captures + if 0 < profit then 1 else 0
  profit := ledger.profit + profit
  rebuilds :=
    ledger.rebuilds +
      rebuildsFor interval (ledger.events + 1) arrival.event
  longest := max ledger.longest (arrival.elapsedNanos % 2 ^ 64)

/-- Write a call into the ledger. -/
def record (interval : Nat) (ledger : Ledger) :
    Aste.Call × Nat → Ledger
  | (.register _, _) => ledger
  | (.process arrival, profit) => ledger.event interval arrival profit

/-- The ledger of a log. -/
def ofLog (interval : Nat) (log : List (Aste.Call × Nat)) : Ledger :=
  log.foldl (record interval) empty

end Ledger

namespace Aste

/--
The counters say what the ledger says.  A dry run submits no bundle, though it
adds up the same profit.
-/
structure Books (engine : Aste) (ledger : Ledger) : Prop where
  cycleCount : engine.cycleCount = ledger.events % 2 ^ 64
  cyclesTotal : engine.stats.cyclesTotal = ledger.events % 2 ^ 64
  swapsObserved : engine.stats.swapsObserved = ledger.swaps % 2 ^ 64
  speculativeSwaps : engine.stats.speculativeSwaps = ledger.swaps % 2 ^ 64
  arbProfitable : engine.stats.arbProfitable = ledger.captures % 2 ^ 64
  totalProfit : engine.stats.totalProfit = ledger.profit % 2 ^ 64
  bundlesSubmitted :
    engine.stats.bundlesSubmitted =
      if engine.config.dryRun then 0 else ledger.captures % 2 ^ 64
  graphRebuilds :
    engine.stats.graphRebuilds =
      (engine.shadow.poolCount + ledger.rebuilds) % 2 ^ 64
  longest : engine.stats.maxCycleLatencyNs = ledger.longest
  average :
    engine.stats.avgCycleLatencyNs ≤ engine.stats.maxCycleLatencyNs
  arenaEmpty : engine.arena.cursor = 0

variable
  {target : Target}
  {config : AsteConfig}
  {engine next : Aste}
  {elapsedNanos profit : Nat}

theorem books_new (config : AsteConfig) :
    (new config).Books Ledger.empty where
  cycleCount := rfl
  cyclesTotal := rfl
  swapsObserved := rfl
  speculativeSwaps := rfl
  arbProfitable := rfl
  totalProfit := rfl
  bundlesSubmitted := by
    change 0 = if config.dryRun then 0 else 0
    split <;> rfl
  graphRebuilds := rfl
  longest := rfl
  average := Nat.le_refl 0
  arenaEmpty := rfl

/-- A counter that wraps keeps the remainder of what is counted. -/
theorem fetchAdd_mod (total amount : Nat) :
    fetchAdd (total % 2 ^ 64) amount = (total + amount) % 2 ^ 64 := by
  unfold fetchAdd
  exact Nat.mod_add_mod total (2 ^ 64) amount

/-- Adding the remainder of an amount comes to the same. -/
theorem fetchAdd_mod_mod (total amount : Nat) :
    fetchAdd (total % 2 ^ 64) (amount % 2 ^ 64) =
      (total + amount) % 2 ^ 64 := by
  rw [fetchAdd_mod, Nat.add_mod_mod]

/-- No average exceeds a bound on the average before and the new time. -/
theorem latencyAverage_le
    {profile : Profile}
    {prev elapsedNs ema bound : Nat}
    (averaged : latencyAverage profile prev elapsedNs = .ok ema)
    (prevLe : prev ≤ bound)
    (elapsedLe : elapsedNs ≤ bound) :
    ema ≤ bound := by
  unfold latencyAverage at averaged
  split at averaged
  · obtain rfl := Except.ok.inj averaged
    exact elapsedLe
  · simp only [Checked.bind_eq_ok, div_eq_ok] at averaged
    obtain ⟨weighted, weighing, total, totalling, -, rfl⟩ := averaged
    have weightedLe : weighted ≤ prev * 15 := by
      rw [fit_wraps weighing]
      exact Nat.mod_le _ _
    have totalLe : total ≤ weighted + elapsedNs := by
      rw [fit_wraps totalling]
      exact Nat.mod_le _ _
    omega

/-- A registration adds a pool to the count if it returns an index. -/
theorem registerPool_poolCount
    {profile : Profile}
    {before after : StateShadow}
    {entry : StateShadow.Registration}
    {idx : Option Nat}
    (registered : before.registerPool profile entry = .ok (idx, after)) :
    after.poolCount = before.poolCount + if idx.isSome then 1 else 0 := by
  unfold StateShadow.registerPool at registered
  split at registered
  · obtain ⟨rfl, rfl⟩ := Prod.mk.inj (Except.ok.inj registered)
    rfl
  · simp only [Checked.bind_eq_ok, Checked.pure_eq_ok, Except.ok.injEq,
      Prod.mk.injEq] at registered
    obtain ⟨priced, -, rfl, rfl⟩ := registered
    rfl

theorem applySpeculativeSwap_poolCount
    {profile : Profile}
    {before after : StateShadow}
    {idx amountIn amountOut : Nat}
    {xToY : Bool}
    (applied :
      before.applySpeculativeSwap profile idx amountIn xToY =
        .ok (amountOut, after)) :
    after.poolCount = before.poolCount := by
  obtain ⟨pool, afterFee, newIn, k, -, -, -, rfl⟩ :=
    StateShadow.applySpeculativeSwap_cases applied
  unfold StateShadow.markDirty
  split <;> rfl

theorem updateReserves_poolCount
    {profile : Profile}
    {before after : StateShadow}
    {idx reserveX reserveY slot : Nat}
    (updated :
      before.updateReserves profile idx reserveX reserveY slot =
        .ok after) :
    after.poolCount = before.poolCount := by
  obtain ⟨pool, xPerY, yPerX, -, -, rfl⟩ :=
    StateShadow.updateReserves_cases updated
  rfl

namespace Books

variable {ledger : Ledger}

/-- The accounts do not depend on the shadow, but for the number of pools. -/
theorem withShadow
    (books : engine.Books ledger)
    {shadow : StateShadow}
    (sameCount : shadow.poolCount = engine.shadow.poolCount) :
    Books { engine with shadow := shadow } ledger :=
  { books with
    graphRebuilds := by
      rw [sameCount]
      exact books.graphRebuilds }

theorem beginCycle
    (books : engine.Books ledger)
    (begun : engine.beginCycle target = .ok next) :
    next.Books { ledger with events := ledger.events + 1 } := by
  obtain ⟨cycleCount, counted, rfl⟩ := beginCycle_cases begun
  exact
    { books with
      cycleCount := by
        rw [fit_wraps counted, books.cycleCount]
        exact fetchAdd_mod _ _
      cyclesTotal := by
        dsimp only
        rw [books.cyclesTotal]
        exact fetchAdd_mod _ _ }

theorem rebuildGraph
    (books : engine.Books ledger)
    (rebuilt : engine.rebuildGraph target = .ok next) :
    next.Books { ledger with rebuilds := ledger.rebuilds + 1 } := by
  obtain ⟨graph, -, rfl⟩ := rebuildGraph_cases rebuilt
  exact
    { books with
      graphRebuilds := by
        dsimp only
        rw [books.graphRebuilds, ← Nat.add_assoc]
        exact fetchAdd_mod _ _ }

theorem updateLatency
    (books : engine.Books ledger)
    (tracked : engine.updateLatency target elapsedNanos = .ok next) :
    next.Books { ledger with
      longest := max ledger.longest (elapsedNanos % 2 ^ 64) } := by
  obtain ⟨ema, averaged, rfl⟩ := updateLatency_cases tracked
  exact
    { books with
      longest := by
        dsimp only
        rw [books.longest]
      average :=
        latencyAverage_le averaged (le_max_of_le_left books.average)
          (le_max_right _ _) }

theorem endSwapCycle
    {result : Nat}
    (books : engine.Books ledger)
    (ended :
      engine.endSwapCycle target elapsedNanos profit =
        .ok (result, next)) :
    next.Books { ledger with
      longest := max ledger.longest (elapsedNanos % 2 ^ 64) } := by
  obtain ⟨-, tracked, tracking, rfl⟩ := endSwapCycle_cases ended
  exact { books.updateLatency tracking with arenaEmpty := rfl }

theorem simulate
    {poolIdx amountIn : Nat}
    {xToY : Bool}
    (books : engine.Books ledger)
    (simulated :
      engine.simulate target poolIdx amountIn xToY = .ok next) :
    next.Books { ledger with swaps := ledger.swaps + 1 } := by
  obtain ⟨amountOut, shadow, applied, rfl⟩ := simulate_cases simulated
  have moved := books.withShadow (applySpeculativeSwap_poolCount applied)
  exact
    { moved with
      swapsObserved := by
        dsimp only
        rw [books.swapsObserved]
        exact fetchAdd_mod _ _
      speculativeSwaps := by
        dsimp only
        rw [books.speculativeSwaps]
        exact fetchAdd_mod _ _ }

theorem solve
    {cycles : List ArbCycle}
    (books : engine.Books ledger)
    (solved : engine.solve target = .ok (cycles, next)) :
    next.Books { ledger with
      rebuilds :=
        ledger.rebuilds + if engine.RebuildsNow then 1 else 0 } := by
  obtain ⟨searched, origin, -, rfl⟩ := solve_cases solved
  rcases origin with ⟨now, rebuilt⟩ | ⟨notNow, rfl⟩
  · rw [if_pos now]
    exact { books.rebuildGraph rebuilt with }
  · rw [if_neg notNow]
    exact { books with }

/-- An executed result counts as a capture, and as a bundle in live mode. -/
theorem executeArb
    {result : ArbResult}
    (books : engine.Books ledger)
    (executed :
      engine.countProfitable.executeArb result = .ok (profit, next)) :
    next.Books { ledger with
      captures := ledger.captures + 1
      profit := ledger.profit + profit } := by
  obtain ⟨rfl, -, rfl⟩ := executeArb_cases executed
  exact
    { books with
      arbProfitable := by
        change fetchAdd engine.stats.arbProfitable 1 = _
        rw [books.arbProfitable]
        exact fetchAdd_mod _ _
      totalProfit := by
        change fetchAdd engine.stats.totalProfit _ = _
        rw [books.totalProfit]
        exact fetchAdd_mod_mod _ _
      bundlesSubmitted := by
        change
          (if engine.config.dryRun then engine.stats.bundlesSubmitted
            else fetchAdd engine.stats.bundlesSubmitted 1) =
            if engine.config.dryRun then 0
            else (ledger.captures + 1) % 2 ^ 64
        rw [books.bundlesSubmitted]
        split
        · rfl
        · exact fetchAdd_mod _ _ }

end Books

/-- What is executed gains something. -/
theorem Executes.profit_pos
    {cycles : List ArbCycle}
    {executing : Aste}
    {result : ArbResult}
    (executes : Executes target engine cycles executing result) :
    0 < result.netProfit := by
  obtain ⟨rest, evaluated, -⟩ := executes
  obtain ⟨cycle, -, evaluates, isProfit, -⟩ :=
    evaluateBatch_gains evaluated List.mem_cons_self
  rw [isProfit]
  exact Nat.sub_pos_of_lt evaluates.gain

namespace Books

variable {ledger : Ledger}

theorem processSwap
    {poolIdx amountIn : Nat}
    {xToY : Bool}
    (books : engine.Books ledger)
    (processed :
      engine.processSwap target elapsedNanos poolIdx amountIn xToY =
        .ok (profit, next)) :
    next.Books { ledger with
      swaps := ledger.swaps + 1
      rebuilds :=
        ledger.rebuilds + if engine.RebuildsNow then 1 else 0
      captures := ledger.captures + if 0 < profit then 1 else 0
      profit := ledger.profit + profit
      longest := max ledger.longest (elapsedNanos % 2 ^ 64) } := by
  obtain ⟨simulated, cycles, solved, simulating, solving, ended⟩ :=
    processSwap_cases processed
  have searched := (books.simulate simulating).solve solving
  have sameCycle : simulated.RebuildsNow ↔ engine.RebuildsNow := by
    obtain ⟨amountOut, shadow, -, rfl⟩ := simulate_cases simulating
    exact Iff.rfl
  simp only [sameCycle] at searched
  rcases ended with
    ended | ⟨executing, result, gain, executed, executes, execution, ended⟩
  · obtain ⟨rfl, -⟩ := endSwapCycle_cases ended
    exact { searched.endSwapCycle ended with }
  · have gains := executes.profit_pos
    obtain ⟨rest, -, rfl⟩ := executes
    obtain ⟨rfl, -⟩ := endSwapCycle_cases ended
    obtain ⟨isProfit, -⟩ := executeArb_cases execution
    rw [if_pos (isProfit ▸ gains)]
    exact { (searched.executeArb execution).endSwapCycle ended with }

/-- An event is written into the ledger with its profit. -/
theorem processEvent
    {event : MempoolEvent}
    (books : engine.Books ledger)
    (processed :
      engine.processEvent target elapsedNanos event = .ok (profit, next)) :
    next.Books
      (ledger.event engine.config.graphRebuildInterval
        ⟨event, elapsedNanos⟩ profit) := by
  obtain ⟨counted, counting, processed⟩ := processEvent_cases processed
  have begun := books.beginCycle counting
  cases event with
  | pendingSwap poolIdx amountIn xToY =>
      have swapped := begun.processSwap processed
      have sameCycle :
          counted.RebuildsNow ↔
            (ledger.events + 1) % 2 ^ 64 %
              engine.config.graphRebuildInterval = 0 := by
        rw [RebuildsNow, begun.cycleCount]
        obtain ⟨cycleCount, -, rfl⟩ := beginCycle_cases counting
        exact Iff.rfl
      simp only [sameCycle] at swapped
      exact swapped
  | newBlock slot =>
      obtain ⟨rfl, rebuilt, rebuilding, tracking⟩ :=
        processBlock_cases processed
      have reverted :
          Books { counted with shadow := counted.shadow.onNewBlock slot } _ :=
        begun.withShadow rfl
      exact { (reverted.rebuildGraph rebuilding).updateLatency tracking with }
  | poolUpdate poolIdx reserveX reserveY slot =>
      obtain ⟨rfl, shadow, updated, tracking⟩ := processed
      exact
        { (begun.withShadow
            (updateReserves_poolCount updated)).updateLatency tracking with }

/-- A registration is not written into the ledger. -/
theorem registerPool
    {entry : StateShadow.Registration}
    {idx : Option Nat}
    (books : engine.Books ledger)
    (registered : engine.registerPool target entry = .ok (idx, next)) :
    next.Books ledger := by
  obtain ⟨shadow, entered, registered⟩ := registerPool_cases registered
  have count := registerPool_poolCount entered
  split at registered
  next isNew =>
    obtain ⟨graph, -, rfl⟩ := rebuildGraph_cases registered
    rw [if_pos isNew] at count
    exact
      { books with
        graphRebuilds := by
          dsimp only
          rw [books.graphRebuilds, count, Nat.add_right_comm]
          exact fetchAdd_mod _ _ }
  next isFull =>
    rw [if_neg isFull, Nat.add_zero] at count
    exact registered ▸ books.withShadow count

end Books

/-- In every run the counters say what the log adds up to. -/
theorem Reached.books
    {log : List (Call × Nat)}
    (reached : Reached target config log engine) :
    engine.Books (Ledger.ofLog config.graphRebuildInterval log) := by
  have kept :
      engine.Consistent config ∧
        engine.Books (Ledger.ofLog config.graphRebuildInterval log) := by
    have start :
        (new config).Consistent config ∧
          (new config).Books
            (Ledger.ofLog config.graphRebuildInterval []) :=
      ⟨consistent_new config, books_new config⟩
    refine Run.preserves_logged
      (fun log engine =>
        engine.Consistent config ∧
          engine.Books (Ledger.ofLog config.graphRebuildInterval log))
      ?_ reached start
    rintro log before ⟨made, profit⟩ after ⟨consistent, books⟩ called
    rw [Ledger.ofLog, List.foldl_append]
    cases made with
    | register entry =>
        obtain ⟨-, idx, registered⟩ := calls_register called
        exact ⟨consistent.registerPool registered,
          books.registerPool registered⟩
    | process arrival =>
        have written := books.processEvent called
        rw [consistent.sameConfig] at written
        exact ⟨consistent.processEvent called, written⟩
  exact kept.2

end Aste

namespace AsteLoop

open Aste

variable
  {target : Target}
  {config : AsteConfig}
  {engine : Aste}

/-- The metrics of the daemon say what the ledger says. -/
structure Metrics (loop : AsteLoop) (ledger : Ledger) : Prop where
  revenue : loop.mevRevenueSat = ledger.profit % 2 ^ 64
  bundles : loop.mevBundlesSubmitted = ledger.captures % 2 ^ 64

/-- A received event is one call of the engine, and its profit is revenue. -/
theorem receive_cases
    {loop next : AsteLoop}
    {ledger : Ledger}
    {arrival : Arrival}
    (metrics : loop.Metrics ledger)
    (interval : Nat)
    (received : loop.receive target arrival = .ok next) :
    ∃ profit,
      Calls target loop.engine (.process arrival, profit) next.engine ∧
        next.Metrics (ledger.event interval arrival profit) := by
  simp only [receive, Checked.bind_eq_ok] at received
  obtain ⟨⟨profit, processed⟩, processing, received⟩ := received
  refine ⟨profit, ?_⟩
  split at received
  next gained =>
    obtain rfl := Except.ok.inj received
    refine ⟨processing, ?_, ?_⟩
    · change fetchAdd loop.mevRevenueSat (profit % 2 ^ 64) = _
      rw [metrics.revenue]
      exact fetchAdd_mod_mod _ _
    · change fetchAdd loop.mevBundlesSubmitted 1 = _
      rw [metrics.bundles, Ledger.event, if_pos gained]
      exact fetchAdd_mod _ _
  next noGain =>
    obtain rfl := Except.ok.inj received
    obtain rfl := Nat.eq_zero_of_not_pos noGain
    exact ⟨processing, metrics.revenue, metrics.bundles⟩

/-- The events of a run are calls of the engine, and all profit is revenue. -/
theorem run_cases
    {loop final : AsteLoop}
    {arrivals : List Arrival}
    {ledger : Ledger}
    (metrics : loop.Metrics ledger)
    (interval : Nat)
    (ran : loop.run target arrivals = .ok final) :
    ∃ log,
      log.map Prod.fst = arrivals.map Call.process ∧
        Run (Calls target) loop.engine log final.engine ∧
        final.Metrics (log.foldl (Ledger.record interval) ledger) := by
  induction arrivals generalizing loop ledger with
  | nil =>
      obtain rfl := Except.ok.inj ran
      exact ⟨[], rfl, .nil _, metrics⟩
  | cons arrival arrivals inductionHypothesis =>
      rw [run, List.foldlM_cons, Checked.bind_eq_ok] at ran
      obtain ⟨next, received, later⟩ := ran
      obtain ⟨profit, called, nextMetrics⟩ :=
        receive_cases metrics interval received
      obtain ⟨log, made, laterRun, finalMetrics⟩ :=
        inductionHypothesis nextMetrics later
      refine ⟨(.process arrival, profit) :: log, ?_, .cons called laterRun,
        finalMetrics⟩
      rw [List.map_cons, List.map_cons, made]

/-- Registrations leave the ledger empty. -/
theorem ofLog_registrations
    {interval : Nat}
    {setup : List (Call × Nat)}
    (registrations : ∀ made ∈ setup, ∃ entry, made.1 = .register entry) :
    Ledger.ofLog interval setup = Ledger.empty := by
  induction setup with
  | nil =>
      rfl
  | cons made setup inductionHypothesis =>
      obtain ⟨⟨entry, isRegistration⟩, later⟩ :=
        List.forall_mem_cons.mp registrations
      obtain ⟨call, profit⟩ := made
      obtain rfl : call = .register entry := isRegistration
      exact inductionHypothesis later

/--
After any registrations, the loop accounts for the events that it receives: the
engine's counters and the daemon's metrics are the sums over the log of events
and profits, and the metric for bundles counts those of a dry run too.
-/
theorem run_keeps_books
    {setup : List (Call × Nat)}
    {arrivals : List Arrival}
    {final : AsteLoop}
    (reached : Reached target config setup engine)
    (registrations : ∀ made ∈ setup, ∃ entry, made.1 = .register entry)
    (ran : (AsteLoop.mk engine 0 0).run target arrivals = .ok final) :
    ∃ log,
      log.map Prod.fst = arrivals.map Call.process ∧
        Run (Calls target) engine log final.engine ∧
        final.engine.Books
          (Ledger.ofLog config.graphRebuildInterval log) ∧
        final.Metrics (Ledger.ofLog config.graphRebuildInterval log) := by
  have noMetrics : (AsteLoop.mk engine 0 0).Metrics Ledger.empty :=
    ⟨rfl, rfl⟩
  obtain ⟨log, made, run, metrics⟩ :=
    run_cases noMetrics config.graphRebuildInterval ran
  have whole : Reached target config (setup ++ log) final.engine :=
    LabelledRun.Run.append reached run
  have books := whole.books
  rw [Ledger.ofLog, List.foldl_append] at books
  have noEntries :
      setup.foldl (Ledger.record config.graphRebuildInterval)
          Ledger.empty = Ledger.empty :=
    ofLog_registrations registrations
  rw [noEntries] at books
  exact ⟨log, made, run, books, metrics⟩

/-- A dry run over two pools: one capture of 202, no bundle, one block. -/
theorem dry_run_keeps_books :
    ∃ engine final log,
      (AsteLoop.mk engine 0 0).run crossTarget
          [⟨.pendingSwap 0 10 true, 800⟩, ⟨.newBlock 8, 900⟩] =
        .ok final ∧
      final.engine.Books (Ledger.ofLog 50 log) ∧
      final.Metrics (Ledger.ofLog 50 log) := by
  have returned :
      (do
        let one ← (Aste.new crossConfig).call crossTarget
          (.register (crossEntry 1 1000 2000))
        let two ← one.2.call crossTarget
          (.register (crossEntry 2 2000 1000))
        let final ← (AsteLoop.mk two.2 0 0).run crossTarget
          [⟨.pendingSwap 0 10 true, 800⟩, ⟨.newBlock 8, 900⟩]
        return final.mevRevenueSat : Checked Nat) = .ok 202 := by
    decide +kernel
  simp only [Checked.bind_eq_ok, Checked.pure_eq_ok, Except.ok.injEq]
    at returned
  obtain ⟨⟨profitOne, one⟩, first, ⟨profitTwo, two⟩, second, final, ran,
    -⟩ := returned
  have reached :
      Reached crossTarget crossConfig
        [(.register (crossEntry 1 1000 2000), profitOne),
          (.register (crossEntry 2 2000 1000), profitTwo)] two :=
    .cons first (.cons second (.nil two))
  obtain ⟨log, -, -, books, metrics⟩ :=
    run_keeps_books reached (by simp) ran
  exact ⟨two, final, log, ran, books, metrics⟩

end AsteLoop

end YieldDaemon
