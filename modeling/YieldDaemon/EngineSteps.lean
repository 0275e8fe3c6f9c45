import YieldDaemon.Aste
import YieldDaemon.LabelledRun

namespace YieldDaemon

open CheckedArithmetic

/-!
# Steps of the engine

The calls of an engine are the labels of a transition system, each with the
profit that it returns.  For each phase of a call one lemma says everything that
it does when it succeeds.
-/

namespace Aste

/-- A public call that changes an engine. -/
inductive Call where
  | register (entry : StateShadow.Registration)
  | process (arrival : Arrival)

/-- Make the call; a registration has no profit. -/
def call (target : Target) (engine : Aste) :
    Call → Checked (Nat × Aste)
  | .register entry => do
    let (_, registered) ← engine.registerPool target entry
    return (0, registered)
  | .process arrival =>
    engine.processEvent target arrival.elapsedNanos arrival.event

/-- The call returns the profit and leaves the engine. -/
def Calls
    (target : Target)
    (engine : Aste)
    (made : Call × Nat)
    (next : Aste) : Prop :=
  engine.call target made.1 = .ok (made.2, next)

/-- The engine comes from a new one by the calls of a log. -/
def Reached (target : Target) (config : AsteConfig) :
    List (Call × Nat) → Aste → Prop :=
  LabelledRun.Run (Calls target) (new config)

variable
  {target : Target}
  {engine next : Aste}
  {elapsedNanos profit : Nat}

theorem rebuildGraph_cases
    (rebuilt : engine.rebuildGraph target = .ok next) :
    ∃ graph,
      engine.graph.buildFromShadow target.floats engine.shadow =
          .ok graph ∧
        next = { engine with
          graph := graph
          stats := { engine.stats with
            graphRebuilds := fetchAdd engine.stats.graphRebuilds 1 } } := by
  simp only [rebuildGraph, Checked.bind_eq_ok, Checked.pure_eq_ok,
    Except.ok.injEq] at rebuilt
  obtain ⟨graph, built, rfl⟩ := rebuilt
  exact ⟨graph, built, rfl⟩

theorem updateLatency_cases
    (tracked : engine.updateLatency target elapsedNanos = .ok next) :
    ∃ ema,
      latencyAverage target.profile engine.stats.avgCycleLatencyNs
          (elapsedNanos % 2 ^ 64) = .ok ema ∧
        next = { engine with
          stats := { engine.stats with
            avgCycleLatencyNs := ema
            maxCycleLatencyNs :=
              max engine.stats.maxCycleLatencyNs
                (elapsedNanos % 2 ^ 64) } } := by
  simp only [updateLatency, Checked.bind_eq_ok, Checked.pure_eq_ok,
    Except.ok.injEq] at tracked
  obtain ⟨ema, averaged, rfl⟩ := tracked
  exact ⟨ema, averaged, rfl⟩

theorem endSwapCycle_cases
    {result : Nat}
    (ended :
      engine.endSwapCycle target elapsedNanos profit = .ok (result, next)) :
    result = profit ∧
      ∃ tracked,
        engine.updateLatency target elapsedNanos = .ok tracked ∧
          next = { tracked with arena := tracked.arena.reset } := by
  simp only [endSwapCycle, Checked.bind_eq_ok, Checked.pure_eq_ok,
    Except.ok.injEq, Prod.mk.injEq] at ended
  obtain ⟨tracked, tracking, rfl, rfl⟩ := ended
  exact ⟨rfl, tracked, tracking, rfl⟩

theorem beginCycle_cases
    (begun : engine.beginCycle target = .ok next) :
    ∃ cycleCount,
      add target.profile 64 engine.cycleCount 1 = .ok cycleCount ∧
        next = { engine with
          cycleCount := cycleCount
          stats := { engine.stats with
            cyclesTotal := fetchAdd engine.stats.cyclesTotal 1 } } := by
  simp only [beginCycle, Checked.bind_eq_ok, Checked.pure_eq_ok,
    Except.ok.injEq] at begun
  obtain ⟨cycleCount, counted, rfl⟩ := begun
  exact ⟨cycleCount, counted, rfl⟩

theorem simulate_cases
    {poolIdx amountIn : Nat}
    {xToY : Bool}
    (simulated :
      engine.simulate target poolIdx amountIn xToY = .ok next) :
    ∃ amountOut shadow,
      engine.shadow.applySpeculativeSwap target.profile poolIdx amountIn
          xToY = .ok (amountOut, shadow) ∧
        next = { engine with
          shadow := shadow
          stats := { engine.stats with
            swapsObserved := fetchAdd engine.stats.swapsObserved 1
            speculativeSwaps :=
              fetchAdd engine.stats.speculativeSwaps 1 } } := by
  simp only [simulate, Checked.bind_eq_ok, Checked.pure_eq_ok,
    Except.ok.injEq] at simulated
  obtain ⟨⟨amountOut, shadow⟩, applied, rfl⟩ := simulated
  exact ⟨amountOut, shadow, applied, rfl⟩

/-- The cycle is one of those that start with a rebuilt graph. -/
def RebuildsNow (engine : Aste) : Prop :=
  engine.cycleCount % engine.config.graphRebuildInterval = 0

instance (engine : Aste) : Decidable engine.RebuildsNow :=
  inferInstanceAs (Decidable (_ = _))

/-- The search runs on the graph as it is, unless it is rebuilt first. -/
theorem solve_cases
    {cycles : List ArbCycle}
    (solved : engine.solve target = .ok (cycles, next)) :
    ∃ searched,
      (engine.RebuildsNow ∧ engine.rebuildGraph target = .ok searched ∨
        ¬ engine.RebuildsNow ∧ searched = engine) ∧
        searched.graph.findArbitrageCycles searched.config.maxHops =
          .ok cycles ∧
        next = { searched with
          stats := { searched.stats with
            arbCyclesDetected :=
              fetchAdd searched.stats.arbCyclesDetected
                cycles.length } } := by
  simp only [solve, Checked.bind_eq_ok] at solved
  obtain ⟨phase, isPhase, solved⟩ := solved
  obtain ⟨-, rfl⟩ := rem_eq_ok.mp isPhase
  split at solved
  next now =>
    simp only [Checked.bind_eq_ok, Checked.pure_eq_ok, Except.ok.injEq,
      Prod.mk.injEq] at solved
    obtain ⟨searched, rebuilt, found, searching, rfl, rfl⟩ := solved
    exact ⟨searched, .inl ⟨now, rebuilt⟩, searching, rfl⟩
  next notNow =>
    simp only [Checked.bind_eq_ok, Checked.pure_eq_ok, Except.ok.injEq,
      Prod.mk.injEq] at solved
    obtain ⟨searched, rfl, found, searching, rfl, rfl⟩ := solved
    exact ⟨engine, .inr ⟨notNow, rfl⟩, searching, rfl⟩

theorem executeArb_cases
    {result : ArbResult}
    (executed : engine.executeArb result = .ok (profit, next)) :
    profit = result.netProfit ∧
      (∃ bundle, engine.resultBundle result = .ok bundle) ∧
      next = { engine with
        stats := { engine.stats with
          bundlesSubmitted :=
            if engine.config.dryRun then
              engine.stats.bundlesSubmitted
            else
              fetchAdd engine.stats.bundlesSubmitted 1
          totalProfit :=
            fetchAdd engine.stats.totalProfit
              (result.netProfit % 2 ^ 64) } } := by
  simp only [executeArb, Checked.bind_eq_ok] at executed
  obtain ⟨bundle, bundled, executed⟩ := executed
  split at executed
  next isDry =>
    obtain ⟨rfl, rfl⟩ := Prod.mk.inj (Except.ok.inj executed)
    exact ⟨rfl, ⟨bundle, bundled⟩, by rw [if_pos isDry]⟩
  next isLive =>
    obtain ⟨rfl, rfl⟩ := Prod.mk.inj (Except.ok.inj executed)
    exact ⟨rfl, ⟨bundle, bundled⟩, by rw [if_neg isLive]⟩

/-- The engine with one more profitable opportunity counted. -/
def countProfitable (engine : Aste) : Aste :=
  { engine with
    stats := { engine.stats with
      arbProfitable := fetchAdd engine.stats.arbProfitable 1 } }

/-- `executing` comes to `execute_arb` with the result in a swap's cycle. -/
def Executes
    (target : Target)
    (solved : Aste)
    (cycles : List ArbCycle)
    (executing : Aste)
    (result : ArbResult) : Prop :=
  ∃ rest,
    solved.solver.evaluateBatch target.profile target.profitSort
        solved.shadow cycles = .ok (result :: rest) ∧
      executing = solved.countProfitable

/-- A swap's cycle ends without a profit or with an executed result. -/
theorem processSwap_cases
    {poolIdx amountIn : Nat}
    {xToY : Bool}
    (processed :
      engine.processSwap target elapsedNanos poolIdx amountIn xToY =
        .ok (profit, next)) :
    ∃ simulated cycles solved,
      engine.simulate target poolIdx amountIn xToY = .ok simulated ∧
        simulated.solve target = .ok (cycles, solved) ∧
        (solved.endSwapCycle target elapsedNanos 0 = .ok (profit, next) ∨
          ∃ executing result gain executed,
            Executes target solved cycles executing result ∧
              executing.executeArb result = .ok (gain, executed) ∧
              executed.endSwapCycle target elapsedNanos gain =
                .ok (profit, next)) := by
  simp only [processSwap, Checked.bind_eq_ok] at processed
  obtain ⟨simulated, simulating, ⟨cycles, solved⟩, solving, finished⟩ :=
    processed
  refine ⟨simulated, cycles, solved, simulating, solving, ?_⟩
  split at finished
  · exact .inl finished
  simp only [Checked.bind_eq_ok] at finished
  obtain ⟨results, evaluated, finished⟩ := finished
  cases results with
  | nil =>
      exact .inl finished
  | cons result rest =>
      simp only [Checked.bind_eq_ok] at finished
      obtain ⟨⟨gain, executed⟩, executing, ended⟩ := finished
      exact .inr ⟨solved.countProfitable, result, gain, executed,
        ⟨rest, evaluated, rfl⟩, executing, ended⟩

theorem processBlock_cases
    {slot : Nat}
    (processed :
      engine.processBlock target elapsedNanos slot = .ok (profit, next)) :
    profit = 0 ∧
      ∃ rebuilt,
        rebuildGraph target
            { engine with shadow := engine.shadow.onNewBlock slot } =
          .ok rebuilt ∧
        rebuilt.updateLatency target elapsedNanos = .ok next := by
  simp only [processBlock, Checked.bind_eq_ok, Checked.pure_eq_ok,
    Except.ok.injEq, Prod.mk.injEq] at processed
  obtain ⟨rebuilt, rebuilding, tracked, tracking, rfl, rfl⟩ := processed
  exact ⟨rfl, rebuilt, rebuilding, tracking⟩

/-- An event counts a cycle and is then processed by its kind. -/
theorem processEvent_cases
    {event : MempoolEvent}
    (processed :
      engine.processEvent target elapsedNanos event = .ok (profit, next)) :
    ∃ counted,
      engine.beginCycle target = .ok counted ∧
        match event with
        | .pendingSwap poolIdx amountIn xToY =>
            counted.processSwap target elapsedNanos poolIdx amountIn xToY =
              .ok (profit, next)
        | .newBlock slot =>
            counted.processBlock target elapsedNanos slot =
              .ok (profit, next)
        | .poolUpdate poolIdx reserveX reserveY slot =>
            profit = 0 ∧
              ∃ shadow,
                counted.shadow.updateReserves target.profile poolIdx
                    reserveX reserveY slot = .ok shadow ∧
                  updateLatency target { counted with shadow := shadow }
                    elapsedNanos = .ok next := by
  simp only [processEvent, Checked.bind_eq_ok] at processed
  obtain ⟨counted, counting, processed⟩ := processed
  refine ⟨counted, counting, ?_⟩
  cases event with
  | pendingSwap poolIdx amountIn xToY =>
      exact processed
  | newBlock slot =>
      exact processed
  | poolUpdate poolIdx reserveX reserveY slot =>
      simp only [Checked.bind_eq_ok, Checked.pure_eq_ok, Except.ok.injEq,
        Prod.mk.injEq] at processed
      obtain ⟨shadow, updated, tracked, tracking, rfl, rfl⟩ := processed
      exact ⟨rfl, shadow, updated, tracking⟩

/-- A registration rebuilds the graph if it found room for the pool. -/
theorem registerPool_cases
    {entry : StateShadow.Registration}
    {idx : Option Nat}
    (registered : engine.registerPool target entry = .ok (idx, next)) :
    ∃ shadow,
      engine.shadow.registerPool target.profile entry = .ok (idx, shadow) ∧
        if idx.isSome then
          rebuildGraph target { engine with shadow := shadow } = .ok next
        else
          next = { engine with shadow := shadow } := by
  simp only [registerPool, Checked.bind_eq_ok] at registered
  obtain ⟨⟨found, shadow⟩, entered, registered⟩ := registered
  refine ⟨shadow, ?_⟩
  split at registered
  next isNew =>
    simp only [Checked.bind_eq_ok, Checked.pure_eq_ok, Except.ok.injEq,
      Prod.mk.injEq] at registered
    obtain ⟨rebuilt, rebuilding, rfl, rfl⟩ := registered
    rw [if_pos isNew]
    exact ⟨entered, rebuilding⟩
  next isFull =>
    obtain ⟨rfl, rfl⟩ := Prod.mk.inj (Except.ok.inj registered)
    rw [if_neg isFull]
    exact ⟨entered, rfl⟩

/-- A call that registers a pool. -/
theorem calls_register
    {entry : StateShadow.Registration}
    (called : Calls target engine (.register entry, profit) next) :
    profit = 0 ∧
      ∃ idx, engine.registerPool target entry = .ok (idx, next) := by
  simp only [Calls, call, Checked.bind_eq_ok, Checked.pure_eq_ok,
    Except.ok.injEq, Prod.mk.injEq] at called
  obtain ⟨⟨idx, registered⟩, registering, rfl, rfl⟩ := called
  exact ⟨rfl, idx, registering⟩

end Aste

end YieldDaemon
