import Mathlib.Data.Int.Log
import YieldDaemon.Aste

namespace YieldDaemon

open CheckedArithmetic

/-!
# Events of an engine without pools

`run_aste` registers no pool, and the events that it receives register none.
Such an engine gets through every block, and every pending swap stops it: a
debug build at the assertion on the pool index, a release build at the
division by the fee denominator zero.
-/

namespace StateShadow

/-- No pool is registered and no fee is set. -/
structure WithoutPools (shadow : StateShadow) : Prop where
  noPool : shadow.poolCount = 0
  noFee : ∀ pool, shadow.feeDen pool = 0

theorem withoutPools_new : new.WithoutPools :=
  ⟨rfl, fun _ => rfl⟩

/-- A confirmed block leaves the pools and the fees unchanged. -/
theorem WithoutPools.onNewBlock
    {shadow : StateShadow}
    (empty : shadow.WithoutPools)
    (slot : Nat) :
    (shadow.onNewBlock slot).WithoutPools :=
  ⟨empty.noPool, empty.noFee⟩

/-- No fee can be charged with the denominator zero. -/
theorem amountAfterFee_zero
    (profile : Profile)
    (amountIn feeNum result : Nat) :
    amountAfterFee profile amountIn feeNum 0 ≠ .ok result := by
  intro charged
  simp only [amountAfterFee, Checked.bind_eq_ok, div_eq_ok] at charged
  obtain ⟨scaled, -, fee, ⟨nonzero, -⟩, -⟩ := charged
  exact nonzero rfl

/-- A speculative swap in a shadow without pools does not return. -/
theorem WithoutPools.applySpeculativeSwap_ne
    {shadow : StateShadow}
    (empty : shadow.WithoutPools)
    (profile : Profile)
    (idx amountIn : Nat)
    (xToY : Bool)
    (result : Nat × StateShadow) :
    shadow.applySpeculativeSwap profile idx amountIn xToY ≠ .ok result := by
  intro applied
  simp only [applySpeculativeSwap, Checked.bind_eq_ok] at applied
  obtain ⟨-, -, pool, -, fee, charged, -⟩ := applied
  rw [empty.noFee pool] at charged
  exact amountAfterFee_zero profile amountIn (shadow.feeNum pool) fee charged

end StateShadow

/-- Without pools the rebuilt graph is the empty one. -/
theorem PriceGraph.buildFromShadow_of_withoutPools
    (floats : FloatRates)
    (graph : PriceGraph)
    {shadow : StateShadow}
    (empty : shadow.WithoutPools) :
    graph.buildFromShadow floats shadow = .ok PriceGraph.new := by
  rw [buildFromShadow, empty.noPool]
  rfl

namespace Aste

/-- A span of time of the host, in nanoseconds: less than 36 years. -/
def clockLimit : Nat := 2 ^ 60

/-- An average of times within the limit is within the limit. -/
theorem latencyAverage_returns
    {profile : Profile}
    {prev elapsedNs : Nat}
    (prevLow : profile = .debug → prev < clockLimit)
    (elapsedLow : profile = .debug → elapsedNs < clockLimit) :
    ∃ ema, latencyAverage profile prev elapsedNs = .ok ema ∧
      (profile = .debug → ema < clockLimit) := by
  unfold latencyAverage
  by_cases first : prev = 0
  · exact ⟨elapsedNs, if_pos first, elapsedLow⟩
  · rw [if_neg first]
    cases profile with
    | debug =>
        have prevLow := prevLow rfl
        have elapsedLow := elapsedLow rfl
        unfold clockLimit at prevLow elapsedLow ⊢
        refine ⟨(prev * 15 + elapsedNs) / 16, ?_, fun _ => by omega⟩
        simp only [Checked.bind_eq_ok, mul_debug_eq_ok, add_debug_eq_ok,
          div_eq_ok]
        exact ⟨prev * 15, ⟨by omega, rfl⟩, prev * 15 + elapsedNs,
          ⟨by omega, rfl⟩, by decide, rfl⟩
    | release =>
        obtain ⟨weighted, weighting⟩ := mul_release_returns 64 prev 15
        obtain ⟨total, totalling⟩ := add_release_returns 64 weighted elapsedNs
        refine ⟨total / 16, ?_, fun isDebug => by cases isDebug⟩
        rw [weighting, Checked.ok_bind, totalling, Checked.ok_bind]
        rfl

/--
An engine without pools that can still take the given number of events.  A
release build wraps its counters, so only a debug build has to have room.
-/
structure Ready (target : Target) (engine : Aste) (events : Nat) : Prop where
  withoutPools : engine.shadow.WithoutPools
  cyclesLeft :
    target.profile = .debug → engine.cycleCount + events < 2 ^ 64
  latencyLow :
    target.profile = .debug →
      engine.stats.avgCycleLatencyNs < clockLimit

theorem ready_new
    (target : Target)
    (config : AsteConfig)
    {events : Nat}
    (room : target.profile = .debug → events < 2 ^ 64) :
    (new config).Ready target events where
  withoutPools := StateShadow.withoutPools_new
  cyclesLeft debugBuild := by
    simpa [new] using room debugBuild
  latencyLow _ := by
    simp [new, AsteStats.new, clockLimit]

/-- The cycle counter takes one more event when there is room for it. -/
theorem cycle_counted
    {profile : Profile}
    {cycleCount events : Nat}
    (cyclesLeft :
      profile = .debug → cycleCount + (events + 1) < 2 ^ 64) :
    ∃ next,
      add profile 64 cycleCount 1 = .ok next ∧
        (profile = .debug → next + events < 2 ^ 64) := by
  cases profile with
  | debug =>
      have cyclesLeft := cyclesLeft rfl
      refine ⟨cycleCount + 1, ?_, fun _ => by omega⟩
      exact fit_of_lt (by omega)
  | release =>
      obtain ⟨next, counting⟩ := add_release_returns 64 cycleCount 1
      exact ⟨next, counting, nofun⟩

/-- Counting a cycle uses up the room for one event. -/
theorem Ready.beginCycle
    {target : Target}
    {engine : Aste}
    {events : Nat}
    (ready : engine.Ready target (events + 1)) :
    ∃ counted, engine.beginCycle target = .ok counted ∧
      counted.Ready target events := by
  obtain ⟨cycleCount, counting, room⟩ := cycle_counted ready.cyclesLeft
  rw [Aste.beginCycle, counting, Checked.ok_bind]
  exact ⟨_, rfl, ready.withoutPools, room, ready.latencyLow⟩

/-- Tracking the latency returns and leaves the rest of the engine. -/
theorem Ready.updateLatency
    {target : Target}
    {engine : Aste}
    {events elapsedNanos : Nat}
    (ready : engine.Ready target events)
    (elapsedLow :
      target.profile = .debug → elapsedNanos < clockLimit) :
    ∃ tracked, engine.updateLatency target elapsedNanos = .ok tracked ∧
      tracked.Ready target events := by
  obtain ⟨ema, averaging, emaLow⟩ :=
    latencyAverage_returns ready.latencyLow
      (fun debugBuild =>
        (Nat.mod_le elapsedNanos (2 ^ 64)).trans_lt (elapsedLow debugBuild))
  rw [Aste.updateLatency, averaging, Checked.ok_bind]
  exact ⟨_, rfl, ready.withoutPools, ready.cyclesLeft, emaLow⟩

/-- A block is processed: the graph is rebuilt from no pools. -/
theorem Ready.processBlock
    {target : Target}
    {engine : Aste}
    {events elapsedNanos : Nat}
    (ready : engine.Ready target events)
    (elapsedLow :
      target.profile = .debug → elapsedNanos < clockLimit)
    (slot : Nat) :
    ∃ profit next,
      engine.processBlock target elapsedNanos slot = .ok (profit, next) ∧
        next.Ready target events := by
  have rebuilding :=
    PriceGraph.buildFromShadow_of_withoutPools target.floats engine.graph
      (ready.withoutPools.onNewBlock slot)
  obtain ⟨rebuilt, rebuiltEq, rebuiltReady⟩ :
      ∃ rebuilt,
        rebuildGraph target
            { engine with shadow := engine.shadow.onNewBlock slot } =
          .ok rebuilt ∧
        rebuilt.Ready target events := by
    rw [rebuildGraph, rebuilding, Checked.ok_bind]
    exact ⟨_, rfl, ready.withoutPools.onNewBlock slot, ready.cyclesLeft,
      ready.latencyLow⟩
  obtain ⟨tracked, tracking, trackedReady⟩ :=
    rebuiltReady.updateLatency elapsedLow
  refine ⟨0, tracked, ?_, trackedReady⟩
  rw [Aste.processBlock, rebuiltEq, Checked.ok_bind, tracking]
  rfl

/-- An engine without pools gets through a confirmed block. -/
theorem Ready.processEvent_newBlock
    {target : Target}
    {engine : Aste}
    {events elapsedNanos : Nat}
    (ready : engine.Ready target (events + 1))
    (elapsedLow :
      target.profile = .debug → elapsedNanos < clockLimit)
    (slot : Nat) :
    ∃ profit next,
      engine.processEvent target elapsedNanos (.newBlock slot) =
          .ok (profit, next) ∧
        next.Ready target events := by
  obtain ⟨counted, counting, countedReady⟩ := ready.beginCycle
  obtain ⟨profit, next, processing, nextReady⟩ :=
    countedReady.processBlock elapsedLow slot
  refine ⟨profit, next, ?_, nextReady⟩
  rw [Aste.processEvent, counting, Checked.ok_bind]
  exact processing

/-- An engine without pools does not get through a pending swap. -/
theorem Ready.processEvent_pendingSwap_ne
    {target : Target}
    {engine : Aste}
    {events : Nat}
    (ready : engine.Ready target (events + 1))
    (elapsedNanos poolIdx amountIn : Nat)
    (xToY : Bool)
    (result : Nat × Aste) :
    engine.processEvent target elapsedNanos
        (.pendingSwap poolIdx amountIn xToY) ≠ .ok result := by
  intro processed
  obtain ⟨counted, counting, countedReady⟩ := ready.beginCycle
  rw [Aste.processEvent, counting, Checked.ok_bind] at processed
  simp only [processSwap, simulate, Checked.bind_eq_ok] at processed
  obtain ⟨simulated, ⟨swapped, swapping, -⟩, -⟩ := processed
  exact countedReady.withoutPools.applySpeculativeSwap_ne target.profile
    poolIdx amountIn xToY swapped swapping

end Aste

/-- The float computations carried out on exact rates. -/
def exactFloats : FloatRates where
  Rate := ℚ
  rate reserveIn reserveOut feeNum feeDen :=
    (reserveOut / reserveIn) * (1 - feeNum / feeDen)
  isNotPositive rate := rate ≤ 0
  -- Truncation is towards zero, whatever the sign of the logarithm.
  weight rate :=
    if 1 ≤ rate then
      -Int.log 2 (rate ^ 65536)
    else
      Int.log 2 (rate⁻¹ ^ 65536)

/-- A stable sort is one of the sorts by profit. -/
def stableSort : ProfitSort where
  sort results :=
    results.mergeSort
      (fun first second => second.netProfit ≤ first.netProfit)
  perm results := List.mergeSort_perm results _
  sorted results := by
    have ordered :
        (results.mergeSort
            (fun first second => second.netProfit ≤ first.netProfit)).Pairwise
          (fun first second =>
            decide (second.netProfit ≤ first.netProfit) = true) := by
      apply List.pairwise_mergeSort
      · intro first second third
        simpa using fun earlier later => Nat.le_trans later earlier
      · intro first second
        simpa using Nat.le_total second.netProfit first.netProfit
    simpa using ordered

namespace MempoolEvent

/--
The events that `mev::run` sends: the pool index of a swap is always zero, and
no pool update is ever sent.
-/
def SentByRun : MempoolEvent → Prop
  | .pendingSwap poolIdx amountIn _ => poolIdx = 0 ∧ amountIn < 2 ^ 64
  | .newBlock slot => slot < 2 ^ 64
  | .poolUpdate .. => False

/-- A pending swap was detected in the mempool. -/
def IsSwap : MempoolEvent → Prop
  | .pendingSwap .. => True
  | _ => False

end MempoolEvent

namespace AsteLoop

/-- An event is received when its processing returns. -/
theorem receive_of_processEvent
    {target : Target}
    {loop : AsteLoop}
    {profit : Nat}
    {next : Aste}
    (arrival : Arrival)
    (processed :
      loop.engine.processEvent target arrival.elapsedNanos arrival.event =
        .ok (profit, next)) :
    ∃ later, loop.receive target arrival = .ok later ∧
      later.engine = next := by
  rw [receive, processed, Checked.ok_bind]
  by_cases gained : 0 < profit
  · exact ⟨_, if_pos gained, rfl⟩
  · exact ⟨_, if_neg gained, rfl⟩

/--
A debug build panics when a counter or an average leaves 64 bits: fewer than
`2 ^ 64` events, none of which takes 36 years, keep it from that.
-/
def WithinClock (profile : Profile) (arrivals : List Arrival) : Prop :=
  profile = .debug →
    arrivals.length < 2 ^ 64 ∧
      ∀ arrival ∈ arrivals, arrival.elapsedNanos < Aste.clockLimit

/-- A run from an engine without pools returns when it has no swap. -/
theorem run_returns_iff
    {target : Target}
    {loop : AsteLoop}
    {arrivals : List Arrival}
    (ready : loop.engine.Ready target arrivals.length)
    (sent : ∀ arrival ∈ arrivals, arrival.event.SentByRun)
    (clock :
      target.profile = .debug →
        ∀ arrival ∈ arrivals, arrival.elapsedNanos < Aste.clockLimit) :
    (∃ final, loop.run target arrivals = .ok final) ↔
      ∀ arrival ∈ arrivals, ¬ arrival.event.IsSwap := by
  induction arrivals generalizing loop with
  | nil =>
      exact ⟨fun _ => by simp, fun _ => ⟨loop, rfl⟩⟩
  | cons arrival arrivals inductionHypothesis =>
      obtain ⟨event, elapsedNanos⟩ := arrival
      have arrivalSent := sent _ List.mem_cons_self
      have laterSent := fun later member =>
        sent later (List.mem_cons_of_mem _ member)
      have laterClock := fun debugBuild later member =>
        clock debugBuild later (List.mem_cons_of_mem _ member)
      cases event with
      | pendingSwap poolIdx amountIn xToY =>
          -- The first event is a swap, so nothing returns.
          constructor
          · rintro ⟨final, returned⟩
            simp only [run, List.foldlM_cons, Checked.bind_eq_ok,
              receive] at returned
            obtain ⟨-, ⟨result, processed, -⟩, -⟩ := returned
            exact absurd processed
              (ready.processEvent_pendingSwap_ne elapsedNanos poolIdx
                amountIn xToY result)
          · intro noSwap
            exact absurd trivial (noSwap _ List.mem_cons_self)
      | newBlock slot =>
          obtain ⟨profit, next, processed, nextReady⟩ :=
            ready.processEvent_newBlock
              (fun debugBuild => clock debugBuild _ List.mem_cons_self) slot
          obtain ⟨later, received, rfl⟩ :=
            receive_of_processEvent ⟨.newBlock slot, elapsedNanos⟩ processed
          have laterReturns :=
            inductionHypothesis nextReady laterSent laterClock
          have headIsBlock :
              ¬ (MempoolEvent.newBlock slot).IsSwap := not_false
          rw [List.forall_mem_cons, ← laterReturns, run, List.foldlM_cons,
            received, Checked.ok_bind]
          exact (and_iff_right headIsBlock).symm
      | poolUpdate poolIdx reserveX reserveY slot =>
          exact absurd arrivalSent not_false

/--
The event loop gets through the events that `mev::run` sends to it exactly
when none of them is a pending swap.
-/
theorem run_returns_iff_no_swap
    (target : Target)
    (config : AsteConfig)
    (arrivals : List Arrival)
    (sent : ∀ arrival ∈ arrivals, arrival.event.SentByRun)
    (clock : WithinClock target.profile arrivals) :
    (∃ final, (start config).run target arrivals = .ok final) ↔
      ∀ arrival ∈ arrivals, ¬ arrival.event.IsSwap :=
  run_returns_iff
    (Aste.ready_new target config
      (fun debugBuild => (clock debugBuild).1))
    sent
    (fun debugBuild => (clock debugBuild).2)

/-- Two blocks in a row are received by both builds. -/
theorem two_blocks_are_received :
    ∃ final,
      (start AsteConfig.default).run ⟨.debug, exactFloats, stableSort⟩
        [⟨.newBlock 7, 800⟩, ⟨.newBlock 8, 900⟩] = .ok final :=
  (run_returns_iff_no_swap ⟨.debug, exactFloats, stableSort⟩
      AsteConfig.default [⟨.newBlock 7, 800⟩, ⟨.newBlock 8, 900⟩]
      (by simp [MempoolEvent.SentByRun])
      (by simp [WithinClock, Aste.clockLimit])).mpr
    (by simp [MempoolEvent.IsSwap])

/-- The first pending swap of one token stops the daemon. -/
theorem one_swap_panics :
    (MempoolEvent.pendingSwap 0 1 true).SentByRun ∧
      (∀ floats profitSort,
        (start AsteConfig.default).run ⟨.release, floats, profitSort⟩
            [⟨.pendingSwap 0 1 true, 800⟩] =
          .error .divisionByZero) ∧
      ∀ floats profitSort,
        (start AsteConfig.default).run ⟨.debug, floats, profitSort⟩
            [⟨.pendingSwap 0 1 true, 800⟩] =
          .error .assertionFailed :=
  ⟨⟨rfl, by decide⟩, fun _ _ => rfl, fun _ _ => rfl⟩

end AsteLoop

end YieldDaemon
