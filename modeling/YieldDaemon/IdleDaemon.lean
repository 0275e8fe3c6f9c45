import YieldDaemon.DaemonTasks

namespace YieldDaemon

open CheckedArithmetic LabelledRun

/-!
# The daemon earns nothing

Without a network behind the prover and the miner, and with a mempool feed that
carries no instruction data, only training rounds and the uptime are counted.
The treasury then has nothing to consolidate and nothing to withdraw.
-/

/-- Thresholds that an empty treasury does not reach. -/
structure DaemonHost.Configured (host : DaemonHost) : Prop where
  consolidation : 0 < host.treasury.config.consolidationThreshold
  offramp : 0 < host.treasury.config.offrampThresholdUsd
  zeroExact : host.treasury.f64 0 = 0

namespace TreasuryLoop

variable {loop : TreasuryLoop} {pass : Iteration}

/-- A pass without revenue leaves a new treasury as it is. -/
theorem afterConsolidation_new
    (threshold : 0 < loop.config.consolidationThreshold)
    (noRevenue : pass.totalRev = 0) :
    loop.afterConsolidation TreasuryState.new pass = TreasuryState.new := by
  have unreached : ¬ loop.config.consolidationThreshold ≤ pass.totalRev := by
    rw [noRevenue]
    exact Nat.not_le.mpr threshold
  have nothing : loop.consolidate pass = ⟨.ok 0, 0, 0⟩ :=
    if_neg unreached
  unfold afterConsolidation
  rw [nothing, noRevenue]
  rfl

/-- A new treasury is below the threshold of an off-ramp. -/
theorem offramp_new
    (threshold : 0 < loop.config.offrampThresholdUsd)
    (zeroExact : loop.f64 0 = 0) :
    loop.offramp TreasuryState.new pass = none := by
  have noBalance : loop.stableUsd TreasuryState.new = 0 := by
    unfold stableUsd TreasuryState.new
    rw [Nat.cast_zero, zeroExact, zero_div, zeroExact]
  refine if_neg ?_
  rw [noBalance]
  exact not_le.mpr threshold

theorem iterate_new
    (consolidation : 0 < loop.config.consolidationThreshold)
    (offramp : 0 < loop.config.offrampThresholdUsd)
    (zeroExact : loop.f64 0 = 0)
    (noRevenue : pass.totalRev = 0) :
    loop.iterate TreasuryState.new pass = TreasuryState.new := by
  unfold iterate
  rw [afterConsolidation_new consolidation noRevenue]
  unfold afterOfframp
  rw [offramp_new offramp zeroExact]

end TreasuryLoop

/-- The counters of what the daemon earns, and of what leads to it. -/
def Counter.Earned (counter : Counter) : Prop :=
  counter ≠ .mlTrainingRounds ∧ counter ≠ .uptimeSecs

/-- A step counts training rounds only, if it counts. -/
def BridgeStep.EarnsNothing (taken : BridgeStep) : Prop :=
  ∀ counter amount, taken = .count counter amount →
    counter = .mlTrainingRounds

namespace Bridge

/-- The steps of a bridge that shows no earnings. -/
def UnpaidSteps : Bridge → BridgeStep → Bridge → Prop :=
  restrict BridgeStep.EarnsNothing Steps

/-- A counter of earnings shows 0. -/
def Unearned (counter : Counter) (value : Nat) : Prop :=
  counter.Earned → value = 0

/-- No earnings were counted, and none are on their way to the files. -/
structure Unpaid (bridge : Bridge) : Prop where
  metrics : ∀ counter, Unearned counter (bridge.metrics counter)
  traced : bridge.Traced Unearned

variable {before after : Bridge} {taken : BridgeStep}

theorem unpaid_start : start.Unpaid where
  metrics _ _ := rfl
  traced := traced_start _

theorem Unpaid.step
    (unpaid : before.Unpaid)
    (stepped : UnpaidSteps before taken after) :
    after.Unpaid := by
  obtain ⟨earnsNothing, stepped⟩ := stepped
  refine ⟨?_, unpaid.traced.step unpaid.metrics stepped⟩
  rintro counter earned
  have isZero := unpaid.metrics counter earned
  rw [(step_cases stepped).1]
  cases taken with
  | count other amount =>
      obtain rfl := earnsNothing other amount rfl
      exact (Function.update_of_ne earned.1 _ _).trans isZero
  | uptime secs =>
      exact (Function.update_of_ne earned.2 _ _).trans isZero
  | restart => rfl
  | wake => exact isZero
  | load => exact isZero
  | openTmp succeeds => exact isZero
  | writeTmp succeeds => exact isZero
  | rename succeeds => exact isZero

/-- The revenue that is read from a file is 0. -/
theorem Unpaid.readRevenue (unpaid : before.Unpaid) :
    before.readRevenue .zk = 0 ∧ before.readRevenue .mev = 0 ∧
      before.readRevenue .ml = 0 := by
  have isZero
      {file : MetricsFile}
      (counter : Counter)
      (member : ("revenue_sat", counter) ∈ file.entries)
      (earned : counter.Earned) :
      before.readRevenue file = 0 := by
    unfold Bridge.readRevenue readValue
    cases published : before.published file with
    | none => rfl
    | some content =>
        obtain ⟨snapshot, rfl, shown⟩ :=
          unpaid.traced.published file content published
        exact Shows.valueOf shown (names_distinct file) member earned
  exact
    ⟨isZero .zkRevenueSat (by decide) ⟨nofun, nofun⟩,
      isZero .mevRevenueSat (by decide) ⟨nofun, nofun⟩,
      isZero .mlRevenueSat (by decide) ⟨nofun, nofun⟩⟩

end Bridge

namespace Daemon

open Bridge

variable
  {host : DaemonHost}
  {filter : ProgramFilter}
  {accepts : String → Bool}
  {before after : Daemon}

/-- The MEV module leaves the shared counters as they are. -/
theorem withMev_bridge
    {mev : MevModule}
    (counts : before.sharedMev.CountsAs mev) :
    (before.withMev mev).bridge = before.bridge := by
  have sameMetrics :
      (before.withMev mev).bridge.metrics = before.bridge.metrics := by
    unfold Daemon.withMev
    rw [counts.opportunities, counts.bundles, counts.revenue]
    unfold sharedMev
    simp only [Function.update_eq_self]
  exact congrArg
    (fun metrics => { before.bridge with metrics := metrics }) sameMetrics

/-- The bridge stays as it is, or takes a step without earnings. -/
def RefinesBridge (before after : Daemon) : Prop :=
  after.bridge = before.bridge ∨
    ∃ taken, UnpaidSteps before.bridge taken after.bridge

/-- A step of any task is at most a step of the bridge, without earnings. -/
theorem step_refines_bridge
    (dormant : before.mev.Dormant)
    (answers :
      ∀ program,
        filter.contains host.mev.target.profile host.mev.filterHost.hash
          (textBytes program) = .ok (accepts program))
    {taken : DaemonStep}
    (stepped : Steps host filter before taken after) :
    after.mev.Dormant ∧ RefinesBridge before after := by
  unfold Steps Daemon.step at stepped
  cases taken with
  | prove latencyMs =>
      obtain rfl := Option.some.inj (Except.ok.inj stepped)
      exact ⟨dormant, .inl rfl⟩
  | infer =>
      obtain rfl := Option.some.inj (Except.ok.inj stepped)
      exact ⟨dormant, .inl rfl⟩
  | train =>
      obtain ⟨⟨loss, trainer⟩, -, isNext⟩ := Checked.bind_eq_ok.mp stepped
      obtain rfl := Option.some.inj (Except.ok.inj isNext)
      refine ⟨dormant, .inr ⟨.count .mlTrainingRounds 1, ?_, rfl⟩⟩
      rintro counter amount ⟨⟩
      rfl
  | mev taken =>
      obtain ⟨mev, mevStepped, isNext⟩ := Checked.bind_eq_ok.mp stepped
      obtain rfl := Option.some.inj (Except.ok.inj isNext)
      have shared : before.sharedMev.Dormant :=
        ⟨dormant.withoutData, dormant.onlyBlocks⟩
      obtain ⟨laterDormant, counts⟩ := shared.step answers mevStepped
      exact ⟨laterDormant, .inl (withMev_bridge counts)⟩
  | loadRevenue =>
      dsimp only at stepped
      split at stepped
      · obtain rfl := Option.some.inj (Except.ok.inj stepped)
        exact ⟨dormant, .inl rfl⟩
      · cases stepped
  | treasuryPass jupiter respond now =>
      dsimp only at stepped
      split at stepped
      · obtain rfl := Option.some.inj (Except.ok.inj stepped)
        exact ⟨dormant, .inl rfl⟩
      · cases stepped
  | bridge taken =>
      dsimp only at stepped
      split at stepped
      · cases stepped
      · cases stepped
      next isCount _ =>
        obtain ⟨bridge, bridgeStepped, isNext⟩ :=
          Option.map_eq_some_iff.mp (Except.ok.inj stepped)
        obtain rfl := isNext
        refine ⟨dormant, .inr ⟨taken, ?_, bridgeStepped⟩⟩
        intro counter amount same
        exact absurd same (isCount counter amount)
  | restart =>
      obtain ⟨bridge, bridgeStepped, isNext⟩ :=
        Option.map_eq_some_iff.mp (Except.ok.inj stepped)
      obtain rfl := isNext
      exact ⟨MevModule.dormant_start host.settings,
        .inr ⟨.restart, nofun, bridgeStepped⟩⟩

/-- The treasury has seen no revenue, and is as new. -/
structure Untouched (daemon : Daemon) : Prop where
  loaded : ∀ value ∈ daemon.loaded, value = 0
  treasury : daemon.treasury = TreasuryState.new
  requests : daemon.requests = []

theorem Untouched.loadRevenue
    (untouched : before.Untouched)
    (unpaid : before.bridge.Unpaid)
    {counter : Counter}
    (isRevenue : counter ∈ revenueCounters) :
    Untouched { before with
      loaded := before.loaded ++ [before.bridge.metrics counter] } := by
  have earned : ∀ counter ∈ revenueCounters, counter.Earned := by
    simp [revenueCounters, Counter.Earned]
  have isZero := unpaid.metrics counter (earned counter isRevenue)
  refine { untouched with loaded := ?_ }
  rw [List.forall_mem_append]
  exact ⟨untouched.loaded, List.forall_mem_singleton.mpr isZero⟩

theorem Untouched.treasuryPass
    (untouched : before.Untouched)
    (configured : host.Configured)
    {zkRev mevRev mlRev : Nat}
    (isLoaded : before.loaded = [zkRev, mevRev, mlRev])
    (jupiter : Jupiter)
    (respond : Exchange)
    (now : Nat) :
    (before.treasuryPass host
      ⟨zkRev, mevRev, mlRev, jupiter, respond, now⟩).Untouched := by
  obtain ⟨consolidation, offramp, zeroExact⟩ := configured
  have zeros := untouched.loaded
  rw [isLoaded] at zeros
  obtain ⟨rfl, rfl, rfl⟩ : zkRev = 0 ∧ mevRev = 0 ∧ mlRev = 0 :=
    ⟨zeros _ (by simp), zeros _ (by simp), zeros _ (by simp)⟩
  unfold Daemon.treasuryPass
  rw [untouched.treasury,
    TreasuryLoop.iterate_new consolidation offramp zeroExact rfl,
    TreasuryLoop.afterConsolidation_new consolidation rfl]
  dsimp only
  rw [TreasuryLoop.offramp_new offramp zeroExact]
  exact ⟨List.forall_mem_nil _, rfl, untouched.requests⟩

/-- A step of any task leaves the treasury untouched. -/
theorem Untouched.step
    (untouched : before.Untouched)
    (unpaid : before.bridge.Unpaid)
    (configured : host.Configured)
    {taken : DaemonStep}
    (stepped : Steps host filter before taken after) :
    after.Untouched := by
  unfold Steps Daemon.step at stepped
  cases taken with
  | prove latencyMs =>
      obtain rfl := Option.some.inj (Except.ok.inj stepped)
      exact { untouched with }
  | infer =>
      obtain rfl := Option.some.inj (Except.ok.inj stepped)
      exact { untouched with }
  | train =>
      obtain ⟨trained, -, isNext⟩ := Checked.bind_eq_ok.mp stepped
      obtain rfl := Option.some.inj (Except.ok.inj isNext)
      exact { untouched with }
  | mev taken =>
      obtain ⟨mev, -, isNext⟩ := Checked.bind_eq_ok.mp stepped
      obtain rfl := Option.some.inj (Except.ok.inj isNext)
      exact { untouched with }
  | loadRevenue =>
      dsimp only at stepped
      split at stepped
      next counter later isNext =>
        obtain rfl := Option.some.inj (Except.ok.inj stepped)
        have member :
            counter ∈ revenueCounters.drop before.loaded.length := by
          rw [isNext]
          exact List.mem_cons_self
        exact untouched.loadRevenue unpaid (List.mem_of_mem_drop member)
      · cases stepped
  | treasuryPass jupiter respond now =>
      dsimp only at stepped
      split at stepped
      next zkRev mevRev mlRev isLoaded =>
        obtain rfl := Option.some.inj (Except.ok.inj stepped)
        exact untouched.treasuryPass configured isLoaded jupiter respond now
      · cases stepped
  | bridge taken =>
      dsimp only at stepped
      split at stepped
      · cases stepped
      · cases stepped
      · obtain ⟨bridge, -, isNext⟩ :=
          Option.map_eq_some_iff.mp (Except.ok.inj stepped)
        obtain rfl := isNext
        exact { untouched with }
  | restart =>
      obtain ⟨bridge, -, isNext⟩ :=
        Option.map_eq_some_iff.mp (Except.ok.inj stepped)
      obtain rfl := isNext
      exact ⟨List.forall_mem_nil _, rfl, untouched.requests⟩

/-- A daemon whose bridge went through a run without earnings. -/
structure Idle (daemon : Daemon) : Prop where
  mev : daemon.mev.Dormant
  bridge : ∃ log, Run UnpaidSteps Bridge.start log daemon.bridge
  untouched : daemon.Untouched

/-- A run without earnings leaves an unpaid bridge. -/
theorem Idle.unpaid (idle : before.Idle) : before.bridge.Unpaid := by
  obtain ⟨log, run⟩ := idle.bridge
  exact Run.preserves Unpaid (fun unpaid stepped => unpaid.step stepped) run
    unpaid_start

theorem idle_start (host : DaemonHost) : (start host).Idle where
  mev := MevModule.dormant_start host.settings
  bridge := ⟨[], .nil Bridge.start⟩
  untouched := ⟨List.forall_mem_nil _, rfl, rfl⟩

theorem Idle.step
    (idle : before.Idle)
    (configured : host.Configured)
    (answers :
      ∀ program,
        filter.contains host.mev.target.profile host.mev.filterHost.hash
          (textBytes program) = .ok (accepts program))
    {taken : DaemonStep}
    (stepped : Steps host filter before taken after) :
    after.Idle := by
  obtain ⟨dormant, refines⟩ :=
    step_refines_bridge idle.mev answers stepped
  refine ⟨dormant, ?_, idle.untouched.step idle.unpaid configured stepped⟩
  obtain ⟨log, run⟩ := idle.bridge
  rcases refines with same | ⟨taken, bridgeStepped⟩
  · exact ⟨log, same ▸ run⟩
  · exact ⟨log ++ [taken], run.snoc bridgeStepped⟩

/--
However the tasks take turns, whatever they receive, and however often the
daemon restarts: its counters and files go through a run of the bridge that
counts training rounds only, so that no revenue is ever counted or published,
and the treasury never consolidates anything or sends its exchange a request.
-/
theorem daemon_stays_idle
    {log : List DaemonStep}
    {daemon : Daemon}
    (configured : host.Configured)
    (built :
      ProgramFilter.ofPrograms host.mev.target.profile host.mev.filterHost
        host.settings.programs = .ok filter)
    (reached : Run (Steps host filter) (start host) log daemon) :
    (∃ bridgeLog, Run UnpaidSteps Bridge.start bridgeLog daemon.bridge) ∧
      (∀ counter, counter ≠ .mlTrainingRounds → counter ≠ .uptimeSecs →
        daemon.bridge.metrics counter = 0) ∧
      (daemon.bridge.readRevenue .zk = 0 ∧
        daemon.bridge.readRevenue .mev = 0 ∧
        daemon.bridge.readRevenue .ml = 0) ∧
      daemon.treasury = TreasuryState.new ∧
      daemon.requests = [] := by
  obtain ⟨other, accepts, otherBuilt, answers, -⟩ :=
    ProgramFilter.ofPrograms_returns host.mev.target.profile
      host.mev.filterHost host.settings.programs
  obtain rfl : other = filter :=
    Except.ok.inj (otherBuilt.symm.trans built)
  have idle : daemon.Idle :=
    Run.preserves Idle
      (fun idle stepped => idle.step configured answers stepped) reached
      (idle_start host)
  exact ⟨idle.bridge,
    fun counter notRounds notUptime =>
      idle.unpaid.metrics counter ⟨notRounds, notUptime⟩,
    idle.unpaid.readRevenue, idle.untouched.treasury,
    idle.untouched.requests⟩

/-- A debug build with the default settings of prover and treasury. -/
def sampleDaemonHost : DaemonHost where
  mev := MevModule.sampleHost
  settings := ⟨["whir"], 10000, true⟩
  zk := ZkConfig.default
  treasury :=
    ⟨id, TreasuryConfig.default, "solana",
      ⟨.coinbase, "", "", none, "USD", true⟩⟩

/-- An aggregator that does not answer. -/
def silentJupiter : Jupiter where
  quote _ := .error "timeout"
  loadKeypair _ := .error "missing"
  swap _ := .error "timeout"

/-- The daemon proves, infers, trains and goes through its treasury once. -/
theorem trained_daemon_stays_idle :
    ∃ filter daemon,
      Run (Steps sampleDaemonHost filter) (start sampleDaemonHost)
          [.prove 5, .infer, .train, .mev (.tick 1000), .loadRevenue,
            .loadRevenue, .loadRevenue,
            .treasuryPass silentJupiter (fun _ => .error "timeout") 7,
            .bridge .wake, .bridge .load] daemon ∧
        daemon.bridge.metrics .mlTrainingRounds = 1 ∧
        (∃ bridgeLog,
            Run UnpaidSteps Bridge.start bridgeLog daemon.bridge) ∧
          (∀ counter, counter ≠ .mlTrainingRounds → counter ≠ .uptimeSecs →
            daemon.bridge.metrics counter = 0) ∧
          (daemon.bridge.readRevenue .zk = 0 ∧
            daemon.bridge.readRevenue .mev = 0 ∧
            daemon.bridge.readRevenue .ml = 0) ∧
          daemon.treasury = TreasuryState.new ∧
          daemon.requests = [] := by
  obtain ⟨filter, -, built, -, -⟩ :=
    ProgramFilter.ofPrograms_returns sampleDaemonHost.mev.target.profile
      sampleDaemonHost.mev.filterHost sampleDaemonHost.settings.programs
  have ran :
      ∃ daemon,
        Run (Steps sampleDaemonHost filter) (start sampleDaemonHost)
            [.prove 5, .infer, .train, .mev (.tick 1000), .loadRevenue,
              .loadRevenue, .loadRevenue,
              .treasuryPass silentJupiter (fun _ => .error "timeout") 7,
              .bridge .wake, .bridge .load] daemon ∧
          daemon.bridge.metrics .mlTrainingRounds = 1 :=
    ⟨_,
      .cons rfl (.cons rfl (.cons rfl (.cons rfl (.cons rfl (.cons rfl
        (.cons rfl (.cons rfl (.cons rfl (.cons rfl (.nil _)))))))))),
      rfl⟩
  obtain ⟨daemon, run, rounds⟩ := ran
  have configured : sampleDaemonHost.Configured :=
    ⟨by decide, by decide, rfl⟩
  exact ⟨filter, daemon, run, rounds,
    daemon_stays_idle configured built run⟩

end Daemon

end YieldDaemon
