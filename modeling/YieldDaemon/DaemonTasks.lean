import YieldDaemon.MempoolPipeline
import YieldDaemon.MetricsBridge
import YieldDaemon.ProverBids

namespace YieldDaemon

open CheckedArithmetic LabelledRun

/-!
# Tasks of the daemon

The prover, the MEV module, the subnet miner with its trainer, the treasury, the
uptime counter and the metrics bridge share the counters of one daemon and take
their steps in any order.  The daemon may be restarted, which leaves the files
of the bridge.  No network stands behind the prover and the miner, so that they
never earn anything, and the MEV module does not either.  Floating-point results
of the trainer are taken as exact.
-/

/-- Poll prover network for pending proof requests. -/
def ZkProverNode.pollProofRequest : Except String (Option ProofRequest) :=
  .ok none

/-- `counter.fetch_add(amount)` -/
def Bridge.fetchAdd (bridge : Bridge) (counter : Counter) (amount : Nat) :
    Bridge :=
  { bridge with
    metrics := Function.update bridge.metrics counter
      (CheckedArithmetic.fetchAdd (bridge.metrics counter) amount) }

/-- Count the result of a prover cycle. -/
def ProofResult.countOn (result : ProofResult) (bridge : Bridge) : Bridge :=
  if result.proofGenerated then
    let generated := bridge.fetchAdd .zkProofsGenerated 1
    if result.accepted then
      (generated.fetchAdd .zkProofsAccepted 1).fetchAdd .zkRevenueSat
        result.rewardSat
    else
      generated
  else
    bridge

structure InferenceResult where
  served : Bool
  reward : Nat
  latencyMs : Nat
  confidence : ℚ

/-- Serve a single inference request from a validator. -/
def SubnetMiner.serveRequest : Except String InferenceResult :=
  .ok ⟨false, 0, 0, 0⟩

/-- Count the result of an inference. -/
def InferenceResult.countOn (result : InferenceResult) (bridge : Bridge) :
    Bridge :=
  if result.served then
    (bridge.fetchAdd .mlInferencesServed 1).fetchAdd .mlRevenueSat
      result.reward
  else
    bridge

structure BackgroundTrainer where
  step : Nat
  bestLoss : ℚ

namespace BackgroundTrainer

/-- The best loss starts at `f64::MAX`. -/
def new : BackgroundTrainer :=
  ⟨0, (2 ^ 53 - 1) * 2 ^ 971⟩

/-- Execute a single training step, with a simulated loss. -/
def trainStep (profile : Profile) (trainer : BackgroundTrainer) :
    Checked (ℚ × BackgroundTrainer) := do
  let step ← add profile 64 trainer.step 1
  let simulatedLoss : ℚ := 1 / (step + 1)
  return (simulatedLoss,
    { step := step
      bestLoss :=
        if simulatedLoss < trainer.bestLoss then
          simulatedLoss
        else
          trainer.bestLoss })

end BackgroundTrainer

/-- The host of a daemon, its settings and the environment of its treasury. -/
structure DaemonHost where
  mev : MevHost
  settings : MevSettings
  zk : ZkConfig
  treasury : TreasuryLoop

/--
What the tasks share, and where each of them stands.  A pass of the treasury has
loaded some of the revenue counters; `requests` are those that it has sent to
its exchange since the first start.
-/
structure Daemon where
  bridge : Bridge
  prover : ZkProverNode
  mev : MevModule
  trainer : BackgroundTrainer
  loaded : List Nat
  treasury : TreasuryState
  requests : List (ApiCall × Bool)

/-- A step of one of the tasks. -/
inductive DaemonStep where
  | prove (latencyMs : Nat)
  | infer
  | train
  | mev (taken : MevStep)
  /-- The treasury loads the next revenue counter. -/
  | loadRevenue
  /-- The treasury goes through its pass with what it has loaded. -/
  | treasuryPass (jupiter : Jupiter) (respond : Exchange) (now : Nat)
  /-- The uptime task and the export loop. -/
  | bridge (taken : BridgeStep)
  | restart

namespace Daemon

/-- The daemon before any of its tasks has taken a step. -/
def start (host : DaemonHost) : Daemon where
  bridge := Bridge.start
  prover := ZkProverNode.new host.zk
  mev := MevModule.start host.settings
  trainer := BackgroundTrainer.new
  loaded := []
  treasury := TreasuryState.new
  requests := []

/-- The counters that a pass of the treasury loads, in their order. -/
def revenueCounters : List Counter :=
  [.zkRevenueSat, .mevRevenueSat, .mlRevenueSat]

/-- The MEV module over the shared counters. -/
def sharedMev (daemon : Daemon) : MevModule :=
  { daemon.mev with
    mevOpportunitiesDetected :=
      daemon.bridge.metrics .mevOpportunitiesDetected
    aste := { daemon.mev.aste with
      mevBundlesSubmitted := daemon.bridge.metrics .mevBundlesSubmitted
      mevRevenueSat := daemon.bridge.metrics .mevRevenueSat } }

/-- The counters that the MEV module has left. -/
def withMev (daemon : Daemon) (mev : MevModule) : Daemon :=
  { daemon with
    mev := mev
    bridge := { daemon.bridge with
      metrics :=
        Function.update
          (Function.update
            (Function.update daemon.bridge.metrics
              .mevOpportunitiesDetected mev.mevOpportunitiesDetected)
            .mevBundlesSubmitted mev.aste.mevBundlesSubmitted)
          .mevRevenueSat mev.aste.mevRevenueSat } }

/-- A pass of the treasury over three loaded counters. -/
def treasuryPass
    (host : DaemonHost)
    (daemon : Daemon)
    (pass : Iteration) : Daemon :=
  let consolidated :=
    host.treasury.afterConsolidation daemon.treasury pass
  { daemon with
    loaded := []
    treasury := host.treasury.iterate daemon.treasury pass
    requests :=
      match host.treasury.offramp consolidated pass with
      | some offramp => daemon.requests ++ offramp.requests
      | none => daemon.requests }

/-- The next state, if the step can be taken; a panic ends the task only. -/
def step
    (host : DaemonHost)
    (filter : ProgramFilter)
    (daemon : Daemon) : DaemonStep → Checked (Option Daemon)
  | .prove latencyMs => do
    let (result, prover) ←
      (daemon.prover.pollAndProve host.mev.target.profile
        ZkProverNode.pollProofRequest latencyMs).outcome
    match result with
    | .ok result =>
      return some { daemon with
        prover := prover
        bridge := result.countOn daemon.bridge }
    | .error _ => return some { daemon with prover := prover }
  | .infer =>
    match SubnetMiner.serveRequest with
    | .ok result =>
      return some { daemon with bridge := result.countOn daemon.bridge }
    | .error _ => return some daemon
  | .train => do
    let (_, trainer) ← daemon.trainer.trainStep host.mev.target.profile
    return some { daemon with
      trainer := trainer
      bridge := daemon.bridge.fetchAdd .mlTrainingRounds 1 }
  | .mev taken => do
    let mev ←
      MevModule.step host.mev host.settings filter daemon.sharedMev taken
    return some (daemon.withMev mev)
  | .loadRevenue =>
    match revenueCounters.drop daemon.loaded.length with
    | counter :: _ =>
      return some { daemon with
        loaded := daemon.loaded ++ [daemon.bridge.metrics counter] }
    | [] => return none
  | .treasuryPass jupiter respond now =>
    match daemon.loaded with
    | [zkRev, mevRev, mlRev] =>
      return some
        (daemon.treasuryPass host
          ⟨zkRev, mevRev, mlRev, jupiter, respond, now⟩)
    | _ => return none
  | .bridge taken =>
    match taken with
    | .count _ _ => return none
    | .restart => return none
    | taken =>
      return (daemon.bridge.step taken).map
        (fun bridge => { daemon with bridge := bridge })
  | .restart =>
    return (daemon.bridge.step .restart).map
      (fun bridge =>
        { start host with
          bridge := bridge
          requests := daemon.requests })

/-- The step can be taken and leads to the next state. -/
def Steps
    (host : DaemonHost)
    (filter : ProgramFilter)
    (before : Daemon)
    (taken : DaemonStep)
    (after : Daemon) : Prop :=
  before.step host filter taken = .ok (some after)

end Daemon

namespace MevModule

/-- What is queued leads to no trade. -/
structure Dormant (mev : MevModule) : Prop where
  withoutData : ∀ tx ∈ mev.transactions, tx.data = []
  onlyBlocks : ∀ event ∈ mev.events, ∃ slot, event = .newBlock slot

/-- The counters of the module are those of an earlier moment. -/
structure CountsAs (earlier later : MevModule) : Prop where
  opportunities :
    later.mevOpportunitiesDetected = earlier.mevOpportunitiesDetected
  bundles : later.aste.mevBundlesSubmitted = earlier.aste.mevBundlesSubmitted
  revenue : later.aste.mevRevenueSat = earlier.aste.mevRevenueSat

theorem CountsAs.refl (mev : MevModule) : mev.CountsAs mev :=
  ⟨rfl, rfl, rfl⟩

variable
  {host : MevHost}
  {settings : MevSettings}
  {filter : ProgramFilter}
  {accepts : String → Bool}
  {mev next : MevModule}

theorem dormant_start (settings : MevSettings) :
    (start settings).Dormant :=
  ⟨List.forall_mem_nil _, List.forall_mem_nil _⟩

theorem Dormant.handleFrame
    (dormant : mev.Dormant)
    (answers :
      ∀ program,
        filter.contains host.target.profile host.filterHost.hash
          (textBytes program) = .ok (accepts program))
    {text : String}
    {nowNs : Nat}
    (handled : mev.handleFrame host filter text nowNs = .ok next) :
    next.Dormant ∧ mev.CountsAs next := by
  unfold MevModule.handleFrame at handled
  split at handled
  · obtain rfl := Except.ok.inj handled
    exact ⟨dormant, .refl mev⟩
  · obtain ⟨forwarded, read, sent⟩ := Checked.bind_eq_ok.mp handled
    cases forwarded with
    | none =>
        obtain rfl := Except.ok.inj sent
        exact ⟨dormant, .refl mev⟩
    | some tx =>
        obtain rfl := Except.ok.inj sent
        have withoutData :=
          forall_mem_trySend 10000 dormant.withoutData
            (readNotification_empty answers read).2
        exact ⟨⟨withoutData, dormant.onlyBlocks⟩, rfl, rfl, rfl⟩

theorem Dormant.pollTransaction
    (dormant : mev.Dormant)
    {submitted : Bool}
    (polled : mev.pollTransaction host settings submitted = .ok next) :
    next.Dormant ∧ mev.CountsAs next := by
  unfold MevModule.pollTransaction at polled
  have withoutData := dormant.withoutData
  split at polled
  · obtain rfl := Except.ok.inj polled
    exact ⟨dormant, .refl mev⟩
  next tx later queued =>
    rw [queued, List.forall_mem_cons] at withoutData
    dsimp only at polled
    rw [parseSwapInstruction_of_no_data withoutData.1] at polled
    obtain rfl := Except.ok.inj polled
    exact ⟨⟨withoutData.2, dormant.onlyBlocks⟩, rfl, rfl, rfl⟩

theorem Dormant.lookAtClock (dormant : mev.Dormant) (nowMs : Nat) :
    (mev.lookAtClock nowMs).Dormant ∧
      mev.CountsAs (mev.lookAtClock nowMs) := by
  unfold MevModule.lookAtClock
  split
  · exact
      ⟨⟨dormant.withoutData,
          forall_mem_trySend 50000 dormant.onlyBlocks ⟨nowMs / 400, rfl⟩⟩,
        rfl, rfl, rfl⟩
  · exact ⟨dormant, .refl mev⟩

theorem Dormant.processNext
    (dormant : mev.Dormant)
    {elapsedNanos : Nat}
    (processed : mev.processNext host elapsedNanos = .ok next) :
    next.Dormant ∧ mev.CountsAs next := by
  unfold MevModule.processNext at processed
  have onlyBlocks := dormant.onlyBlocks
  split at processed
  · obtain rfl := Except.ok.inj processed
    exact ⟨dormant, .refl mev⟩
  next event later queued =>
    rw [queued, List.forall_mem_cons] at onlyBlocks
    obtain ⟨⟨slot, rfl⟩, laterBlocks⟩ := onlyBlocks
    obtain ⟨aste, received, isNext⟩ := Checked.bind_eq_ok.mp processed
    obtain rfl := Except.ok.inj isNext
    unfold AsteLoop.receive at received
    obtain ⟨⟨profit, engine⟩, event, isAste⟩ :=
      Checked.bind_eq_ok.mp received
    obtain ⟨counted, -, block⟩ := Aste.processEvent_cases event
    obtain ⟨rfl, -⟩ := Aste.processBlock_cases block
    obtain rfl := Except.ok.inj isAste
    exact ⟨⟨dormant.withoutData, laterBlocks⟩, rfl, rfl, rfl⟩

/-- A step leaves what is queued harmless, and counts nothing. -/
theorem Dormant.step
    (dormant : mev.Dormant)
    (answers :
      ∀ program,
        filter.contains host.target.profile host.filterHost.hash
          (textBytes program) = .ok (accepts program))
    {taken : MevStep}
    (stepped : step host settings filter mev taken = .ok next) :
    next.Dormant ∧ mev.CountsAs next := by
  cases taken with
  | frame text nowNs =>
      exact dormant.handleFrame answers stepped
  | poll submitted =>
      exact dormant.pollTransaction stepped
  | tick nowMs =>
      obtain rfl := Except.ok.inj stepped
      exact dormant.lookAtClock _
  | process elapsedNanos =>
      exact dormant.processNext stepped

end MevModule

end YieldDaemon
