import YieldDaemon.AsteEvents
import YieldDaemon.EngineSteps
import YieldDaemon.InputEstimates
import YieldDaemon.MempoolFeed
import YieldDaemon.SwapEvents

namespace YieldDaemon

open CheckedArithmetic

/-!
# Mempool pipeline

The tasks of the MEV module: subscribers that feed transactions into a channel,
the loop of `mev::run` that parses them and sends events, and the loop of
`run_aste` that processes the events.  The tasks share the two channels and the
metrics, and take their steps in any order.  The forwarded transactions have no
data and no pool is registered, so whatever is received, nothing is traded.
-/

/-- `try_send` on a channel: a full channel drops what is sent. -/
def trySend {Item : Type} (capacity : Nat) (queue : List Item) (item : Item) :
    List Item :=
  if queue.length < capacity then
    queue ++ [item]
  else
    queue

theorem trySend_cases
    {Item : Type}
    (capacity : Nat)
    (queue : List Item)
    (item : Item) :
    trySend capacity queue item = queue ++ [item] ∨
      trySend capacity queue item = queue := by
  unfold trySend
  split
  · exact .inl rfl
  · exact .inr rfl

/-- What holds of the queue and of the item holds of all that is queued. -/
theorem forall_mem_trySend
    {Item : Type}
    {holds : Item → Prop}
    {queue : List Item}
    {item : Item}
    (capacity : Nat)
    (ofQueue : ∀ other ∈ queue, holds other)
    (ofItem : holds item) :
    ∀ other ∈ trySend capacity queue item, holds other := by
  rcases trySend_cases capacity queue item with sent | dropped
  · rw [sent, List.forall_mem_append]
    exact ⟨ofQueue, List.forall_mem_singleton.mpr ofItem⟩
  · rwa [dropped]

/-- What is ready for more events is ready for fewer. -/
theorem Aste.Ready.fewer
    {target : Target}
    {engine : Aste}
    {events : Nat}
    (ready : engine.Ready target (events + 1)) :
    engine.Ready target events where
  withoutPools := ready.withoutPools
  cyclesLeft isDebug := by
    have room := ready.cyclesLeft isDebug
    omega
  latencyLow := ready.latencyLow

/-- The settings of the module that its loops read. -/
structure MevSettings where
  programs : List String
  minProfitThreshold : Nat
  dryRun : Bool

namespace MevSettings

/-- The configuration that `mev::run` gives to `run_aste`. -/
def asteConfig (settings : MevSettings) : AsteConfig where
  maxHops := 4
  minProfit := settings.minProfitThreshold
  maxInput := 100000000000
  arenaSize := 16 * 1024 * 1024
  graphRebuildInterval := 50
  dryRun := settings.dryRun

end MevSettings

/-- What the tasks of the module share, and the engine of `run_aste`. -/
structure MevModule where
  transactions : List ObservedTransaction
  events : List MempoolEvent
  aste : AsteLoop
  mevOpportunitiesDetected : Nat
  lastBlockTick : Nat

/-- The host and the build. -/
structure MevHost where
  target : Target
  filterHost : FilterHost
  /-- `serde_json::from_str` -/
  parseJson : String → Option JsonTree

/-- A step of one of the tasks. -/
inductive MevStep where
  /-- A subscriber receives a text frame. -/
  | frame (text : String) (nowNs : Nat)
  /-- `mev::run` polls for a transaction; a live submission may succeed. -/
  | poll (submitted : Bool)
  /-- `mev::run` looks at the clock. -/
  | tick (nowMs : Nat)
  /-- `run_aste` polls for an event. -/
  | process (elapsedNanos : Nat)

namespace MevModule

def start (settings : MevSettings) : MevModule where
  transactions := []
  events := []
  aste := AsteLoop.start settings.asteConfig
  mevOpportunitiesDetected := 0
  lastBlockTick := 0

/-- A subscriber handles a text frame. -/
def handleFrame
    (host : MevHost)
    (filter : ProgramFilter)
    (mev : MevModule)
    (text : String)
    (nowNs : Nat) : Checked MevModule :=
  match host.parseJson text with
  | none => return mev
  | some json => do
    match ← readNotification host.target.profile host.filterHost filter nowNs
      json with
    | none => return mev
    | some tx =>
      return { mev with
        transactions := trySend 10000 mev.transactions tx }

/-- Look for an arbitrage of a parsed swap and submit it. -/
def pursueSwap
    (host : MevHost)
    (settings : MevSettings)
    (mev : MevModule)
    (swap : SwapInstruction)
    (submitted : Bool) : Checked MevModule := do
  let profile := host.target.profile
  let optimizer : RouteOptimizer := ⟨settings.minProfitThreshold⟩
  match ← optimizer.findArbitrage profile PoolRegistry.new swap with
  | none => return mev
  | some route => do
    let detected := { mev with
      mevOpportunitiesDetected :=
        fetchAdd mev.mevOpportunitiesDetected 1 }
    let optimal ← optimizer.optimizeInput profile route
    if settings.minProfitThreshold ≤ optimal.expectedProfit ∧
        settings.dryRun = false ∧ submitted then
      return { detected with
        aste := { detected.aste with
          mevBundlesSubmitted :=
            fetchAdd detected.aste.mevBundlesSubmitted 1
          mevRevenueSat :=
            fetchAdd detected.aste.mevRevenueSat
              optimal.expectedProfit } }
    else
      return detected

/-- One iteration of `mev::run`, up to its clock. -/
def pollTransaction
    (host : MevHost)
    (settings : MevSettings)
    (mev : MevModule)
    (submitted : Bool) : Checked MevModule :=
  match mev.transactions with
  | [] => return mev
  | tx :: later =>
    let taken := { mev with transactions := later }
    match parseSwapInstruction tx.toMempoolTransaction with
    | none => return taken
    | some swap =>
      pursueSwap host settings
        { taken with
          events := trySend 50000 taken.events (pendingSwapEvent swap) }
        swap submitted

/-- Emit NewBlock every ~400ms (Solana slot time). -/
def lookAtClock (mev : MevModule) (nowMs : Nat) : MevModule :=
  if 400 < nowMs - mev.lastBlockTick then
    { mev with
      lastBlockTick := nowMs
      events := trySend 50000 mev.events (.newBlock (nowMs / 400)) }
  else
    mev

/-- One iteration of `run_aste`. -/
def processNext
    (host : MevHost)
    (mev : MevModule)
    (elapsedNanos : Nat) : Checked MevModule :=
  match mev.events with
  | [] => return mev
  | event :: later => do
    let aste ← mev.aste.receive host.target ⟨event, elapsedNanos⟩
    return { mev with events := later, aste := aste }

def step
    (host : MevHost)
    (settings : MevSettings)
    (filter : ProgramFilter)
    (mev : MevModule) : MevStep → Checked MevModule
  | .frame text nowNs => mev.handleFrame host filter text nowNs
  | .poll submitted => mev.pollTransaction host settings submitted
  | .tick nowMs => return mev.lookAtClock (nowMs % 2 ^ 64)
  | .process elapsedNanos => mev.processNext host elapsedNanos

/-- Build the filter and take the steps of the tasks in the given order. -/
def run
    (host : MevHost)
    (settings : MevSettings)
    (steps : List MevStep) : Checked MevModule := do
  let filter ←
    ProgramFilter.ofPrograms host.target.profile host.filterHost
      settings.programs
  steps.foldlM (step host settings filter) (start settings)

/-- Nothing was earned, and nothing that is queued leads to a trade. -/
structure Quiet
    (host : MevHost)
    (mev : MevModule)
    (steps : Nat) : Prop where
  withoutData : ∀ tx ∈ mev.transactions, tx.data = []
  onlyBlocks : ∀ event ∈ mev.events, ¬ event.IsSwap ∧ event.SentByRun
  noOpportunity : mev.mevOpportunitiesDetected = 0
  noRevenue : mev.aste.mevRevenueSat = 0
  noBundle : mev.aste.mevBundlesSubmitted = 0
  ready : mev.aste.engine.Ready host.target steps

variable
  {host : MevHost}
  {settings : MevSettings}
  {filter : ProgramFilter}
  {mev : MevModule}
  {steps : Nat}

theorem quiet_start
    (host : MevHost)
    (settings : MevSettings)
    (room : host.target.profile = .debug → steps < 2 ^ 64) :
    (start settings).Quiet host steps where
  withoutData := List.forall_mem_nil _
  onlyBlocks := List.forall_mem_nil _
  noOpportunity := rfl
  noRevenue := rfl
  noBundle := rfl
  ready := Aste.ready_new host.target settings.asteConfig room

/-- A transaction without data is no swap. -/
theorem parseSwapInstruction_of_no_data
    {tx : MempoolTransaction}
    (noData : tx.data = []) :
    parseSwapInstruction tx = none := by
  unfold parseSwapInstruction
  rw [noData]
  rfl

theorem Quiet.fewer (quiet : mev.Quiet host (steps + 1)) :
    mev.Quiet host steps :=
  { quiet with ready := quiet.ready.fewer }

theorem Quiet.handleFrame
    {accepts : String → Bool}
    (quiet : mev.Quiet host steps)
    (answers :
      ∀ program,
        filter.contains host.target.profile host.filterHost.hash
          (textBytes program) = .ok (accepts program))
    (text : String)
    (nowNs : Nat) :
    ∃ next,
      mev.handleFrame host filter text nowNs = .ok next ∧
        next.Quiet host steps := by
  unfold MevModule.handleFrame
  cases host.parseJson text with
  | none =>
      exact ⟨mev, rfl, quiet⟩
  | some json =>
      dsimp only
      cases read : readNotification host.target.profile host.filterHost
          filter nowNs json with
      | error reason =>
          rw [readNotification_eq answers] at read
          cases read
      | ok forwarded =>
          rw [Checked.ok_bind]
          cases forwarded with
          | none =>
              exact ⟨mev, rfl, quiet⟩
          | some tx =>
              have isEmpty := readNotification_empty answers read
              exact ⟨_, rfl,
                { quiet with
                  withoutData :=
                    forall_mem_trySend 10000 quiet.withoutData
                      isEmpty.2 }⟩

theorem Quiet.pollTransaction
    (quiet : mev.Quiet host steps)
    (submitted : Bool) :
    ∃ next,
      mev.pollTransaction host settings submitted = .ok next ∧
        next.Quiet host steps := by
  unfold MevModule.pollTransaction
  have withoutData := quiet.withoutData
  cases queued : mev.transactions with
  | nil =>
      exact ⟨mev, rfl, quiet⟩
  | cons tx later =>
      rw [queued, List.forall_mem_cons] at withoutData
      dsimp only
      rw [parseSwapInstruction_of_no_data withoutData.1]
      exact ⟨_, rfl, { quiet with withoutData := withoutData.2 }⟩

theorem Quiet.lookAtClock
    (quiet : mev.Quiet host steps)
    {nowMs : Nat}
    (isU64 : nowMs < 2 ^ 64) :
    (mev.lookAtClock nowMs).Quiet host steps := by
  unfold MevModule.lookAtClock
  split
  · have isBlock :
        ¬ (MempoolEvent.newBlock (nowMs / 400)).IsSwap ∧
          (MempoolEvent.newBlock (nowMs / 400)).SentByRun :=
      ⟨not_false, (Nat.div_le_self _ _).trans_lt isU64⟩
    exact
      { quiet with
        onlyBlocks := forall_mem_trySend 50000 quiet.onlyBlocks isBlock }
  · exact quiet

/-- A block is processed without a panic and without a profit. -/
theorem Quiet.processNext
    (quiet : mev.Quiet host (steps + 1))
    {elapsedNanos : Nat}
    (elapsedLow :
      host.target.profile = .debug → elapsedNanos < Aste.clockLimit) :
    ∃ next,
      mev.processNext host elapsedNanos = .ok next ∧
        next.Quiet host steps := by
  unfold MevModule.processNext
  have onlyBlocks := quiet.onlyBlocks
  cases queued : mev.events with
  | nil =>
      exact ⟨mev, rfl, quiet.fewer⟩
  | cons event later =>
      rw [queued, List.forall_mem_cons] at onlyBlocks
      obtain ⟨⟨notSwap, sent⟩, laterBlocks⟩ := onlyBlocks
      cases event with
      | pendingSwap poolIdx amountIn xToY =>
          exact absurd trivial notSwap
      | poolUpdate poolIdx reserveX reserveY slot =>
          exact absurd sent not_false
      | newBlock slot =>
          obtain ⟨profit, engine, processed, ready⟩ :=
            quiet.ready.processEvent_newBlock elapsedLow slot
          obtain ⟨counted, -, block⟩ := Aste.processEvent_cases processed
          obtain ⟨rfl, -⟩ := Aste.processBlock_cases block
          have received :
              mev.aste.receive host.target ⟨.newBlock slot, elapsedNanos⟩ =
                .ok { mev.aste with engine := engine } := by
            rw [AsteLoop.receive, processed, Checked.ok_bind]
            rfl
          dsimp only
          rw [received]
          exact ⟨_, rfl,
            { quiet with
              onlyBlocks := laterBlocks
              ready := ready }⟩

/-- A debug build panics only once a counter or an average leaves 64 bits. -/
def WithinClock (profile : Profile) (steps : List MevStep) : Prop :=
  profile = .debug →
    steps.length < 2 ^ 64 ∧
      ∀ elapsedNanos, .process elapsedNanos ∈ steps →
        elapsedNanos < Aste.clockLimit

/-- The steps of the tasks keep the module quiet. -/
theorem Quiet.foldlM_step
    {accepts : String → Bool}
    (answers :
      ∀ program,
        filter.contains host.target.profile host.filterHost.hash
          (textBytes program) = .ok (accepts program))
    {taken : List MevStep}
    (quiet : mev.Quiet host taken.length)
    (elapsedLow :
      host.target.profile = .debug →
        ∀ elapsedNanos, .process elapsedNanos ∈ taken →
          elapsedNanos < Aste.clockLimit) :
    ∃ final,
      taken.foldlM (step host settings filter) mev = .ok final ∧
        final.Quiet host 0 := by
  induction taken generalizing mev with
  | nil =>
      exact ⟨mev, rfl, quiet⟩
  | cons next later inductionHypothesis =>
      have laterLow := fun isDebug elapsedNanos member =>
        elapsedLow isDebug elapsedNanos (List.mem_cons_of_mem _ member)
      obtain ⟨following, stepped, followingQuiet⟩ :
          ∃ following,
            step host settings filter mev next = .ok following ∧
              following.Quiet host later.length := by
        cases next with
        | frame text nowNs =>
            exact quiet.fewer.handleFrame answers text nowNs
        | poll submitted =>
            exact quiet.fewer.pollTransaction submitted
        | tick nowMs =>
            exact ⟨_, rfl,
              quiet.fewer.lookAtClock (Nat.mod_lt _ (Nat.two_pow_pos 64))⟩
        | process elapsedNanos =>
            exact quiet.processNext
              (fun isDebug =>
                elapsedLow isDebug elapsedNanos List.mem_cons_self)
      rw [List.foldlM_cons, stepped, Checked.ok_bind]
      exact inductionHypothesis followingQuiet laterLow

/--
Whatever the endpoints send and however the tasks take turns, no task panics, no
opportunity is detected, no swap reaches the engine, and nothing is earned.
-/
theorem mempool_is_never_traded
    (host : MevHost)
    (settings : MevSettings)
    (steps : List MevStep)
    (clock : WithinClock host.target.profile steps) :
    ∃ final,
      run host settings steps = .ok final ∧
        (∀ event ∈ final.events, ¬ event.IsSwap) ∧
        final.mevOpportunitiesDetected = 0 ∧
        final.aste.mevBundlesSubmitted = 0 ∧
        final.aste.mevRevenueSat = 0 := by
  obtain ⟨filter, accepts, built, answers, -⟩ :=
    ProgramFilter.ofPrograms_returns host.target.profile host.filterHost
      settings.programs
  have start := quiet_start host settings (fun isDebug => (clock isDebug).1)
  obtain ⟨final, ran, quiet⟩ :=
    @Quiet.foldlM_step host settings filter _ accepts answers steps start
      (fun isDebug => (clock isDebug).2)
  refine ⟨final, ?_, fun event member => (quiet.onlyBlocks event member).1,
    quiet.noOpportunity, quiet.noBundle, quiet.noRevenue⟩
  rw [run, built, Checked.ok_bind, ran]

/-- A notification of the swap of a monitored program. -/
def swapNotification : JsonTree :=
  .object [("params", .object [("result", .object [("value", .object [
    ("signature", .string "5h6x"),
    ("logs", .array [.string "Program whir invoke [1]"])])])])]

theorem sampleSize_positive (expectedItems : Nat) (_ : 10 ≤ expectedItems) :
    1 ≤ ((144, 10) : Nat × UInt8).1 :=
  Nat.le_add_left 1 143

/-- A debug build whose endpoints send such notifications only. -/
def sampleHost : MevHost where
  target := ⟨.debug, exactFloats, stableSort⟩
  filterHost := ⟨ProgramFilter.byteSum, fun _ => (144, 10),
    sampleSize_positive⟩
  parseJson _ := some swapNotification

/-- The swap of a monitored program is received, and nothing comes of it. -/
theorem monitored_swap_is_never_traded :
    ∃ final,
      run sampleHost ⟨["whir"], 10000, false⟩
          [.frame "" 5, .tick 1000, .poll true, .process 800] = .ok final ∧
        (∀ event ∈ final.events, ¬ event.IsSwap) ∧
        final.mevOpportunitiesDetected = 0 ∧
        final.aste.mevBundlesSubmitted = 0 ∧
        final.aste.mevRevenueSat = 0 := by
  refine mempool_is_never_traded sampleHost _ _ fun _ => ⟨by decide, ?_⟩
  intro elapsedNanos member
  have isProcess : elapsedNanos = 800 := by simpa using member
  rw [isProcess]
  decide

end MevModule

end YieldDaemon
