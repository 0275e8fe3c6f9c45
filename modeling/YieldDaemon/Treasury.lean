import Mathlib.Data.Rat.Floor
import YieldDaemon.CheckedArithmetic

namespace YieldDaemon

open CheckedArithmetic

/-!
# Treasury pipeline

The treasury loop reads the cumulative revenue counters, consolidates the
profit to stablecoins once a threshold is met, and sends the stablecoin
balance to the bank through an exchange.

Atomic counters are u64 and wrap in `fetch_add`.  Amounts of type `f64` are
rationals; `f64` stands for the rounding of one floating-point result and is
the identity where amounts are taken as exact.  The Jupiter aggregator, the
keypair file and the exchange are responders of the environment.
-/

/-- Treasury configuration: the settings that the pipeline acts on. -/
structure TreasuryConfig where
  enabled : Bool
  consolidationThreshold : Nat
  stablecoinMint : Option String
  offrampThresholdUsd : ℚ
  maxOfframpUsd : ℚ
  exchange : String
  exchangeApiKey : Option String
  exchangeApiSecret : Option String
  bankAccountId : Option String
  fiatCurrency : String
  checkIntervalSecs : Nat
  walletKeypairPath : Option String
  slippageBps : Nat
  dryRun : Bool

namespace TreasuryConfig

/-- The settings used where the configuration file names none. -/
def default : TreasuryConfig where
  enabled := true
  consolidationThreshold := 50000000
  stablecoinMint := none
  offrampThresholdUsd := 100
  maxOfframpUsd := 10000
  exchange := "coinbase"
  exchangeApiKey := none
  exchangeApiSecret := none
  bankAccountId := none
  fiatCurrency := "USD"
  checkIntervalSecs := 300
  walletKeypairPath := none
  slippageBps := 50
  dryRun := true

end TreasuryConfig

/-- Treasury runtime state: profit accumulation and off-ramp status. -/
structure TreasuryState where
  totalProfitAccumulated : Nat
  stablecoinBalanceMicro : Nat
  totalFiatWithdrawnCents : Nat
  offrampCycles : Nat
  consolidationSwaps : Nat
  lastOfframpTs : Nat
  offrampFailures : Nat

/-- All counters of a fresh treasury are zero. -/
def TreasuryState.new : TreasuryState :=
  ⟨0, 0, 0, 0, 0, 0, 0⟩

/-- The saturating cast of a float to u64. -/
def asU64 (amount : ℚ) : Nat :=
  min ⌊amount⌋.toNat (2 ^ 64 - 1)

/-- A quote request to the Jupiter aggregator. -/
structure QuoteRequest where
  inputMint : String
  outputMint : String
  amount : Nat
  slippageBps : Nat

/--
The aggregator and the keypair file.  A failed request carries its error text;
a quote without a readable `outAmount` and a swap reply without a
`swapTransaction` are `none`.
-/
structure Jupiter where
  quote : QuoteRequest → Except String (Option Nat)
  loadKeypair : String → Except String String
  swap : String → Except String (Option String)

/-- The treasury keeper: decides when to extract profits. -/
structure TreasuryKeeper where
  cooldownSecs : Nat
  maxGasPrice : Nat
  thresholdMultiplier : ℚ

/-- The keeper that the treasury loop builds. -/
def TreasuryKeeper.new (config : TreasuryConfig) : TreasuryKeeper where
  -- A product that overflows u64 stops a debug build before its first pass.
  cooldownSecs := config.checkIntervalSecs * 2 % 2 ^ 64
  maxGasPrice := 50000000
  thresholdMultiplier := 1

namespace TreasuryKeeper

/-- Swap via Jupiter aggregator (Solana). -/
def jupiterSwap
    (config : TreasuryConfig)
    (jupiter : Jupiter)
    (amountLamports : Nat) :
    Except String Nat := do
  let quoted ← jupiter.quote {
    inputMint := "So11111111111111111111111111111111111111112"
    outputMint := config.stablecoinMint.getD
      "EPjFWdd5AufqSSqeM2qN1xzybapC8G4wEGGkZwyTDt1v"
    amount := amountLamports
    slippageBps := config.slippageBps }
  let outAmount := quoted.getD 0
  if outAmount = 0 then
    throw "Jupiter quote returned zero output"
  let userPubkey ←
    match config.walletKeypairPath with
    | none => throw "wallet_keypair_path not configured"
    | some path =>
      match jupiter.loadKeypair path with
      | .ok pubkey => pure pubkey
      | .error _ => throw "Wallet keypair required for Jupiter swap"
  match ← jupiter.swap userPubkey with
  | none => throw "No swap transaction in Jupiter response"
  | some _ => pure outAmount

/-- Swap via Uniswap V3 Router (EVM chains). -/
def uniswapSwap : Except String Nat :=
  .error "EVM swap not yet configured — set treasury.swap_router"

/-- The threshold of a consolidation after the keeper's multiplier. -/
def effectiveThreshold
    (f64 : ℚ → ℚ)
    (keeper : TreasuryKeeper)
    (config : TreasuryConfig) : Nat :=
  asU64 (f64 (f64 config.consolidationThreshold *
    keeper.thresholdMultiplier))

/-- The micro-USD credit of a dry run, at 150 USD for one SOL. -/
def simulatedMicroUsd (f64 : ℚ → ℚ) (totalProfit : Nat) : Nat :=
  asU64 (f64 (f64 (f64 (f64 totalProfit / 10 ^ 9) * 150) * 10 ^ 6))

/--
What one call of `consolidate_to_stablecoin` returned, the micro-USD it
credited, and the native profit it handed to a swap that went through.
-/
structure Consolidation where
  result : Except String Nat
  creditedMicro : Nat
  handedOver : Nat

/-- Consolidate native token profits into stablecoins. -/
def consolidateToStablecoin
    (f64 : ℚ → ℚ)
    (keeper : TreasuryKeeper)
    (config : TreasuryConfig)
    (chain : String)
    (jupiter : Jupiter)
    (totalProfit : Nat) : Consolidation :=
  if totalProfit < keeper.effectiveThreshold f64 config then
    ⟨.ok 0, 0, 0⟩
  else if config.dryRun then
    ⟨.ok totalProfit, simulatedMicroUsd f64 totalProfit, totalProfit⟩
  else
    let swapped :=
      if chain = "solana" then
        jupiterSwap config jupiter totalProfit
      else
        uniswapSwap
    match swapped with
    | .ok outAmount => ⟨.ok outAmount, 0, totalProfit⟩
    | .error reason => ⟨.error reason, 0, 0⟩

end TreasuryKeeper

/-- The exchanges that the off-ramp supports. -/
inductive ExchangeType where
  | coinbase
  | kraken
  deriving Repr, DecidableEq

/-- A signed request of the off-ramp to its exchange. -/
inductive ApiCall where
  | sell (path market : String) (amountUsd : ℚ)
  | withdraw (path currency bankAccount : String) (amountUsd : ℚ)
  deriving DecidableEq

/--
The exchange of one call: an error text, or the identifier that the reply
carries where the client looks for it.
-/
abbrev Exchange := ApiCall → Except String (Option String)

/-- Off-ramp client that bridges crypto profits to bank accounts. -/
structure OfframpClient where
  exchange : ExchangeType
  apiKey : String
  apiSecret : String
  bankAccountId : Option String
  fiatCurrency : String
  dryRun : Bool

/-- The result of an off-ramp and the requests it made, with their success. -/
structure Offramp where
  result : Except String String
  requests : List (ApiCall × Bool)

namespace OfframpClient

/-- The client of a configuration; `toLowercase` is Unicode lower-casing. -/
def new
    (toLowercase : String → String)
    (config : TreasuryConfig) :
    Except String OfframpClient := do
  let other := toLowercase config.exchange
  let exchange ←
    if other = "coinbase" ∨ other = "coinbase_pro" ∨
        other = "coinbase_advanced" then
      pure ExchangeType.coinbase
    else if other = "kraken" then
      pure ExchangeType.kraken
    else
      throw ("Unsupported exchange: " ++ other)
  pure {
    exchange := exchange
    apiKey := config.exchangeApiKey.getD ""
    apiSecret := config.exchangeApiSecret.getD ""
    bankAccountId := config.bankAccountId
    fiatCurrency := config.fiatCurrency
    dryRun := config.dryRun }

/--
The two requests of an off-ramp: the withdrawal follows a successful sell, and
an error of either request ends the call.
-/
def sellThenWithdraw
    (respond : Exchange)
    (sell withdraw : ApiCall) : Offramp :=
  match respond sell with
  | .error reason => ⟨.error reason, [(sell, false)]⟩
  | .ok sold =>
    let orderId := sold.getD "unknown"
    match respond withdraw with
    | .error reason =>
      ⟨.error reason, [(sell, true), (withdraw, false)]⟩
    | .ok withdrawn =>
      ⟨.ok (withdrawn.getD orderId), [(sell, true), (withdraw, true)]⟩

/-- Coinbase Advanced Trade API off-ramp. -/
def coinbaseOfframp
    (client : OfframpClient)
    (respond : Exchange)
    (amountUsd : ℚ) : Offramp :=
  sellThenWithdraw respond
    (.sell "/api/v3/brokerage/orders"
      ("USDC-" ++ client.fiatCurrency) amountUsd)
    (.withdraw "/v2/withdrawals/payment-method"
      client.fiatCurrency (client.bankAccountId.getD "") amountUsd)

/-- Kraken REST API off-ramp. -/
def krakenOfframp
    (client : OfframpClient)
    (respond : Exchange)
    (amountUsd : ℚ) : Offramp :=
  sellThenWithdraw respond
    (.sell "/0/private/AddOrder"
      ("USDC" ++ client.fiatCurrency) amountUsd)
    (.withdraw "/0/private/Withdraw"
      client.fiatCurrency (client.bankAccountId.getD "") amountUsd)

/-- Execute the full off-ramp pipeline. -/
def executeOfframp
    (client : OfframpClient)
    (respond : Exchange)
    (timestamp : Nat)
    (amountUsd : ℚ) : Offramp :=
  if client.dryRun then
    ⟨.ok ("DRY_RUN_" ++ toString timestamp), []⟩
  else if client.apiKey = "" ∨ client.apiSecret = "" then
    ⟨.error "Exchange API credentials not configured", []⟩
  else if client.bankAccountId = none then
    ⟨.error "Bank account ID not configured", []⟩
  else
    match client.exchange with
    | .coinbase => client.coinbaseOfframp respond amountUsd
    | .kraken => client.krakenOfframp respond amountUsd

end OfframpClient

/-- What one pass of the loop meets in its environment. -/
structure Iteration where
  zkRevenueSat : Nat
  mevRevenueSat : Nat
  mlRevenueSat : Nat
  jupiter : Jupiter
  respond : Exchange
  now : Nat

namespace Iteration

/-- The revenue earned so far in all three domains. -/
def revenue (pass : Iteration) : Nat :=
  pass.zkRevenueSat + pass.mevRevenueSat + pass.mlRevenueSat

/-- The u64 sum of the three counters. -/
def totalRev (pass : Iteration) : Nat :=
  pass.revenue % 2 ^ 64

end Iteration

/-- The fixed parts of a treasury loop. -/
structure TreasuryLoop where
  f64 : ℚ → ℚ
  config : TreasuryConfig
  chain : String
  client : OfframpClient

namespace TreasuryLoop

/-- The keeper of a loop. -/
def keeper (loop : TreasuryLoop) : TreasuryKeeper :=
  TreasuryKeeper.new loop.config

/-- Step 2: consolidate if the threshold is met. -/
def consolidate
    (loop : TreasuryLoop)
    (pass : Iteration) : TreasuryKeeper.Consolidation :=
  if loop.config.consolidationThreshold ≤ pass.totalRev then
    loop.keeper.consolidateToStablecoin loop.f64 loop.config loop.chain
      pass.jupiter pass.totalRev
  else
    ⟨.ok 0, 0, 0⟩

/-- The state after steps 1 and 2. -/
def afterConsolidation
    (loop : TreasuryLoop)
    (before : TreasuryState)
    (pass : Iteration) : TreasuryState :=
  let outcome := loop.consolidate pass
  { before with
    totalProfitAccumulated := pass.totalRev
    stablecoinBalanceMicro :=
      fetchAdd before.stablecoinBalanceMicro outcome.creditedMicro
    consolidationSwaps :=
      match outcome.result with
      | .ok amount =>
        if 0 < amount then
          fetchAdd before.consolidationSwaps 1
        else
          before.consolidationSwaps
      | .error _ => before.consolidationSwaps }

/-- The stablecoin balance of a state in USD. -/
def stableUsd (loop : TreasuryLoop) (state : TreasuryState) : ℚ :=
  loop.f64 (loop.f64 state.stablecoinBalanceMicro / 1000000)

/-- The amount of an off-ramp. -/
def withdrawAmount (loop : TreasuryLoop) (state : TreasuryState) : ℚ :=
  min (loop.stableUsd state) loop.config.maxOfframpUsd

/-- The off-ramp of step 3, where its threshold is met. -/
def offramp
    (loop : TreasuryLoop)
    (state : TreasuryState)
    (pass : Iteration) : Option Offramp :=
  if loop.config.offrampThresholdUsd ≤ loop.stableUsd state then
    some (loop.client.executeOfframp pass.respond pass.now
      (loop.withdrawAmount state))
  else
    none

/-- Step 3: book the off-ramp in the treasury state. -/
def afterOfframp
    (loop : TreasuryLoop)
    (state : TreasuryState)
    (pass : Iteration) : TreasuryState :=
  match loop.offramp state pass with
  | none => state
  | some outcome =>
    match outcome.result with
    | .ok _ =>
      { state with
        offrampCycles := fetchAdd state.offrampCycles 1
        totalFiatWithdrawnCents :=
          fetchAdd state.totalFiatWithdrawnCents
            (asU64 (loop.f64 (loop.withdrawAmount state * 100)))
        lastOfframpTs := pass.now }
    | .error _ =>
      { state with
        offrampFailures := fetchAdd state.offrampFailures 1 }

/-- One pass of the treasury loop. -/
def iterate
    (loop : TreasuryLoop)
    (before : TreasuryState)
    (pass : Iteration) : TreasuryState :=
  loop.afterOfframp (loop.afterConsolidation before pass) pass

end TreasuryLoop

end YieldDaemon
