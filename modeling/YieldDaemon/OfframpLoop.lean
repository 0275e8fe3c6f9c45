import YieldDaemon.Attempts
import YieldDaemon.JsonTree
import YieldDaemon.MetricsBridge

namespace YieldDaemon

open Attempts

/-!
# Off-ramp orchestrator

The service beside the daemon reads its metrics, asks for the balances of the
wallet, asks for a quote, sells stablecoins at an exchange and withdraws the fiat
to a bank account, cycle after cycle.  Every blocking call takes its answer from
outside, and any of them may raise or be interrupted.
-/

namespace Offramp

/-- What Python code may raise here: an `Exception`, or `KeyboardInterrupt`. -/
inductive Raised where
  | exception
  | interrupt
  deriving DecidableEq, Repr

/-- `except Exception` goes on with a value; an interrupt passes through. -/
def Raised.excepted {Value : Type} (value : Value) : Raised → Option Value
  | .exception => some value
  | .interrupt => none

/-- A request that leaves the process. -/
inductive Request where
  | rpc (url : String) (body : JsonTree)
  | quote (url : String)
  | exchange (url : String) (headers : List (String × String)) (body : String)

/-- Requests for balances and quotes move nothing. -/
def Request.OnlyAsks : Request → Prop
  | .rpc _ _ => True
  | .quote _ => True
  | .exchange _ _ _ => False

/-- An action of the service: its requests, and what it returns or raises. -/
abbrev Outside := Attempt Request Raised

/-- The answer of a blocking call. -/
abbrev Answer := Except Raised

/--
Python's floats, conversions and text encodings, and the signatures that the
exchanges ask for.  A conversion gives nothing where it raises.
-/
structure Host where
  Amount : Type
  zero : Amount
  gasReserve : Amount
  lamportsPerSol : Amount
  simulatedPrice : Amount
  add : Amount → Amount → Amount
  sub : Amount → Amount → Amount
  mul : Amount → Amount → Amount
  lt : Amount → Amount → Bool
  ge : Amount → Amount → Bool
  /-- No float is below itself, NaN included. -/
  ltIrrefl : ∀ amount, lt amount amount = false
  toInt : Amount → Option Int
  twoDecimals : Amount → String
  floatOf : JsonTree → Option Amount
  perBillion : JsonTree → Option Amount
  intOf : JsonTree → Option Int
  perMillion : Int → Option Amount
  isZeroText : String → Bool
  jsonDumps : JsonTree → String
  hmacSha256 : String → String → String
  krakenSignature : String → String → Nat → String → Option String

/-- `min(first, second)`. -/
def Host.min (host : Host) (first second : host.Amount) : host.Amount :=
  if host.lt second first then second else first

/-- A conversion that may raise. -/
def converted {Value : Type} : Option Value → Answer Value
  | some value => .ok value
  | none => .error .exception

/-- `value.get(key, default)`: only an object has this method. -/
def getOr (value : JsonTree) (key : String) (default : JsonTree) :
    Answer JsonTree :=
  match value with
  | .object _ => .ok ((value.get key).getD default)
  | _ => .error .exception

/-- `value[key]`. -/
def item (value : JsonTree) (key : String) : Answer JsonTree :=
  converted (value.get key)

/-- `value[0]`. -/
def firstItem : JsonTree → Answer JsonTree
  | .array (first :: _) => .ok first
  | .string text =>
      match text.toList with
      | first :: _ => .ok (.string first.toString)
      | [] => .error .exception
  | _ => .error .exception

/-- `bool(value)`. -/
def truthy (host : Host) : JsonTree → Bool
  | .null => false
  | .boolean value => value
  | .integer value => value != 0
  | .float text => !host.isZeroText text
  | .string value => value != ""
  | .array items => !items.isEmpty
  | .object entries => !entries.isEmpty

/-- The settings that the loop reads. -/
structure Config (host : Host) where
  chain : String
  rpcUrl : String
  walletAddress : String
  stablecoinMint : String
  consolidationThresholdSol : host.Amount
  offrampThresholdUsd : host.Amount
  maxOfframpUsd : host.Amount
  exchange : String
  exchangeApiKey : String
  exchangeApiSecret : String
  bankAccountId : String
  fiatCurrency : String
  dryRun : Bool
  slippageBps : Int

/-- What reading a metrics file comes to; two errors are passed over. -/
inductive FileRead where
  | absent
  | skipped
  | json (value : JsonTree)
  | raises (raised : Raised)

/-- The clocks that are read for a request to an exchange. -/
structure Clock where
  secs : Nat
  millis : Nat

/-- Everything that one cycle takes from outside. -/
structure CycleAnswers where
  files : MetricsFile → FileRead
  solBalance : Answer JsonTree
  tokenAccounts : Answer JsonTree
  quote : Answer JsonTree
  sellClock : Clock
  sell : Answer JsonTree
  settled : Answer Unit
  withdrawClock : Clock
  withdraw : Answer JsonTree
  slept : Answer Unit

inductive ExchangeClient where
  | coinbase (apiKey apiSecret : String)
  | kraken (apiKey apiSecret : String)

/-- The client that is built before the loop. -/
def exchangeClient {host : Host} (config : Config host) :
    Option ExchangeClient :=
  if !config.dryRun && config.exchangeApiKey != "" then
    if config.exchange = "coinbase" then
      some (.coinbase config.exchangeApiKey config.exchangeApiSecret)
    else if config.exchange = "kraken" then
      some (.kraken config.exchangeApiKey config.exchangeApiSecret)
    else
      none
  else
    none

/-- `CoinbaseClient._request` for a method and path with a body. -/
def coinbaseRequest
    (host : Host)
    (apiKey apiSecret method path : String)
    (secs : Nat)
    (body : JsonTree) : Request :=
  let timestamp := toString secs
  let bodyStr := host.jsonDumps body
  .exchange ("https://api.coinbase.com" ++ path)
    [("CB-ACCESS-KEY", apiKey),
      ("CB-ACCESS-SIGN",
        host.hmacSha256 apiSecret (timestamp ++ method ++ path ++ bodyStr)),
      ("CB-ACCESS-TIMESTAMP", timestamp),
      ("Content-Type", "application/json")]
    bodyStr

/-- `KrakenClient._private_request`; a secret that cannot be decoded raises. -/
def krakenRequest
    (host : Host)
    (apiKey apiSecret path : String)
    (nonce : Nat)
    (params : List (String × String)) : Answer Request := do
  let data := ("nonce", toString nonce) :: params
  let body := "&".intercalate (data.map fun entry => entry.1 ++ "=" ++ entry.2)
  let signature ← converted (host.krakenSignature apiSecret path nonce body)
  return .exchange ("https://api.kraken.com" ++ path)
    [("API-Key", apiKey),
      ("API-Sign", signature),
      ("Content-Type", "application/x-www-form-urlencoded")]
    body

/-- The order that `sell_usdc` posts. -/
def sellRequest
    (host : Host)
    (client : ExchangeClient)
    (clock : Clock)
    (amount : host.Amount)
    (fiat : String) : Answer Request :=
  match client with
  | .coinbase apiKey apiSecret =>
      .ok (coinbaseRequest host apiKey apiSecret "POST"
        "/api/v3/brokerage/orders" clock.secs
        (.object [
          ("client_order_id", .string ("yd_" ++ toString clock.millis)),
          ("product_id", .string ("USDC-" ++ fiat)),
          ("side", .string "SELL"),
          ("order_configuration", .object [
            ("market_market_ioc", .object [
              ("quote_size", .string (host.twoDecimals amount))])])]))
  | .kraken apiKey apiSecret =>
      krakenRequest host apiKey apiSecret "/0/private/AddOrder" clock.millis
        [("pair", "USDC" ++ fiat),
          ("type", "sell"),
          ("ordertype", "market"),
          ("volume", host.twoDecimals amount)]

/-- What `sell_usdc` reads from the response. -/
def soldOrderId (host : Host) (client : ExchangeClient) (resp : JsonTree) :
    Answer JsonTree := do
  match client with
  | .coinbase _ _ => getOr resp "order_id" (.string "unknown")
  | .kraken _ _ =>
      let result ← getOr resp "result" (.object [])
      let txids ← getOr result "txid" (.array [.string "unknown"])
      if truthy host txids then
        firstItem txids
      else
        return .string "unknown"

/-- Sign a request, post it and read its response. -/
def exchangeCall
    (request : Answer Request)
    (answer : Answer JsonTree)
    (read : JsonTree → Answer JsonTree) : Outside JsonTree := do
  let request ← .ofExcept request
  let resp ← .post request answer
  .ofExcept (read resp)

/-- Market sell USDC for fiat. -/
def sellUsdc
    (host : Host)
    (client : ExchangeClient)
    (answers : CycleAnswers)
    (amount : host.Amount)
    (fiat : String) : Outside JsonTree :=
  exchangeCall (sellRequest host client answers.sellClock amount fiat)
    answers.sell (soldOrderId host client)

/-- The withdrawal that `withdraw_to_bank` or `withdraw_fiat` posts. -/
def withdrawRequest
    (host : Host)
    (client : ExchangeClient)
    (clock : Clock)
    (amount : host.Amount)
    (bankId currency : String) : Answer Request :=
  match client with
  | .coinbase apiKey apiSecret =>
      .ok (coinbaseRequest host apiKey apiSecret "POST"
        "/v2/withdrawals/payment-method" clock.secs
        (.object [
          ("amount", .string (host.twoDecimals amount)),
          ("currency", .string currency),
          ("payment_method", .string bankId)]))
  | .kraken apiKey apiSecret =>
      krakenRequest host apiKey apiSecret "/0/private/Withdraw" clock.millis
        [("asset", "ZUSD"),
          ("key", bankId),
          ("amount", host.twoDecimals amount)]

/-- What the withdrawal reads from the response. -/
def withdrawalId (client : ExchangeClient) (resp : JsonTree) :
    Answer JsonTree := do
  match client with
  | .coinbase _ _ =>
      let data ← getOr resp "data" (.object [])
      getOr data "id" (.string "unknown")
  | .kraken _ _ =>
      let result ← getOr resp "result" (.object [])
      getOr result "refid" (.string "unknown")

/-- Withdraw fiat to the linked bank account. -/
def withdrawToBank
    (host : Host)
    (client : ExchangeClient)
    (answers : CycleAnswers)
    (amount : host.Amount)
    (bankId currency : String) : Outside JsonTree :=
  exchangeCall
    (withdrawRequest host client answers.withdrawClock amount bankId currency)
    answers.withdraw (withdrawalId client)

/-- The revenue of one domain, as `read_daemon_metrics` takes it. -/
def revenueOf : FileRead → Answer JsonTree
  | .absent => .ok (.integer 0)
  | .skipped => .ok (.integer 0)
  | .json value => getOr value "revenue_sat" (.integer 0)
  | .raises raised => .error raised

/-- Numbers can be summed up, and nothing else here can. -/
def isNumber : JsonTree → Bool
  | .boolean _ => true
  | .integer _ => true
  | .float _ => true
  | _ => false

/-- The revenues that are read; the sum raises unless they are numbers. -/
def readDaemonMetrics (files : MetricsFile → FileRead) :
    Answer (List JsonTree) := do
  let revenues ←
    [MetricsFile.zk, .mev, .ml].mapM fun domain => revenueOf (files domain)
  if revenues.all isNumber then
    return revenues
  else
    throw .exception

/-- The balance in SOL, or 0 if asking for it fails. -/
def getSolBalance (host : Host) (rpcUrl address : String)
    (answer : Answer JsonTree) : Outside host.Amount :=
  Attempt.handle
    (do
      let json ←
        .post (.rpc rpcUrl (.rpcCall "getBalance" [.string address])) answer
      let result ← .ofExcept (getOr json "result" (.object []))
      let lamports ← .ofExcept (getOr result "value" (.integer 0))
      .ofExcept (converted (host.perBillion lamports)))
    (Raised.excepted host.zero)

/-- The balance of a token, or 0 if asking for it fails. -/
def getSplTokenBalance (host : Host) (rpcUrl owner mint : String)
    (answer : Answer JsonTree) : Outside host.Amount :=
  Attempt.handle
    (do
      let json ←
        .post
          (.rpc rpcUrl (.rpcCall "getTokenAccountsByOwner"
            [.string owner,
              .object [("mint", .string mint)],
              .object [("encoding", .string "jsonParsed")]]))
          answer
      let result ← .ofExcept (getOr json "result" (.object []))
      let accounts ← .ofExcept (getOr result "value" (.array []))
      if truthy host accounts then
        let account ← .ofExcept (firstItem accounts)
        let account ← .ofExcept (item account "account")
        let data ← .ofExcept (item account "data")
        let parsed ← .ofExcept (item data "parsed")
        let info ← .ofExcept (item parsed "info")
        let tokenAmount ← .ofExcept (item info "tokenAmount")
        let uiAmount ← .ofExcept (getOr tokenAmount "uiAmount" (.integer 0))
        .ofExcept (converted (host.floatOf uiAmount))
      else
        return host.zero)
    (Raised.excepted host.zero)

/-- A swap quote, or none if asking for it fails. -/
def jupiterGetQuote
    (inputMint outputMint : String)
    (amountLamports slippageBps : Int)
    (answer : Answer JsonTree) : Outside (Option JsonTree) :=
  Attempt.handle
    (do
      let quote ←
        .post
          (.quote ("https://quote-api.jup.ag/v6/quote" ++
            "?inputMint=" ++ inputMint ++
            "&outputMint=" ++ outputMint ++
            "&amount=" ++ toString amountLamports ++
            "&slippageBps=" ++ toString slippageBps))
          answer
      return some quote)
    (Raised.excepted none)

section Loop

variable (host : Host) (config : Config host) (answers : CycleAnswers)

/-- Step 2: check the balances of the wallet. -/
def checkWallet : Outside (host.Amount × host.Amount) := do
  if config.chain = "solana" ∧ config.walletAddress ≠ "" then
    let solBalance ←
      getSolBalance host config.rpcUrl config.walletAddress answers.solBalance
    let usdcBalance ←
      getSplTokenBalance host config.rpcUrl config.walletAddress
        config.stablecoinMint answers.tokenAccounts
    return (solBalance, usdcBalance)
  else
    return (host.zero, host.zero)

/-- Step 3: consolidation, simulated in a dry run and only quoted otherwise. -/
def consolidate (solBalance usdcBalance : host.Amount) :
    Outside host.Amount := do
  if host.lt config.consolidationThresholdSol solBalance then
    let swapAmountSol := host.sub solBalance host.gasReserve
    let swapAmountLamports ←
      .ofExcept
        (converted (host.toInt (host.mul swapAmountSol host.lamportsPerSol)))
    if config.dryRun then
      return host.add usdcBalance (host.mul swapAmountSol host.simulatedPrice)
    else
      let quote ←
        jupiterGetQuote "So11111111111111111111111111111111111111112"
          config.stablecoinMint swapAmountLamports config.slippageBps
          answers.quote
      match quote with
      | none => return usdcBalance
      | some quote =>
          if truthy host quote then
            let outAmount ← .ofExcept (getOr quote "outAmount" (.integer 0))
            let outAmount ← .ofExcept (converted (host.intOf outAmount))
            -- The value in USDC is logged, and the balance is not credited.
            let _ ← .ofExcept (converted (host.perMillion outAmount))
            return usdcBalance
          else
            return usdcBalance
  else
    return usdcBalance

/-- Step 4b: withdraw fiat to the bank; the amount if it was withdrawn. -/
def withdrawFiat (client : ExchangeClient) (withdrawAmount : host.Amount) :
    Outside (Option host.Amount) := do
  if config.bankAccountId ≠ "" then
    let _ ←
      withdrawToBank host client answers withdrawAmount config.bankAccountId
        config.fiatCurrency
    return some withdrawAmount
  else
    return none

/-- Steps 4a and 4b, inside their own `try`. -/
def sellAndWithdraw (client : ExchangeClient) (withdrawAmount : host.Amount) :
    Outside (Option host.Amount) :=
  Attempt.handle
    (do
      let _ ←
        sellUsdc host client answers withdrawAmount config.fiatCurrency
      .ofExcept answers.settled
      withdrawFiat host config answers client withdrawAmount)
    (Raised.excepted none)

/-- Step 4: off-ramp; gives the new lifetime total. -/
def offRamp (totalWithdrawnUsd usdcBalance : host.Amount) :
    Outside host.Amount := do
  if host.ge usdcBalance config.offrampThresholdUsd then
    let withdrawAmount := host.min usdcBalance config.maxOfframpUsd
    if config.dryRun then
      return host.add totalWithdrawnUsd withdrawAmount
    else
      match exchangeClient config with
      | some client =>
          let withdrawn ← sellAndWithdraw host config answers client
            withdrawAmount
          match withdrawn with
          | some amount => return host.add totalWithdrawnUsd amount
          | none => return totalWithdrawnUsd
      | none => return totalWithdrawnUsd
  else
    return totalWithdrawnUsd

/-- The steps before the off-ramp; gives the balance that it looks at. -/
def observe : Outside host.Amount := do
  let _ ← .ofExcept (readDaemonMetrics answers.files)
  let (solBalance, usdcBalance) ← checkWallet host config answers
  consolidate host config answers solBalance usdcBalance

/-- The body of the loop, inside its `try`. -/
def cycle (totalWithdrawnUsd : host.Amount) : Outside host.Amount := do
  let usdcBalance ← observe host config answers
  offRamp host config answers totalWithdrawnUsd usdcBalance

end Loop

/-- The state of the service; `stopped` after an interrupt. -/
structure State (host : Host) where
  totalWithdrawnUsd : host.Amount
  cycleCount : Nat
  requests : List Request
  stopped : Bool

def State.new (host : Host) : State host where
  totalWithdrawnUsd := host.zero
  cycleCount := 0
  requests := []
  stopped := false

variable {host : Host}

/-- Whether a blocking call was interrupted. -/
def interrupted : Answer Unit → Bool
  | .error .interrupt => true
  | .error .exception => false
  | .ok () => false

/-- One turn of the `while` loop, with the sleep after it. -/
def turn (config : Config host) (state : State host)
    (answers : CycleAnswers) : State host :=
  if state.stopped then
    state
  else
    let attempt := cycle host config answers state.totalWithdrawnUsd
    let tried : State host :=
      { state with
        cycleCount := state.cycleCount + 1
        requests := state.requests ++ attempt.posted }
    match attempt.result with
    | .error .interrupt => { tried with stopped := true }
    | .error .exception =>
        { tried with stopped := interrupted answers.slept }
    | .ok totalWithdrawnUsd =>
        { tried with
          totalWithdrawnUsd
          stopped := interrupted answers.slept }

/-- `run_offramp_loop` over the answers that it has been given so far. -/
def runOfframpLoop (config : Config host) (cycles : List CycleAnswers) :
    State host :=
  cycles.foldl (turn config) (State.new host)

/-- The file of a domain, as the daemon has published it. -/
def fileRead (bridge : Bridge) (file : MetricsFile) : FileRead :=
  match bridge.published file with
  | none => .absent
  | some .torn => .skipped
  | some (.whole snapshot) =>
      .json (.object (snapshot.map fun entry => (entry.1, .integer entry.2)))

theorem revenueOf_fileRead (bridge : Bridge) (file : MetricsFile) :
    revenueOf (fileRead bridge file) =
      .ok (.integer (bridge.readRevenue file)) := by
  unfold fileRead Bridge.readRevenue Bridge.readValue
  cases published : bridge.published file with
  | none => rfl
  | some content =>
      cases content with
      | torn => rfl
      | whole snapshot =>
          dsimp only [revenueOf, getOr, JsonTree.get, Bridge.valueOf]
          rw [List.find?_map]
          cases found :
              snapshot.find? (fun entry => entry.1 = "revenue_sat") with
          | none => simp [found]
          | some entry => simp [found]

/-- The daemon's files never raise, whenever each of them is read. -/
theorem readDaemonMetrics_of_bridge (moment : MetricsFile → Bridge) :
    readDaemonMetrics (fun file => fileRead (moment file) file) =
      .ok
        ([MetricsFile.zk, .mev, .ml].map fun file =>
          .integer ((moment file).readRevenue file)) := by
  simp [readDaemonMetrics, revenueOf_fileRead, isNumber]
  rfl

variable {config : Config host} {answers : CycleAnswers}

theorem getSolBalance_asks
    (rpcUrl address : String)
    (answer : Answer JsonTree) :
    (getSolBalance host rpcUrl address answer).Posts Request.OnlyAsks :=
  Attempt.Posts.handle
    (.bind (.post trivial answer) fun _ =>
      .bind (.ofExcept _) fun _ => .bind (.ofExcept _) fun _ => .ofExcept _)
    _

theorem getSplTokenBalance_asks
    (rpcUrl owner mint : String)
    (answer : Answer JsonTree) :
    (getSplTokenBalance host rpcUrl owner mint answer).Posts
      Request.OnlyAsks := by
  refine Attempt.Posts.handle (.bind (.post trivial answer) fun _ =>
    .bind (.ofExcept _) fun _ => .bind (.ofExcept _) fun _ => ?_) _
  split
  · exact .bind (.ofExcept _) fun _ => .bind (.ofExcept _) fun _ =>
      .bind (.ofExcept _) fun _ => .bind (.ofExcept _) fun _ =>
        .bind (.ofExcept _) fun _ => .bind (.ofExcept _) fun _ =>
          .bind (.ofExcept _) fun _ => .ofExcept _
  · exact .pure

theorem jupiterGetQuote_asks
    (inputMint outputMint : String)
    (amountLamports slippageBps : Int)
    (answer : Answer JsonTree) :
    (jupiterGetQuote inputMint outputMint amountLamports slippageBps
      answer).Posts Request.OnlyAsks :=
  Attempt.Posts.handle (.bind (.post trivial answer) fun _ => .pure) _

theorem checkWallet_asks :
    (checkWallet host config answers).Posts Request.OnlyAsks := by
  unfold checkWallet
  split
  · exact .bind (getSolBalance_asks _ _ _) fun _ =>
      .bind (getSplTokenBalance_asks _ _ _ _) fun _ => .pure
  · exact .pure

theorem consolidate_asks (solBalance usdcBalance : host.Amount) :
    (consolidate host config answers solBalance usdcBalance).Posts
      Request.OnlyAsks := by
  unfold consolidate
  split
  · refine .bind (.ofExcept _) fun lamports => ?_
    split
    · exact .pure
    · refine .bind (jupiterGetQuote_asks _ _ _ _ _) fun quote => ?_
      cases quote with
      | none => exact .pure
      | some quote =>
          dsimp only
          split
          · exact .bind (.ofExcept _) fun _ => .bind (.ofExcept _) fun _ =>
              .bind (.ofExcept _) fun _ => .pure
          · exact .pure
  · exact .pure

/-- Before the off-ramp a cycle only asks. -/
theorem observe_asks :
    (observe host config answers).Posts Request.OnlyAsks :=
  .bind (.ofExcept _) fun _ =>
    .bind checkWallet_asks fun _ => consolidate_asks _ _

/-- Outside a dry run no quote is credited. -/
theorem consolidate_live
    {solBalance usdcBalance balance : host.Amount}
    (live : config.dryRun = false)
    (returned :
      (consolidate host config answers solBalance usdcBalance).result =
        .ok balance) :
    balance = usdcBalance := by
  unfold consolidate at returned
  split at returned
  · obtain ⟨lamports, -, returned⟩ := Attempt.result_bind_eq_ok.mp returned
    rw [if_neg (by simp [live])] at returned
    obtain ⟨quote, -, returned⟩ := Attempt.result_bind_eq_ok.mp returned
    cases quote with
    | none =>
        cases returned
        rfl
    | some quote =>
        dsimp only at returned
        split at returned
        · obtain ⟨_, -, returned⟩ := Attempt.result_bind_eq_ok.mp returned
          obtain ⟨_, -, returned⟩ := Attempt.result_bind_eq_ok.mp returned
          obtain ⟨_, -, returned⟩ := Attempt.result_bind_eq_ok.mp returned
          cases returned
          rfl
        · cases returned
          rfl
  · cases returned
    rfl

/-- The balance that the off-ramp looks at is then the wallet's own. -/
theorem observe_live
    {balance : host.Amount}
    (live : config.dryRun = false)
    (observed : (observe host config answers).result = .ok balance) :
    ∃ solBalance,
      (checkWallet host config answers).result = .ok (solBalance, balance) := by
  obtain ⟨revenues, -, observed⟩ := Attempt.result_bind_eq_ok.mp observed
  obtain ⟨⟨solBalance, usdcBalance⟩, checked, consolidated⟩ :=
    Attempt.result_bind_eq_ok.mp observed
  obtain rfl := consolidate_live live consolidated
  exact ⟨solBalance, checked⟩

/-- A call posts nothing before it is signed, and returns only if answered. -/
theorem exchangeCall_cases
    (request : Answer Request)
    (answer : Answer JsonTree)
    (read : JsonTree → Answer JsonTree) :
    (∃ raised,
      request = .error raised ∧
        exchangeCall request answer read = ⟨[], .error raised⟩) ∨
    ∃ signed,
      request = .ok signed ∧
        (exchangeCall request answer read).posted = [signed] ∧
        ∀ id, (exchangeCall request answer read).result = .ok id →
          ∃ resp, answer = .ok resp := by
  cases request with
  | error raised => exact .inl ⟨raised, rfl, rfl⟩
  | ok signed =>
      refine .inr ⟨signed, rfl, ?_⟩
      cases answer with
      | error raised =>
          refine ⟨rfl, fun id returned => ?_⟩
          cases returned
      | ok resp =>
          refine ⟨?_, fun id returned => ⟨resp, rfl⟩⟩
          simp [exchangeCall, Attempt.bind_of_ok, Attempt.post]

/-- What was withdrawn, if anything. -/
def countedOf {Amount : Type} : Answer (Option Amount) → Option Amount
  | .ok counted => counted
  | .error _ => none

/--
The requests that trade an amount, and the amount if it is counted.  A
withdrawal comes after an order that was answered.
-/
inductive Trades
    (config : Config host)
    (answers : CycleAnswers)
    (client : ExchangeClient)
    (amount : host.Amount) :
    List Request → Option host.Amount → Prop where
  | unsigned
      {raised : Raised}
      (notSigned :
        sellRequest host client answers.sellClock amount config.fiatCurrency =
          .error raised) :
      Trades config answers client amount [] none
  | sold
      {order : Request}
      (ordered :
        sellRequest host client answers.sellClock amount config.fiatCurrency =
          .ok order) :
      Trades config answers client amount [order] none
  | withdrew
      {order withdrawal : Request}
      {counted : Option host.Amount}
      (ordered :
        sellRequest host client answers.sellClock amount config.fiatCurrency =
          .ok order)
      (answered : ∃ resp, answers.sell = .ok resp)
      (hasBank : config.bankAccountId ≠ "")
      (withdrawn :
        withdrawRequest host client answers.withdrawClock amount
          config.bankAccountId config.fiatCurrency = .ok withdrawal)
      (isCounted :
        counted = none ∨
          counted = some amount ∧ ∃ resp, answers.withdraw = .ok resp) :
      Trades config answers client amount [order, withdrawal] counted

theorem countedOf_handle
    {Amount : Type}
    (attempt : Outside (Option Amount)) :
    countedOf (attempt.handle (Raised.excepted none)).result =
      countedOf attempt.result := by
  cases outcome : attempt.result with
  | ok counted =>
      simp [Attempt.handle, outcome]
  | error raised =>
      cases raised <;>
        simp [Attempt.handle, outcome, Raised.excepted, countedOf]

variable {client : ExchangeClient} {amount : host.Amount}

/-- Step 4b posts a withdrawal or nothing, and counts it if it returns. -/
theorem withdrawFiat_cases :
    ((withdrawFiat host config answers client amount).posted = [] ∧
      countedOf (withdrawFiat host config answers client amount).result =
        none) ∨
    ∃ withdrawal,
      config.bankAccountId ≠ "" ∧
        withdrawRequest host client answers.withdrawClock amount
            config.bankAccountId config.fiatCurrency = .ok withdrawal ∧
        (withdrawFiat host config answers client amount).posted =
          [withdrawal] ∧
        (countedOf (withdrawFiat host config answers client amount).result =
            none ∨
          countedOf (withdrawFiat host config answers client amount).result =
              some amount ∧
            ∃ resp, answers.withdraw = .ok resp) := by
  unfold withdrawFiat
  by_cases noBank : config.bankAccountId = ""
  · rw [if_neg (not_not_intro noBank)]
    exact .inl ⟨rfl, rfl⟩
  rw [if_pos noBank]
  rcases exchangeCall_cases
      (withdrawRequest host client answers.withdrawClock amount
        config.bankAccountId config.fiatCurrency)
      answers.withdraw (withdrawalId client) with
    ⟨raised, notSigned, failed⟩ | ⟨withdrawal, signed, posted, answered⟩
  · have isCall :
        withdrawToBank host client answers amount config.bankAccountId
          config.fiatCurrency = ⟨[], .error raised⟩ := failed
    rw [isCall]
    exact .inl ⟨rfl, rfl⟩
  · refine .inr ⟨withdrawal, noBank, signed, ?_⟩
    change
      (withdrawToBank host client answers amount config.bankAccountId
        config.fiatCurrency).posted = [withdrawal] at posted
    cases outcome :
        (withdrawToBank host client answers amount config.bankAccountId
          config.fiatCurrency).result with
    | error raised =>
        rw [Attempt.bind_of_error outcome, posted]
        exact ⟨rfl, .inl rfl⟩
    | ok id =>
        rw [Attempt.bind_of_ok outcome, posted]
        exact ⟨rfl, .inr ⟨rfl, answered id outcome⟩⟩

/-- Steps 4a and 4b trade the amount they are given. -/
theorem sellAndWithdraw_trades :
    Trades config answers client amount
      (sellAndWithdraw host config answers client amount).posted
      (countedOf
        (sellAndWithdraw host config answers client amount).result) := by
  unfold sellAndWithdraw
  rw [countedOf_handle, Attempt.posted_handle]
  rcases exchangeCall_cases
      (sellRequest host client answers.sellClock amount config.fiatCurrency)
      answers.sell (soldOrderId host client) with
    ⟨raised, notSigned, failed⟩ | ⟨order, ordered, posted, answered⟩
  · have isCall :
        sellUsdc host client answers amount config.fiatCurrency =
          ⟨[], .error raised⟩ := failed
    rw [isCall]
    exact .unsigned notSigned
  change
    (sellUsdc host client answers amount config.fiatCurrency).posted =
      [order] at posted
  cases outcome :
      (sellUsdc host client answers amount config.fiatCurrency).result with
  | error raised =>
      rw [Attempt.bind_of_error outcome, posted]
      exact .sold ordered
  | ok id =>
      rw [Attempt.bind_of_ok outcome, posted]
      cases settled : answers.settled with
      | error raised =>
          exact .sold ordered
      | ok settlement =>
          have passed :
              (.ofExcept (.ok settlement) : Outside Unit).result =
                .ok settlement := rfl
          rw [Attempt.bind_of_ok passed]
          rcases @withdrawFiat_cases host config answers client amount with
            ⟨nothing, uncounted⟩ |
              ⟨withdrawal, hasBank, withdrawn, posted, isCounted⟩
          · dsimp only
            rw [nothing, uncounted]
            exact .sold ordered
          · dsimp only
            rw [posted]
            exact .withdrew ordered (answered id outcome) hasBank withdrawn
              isCounted

/-! What a run trades. -/

/-- What one cycle posted, and the amount that it counted as withdrawn. -/
structure CycleReport (host : Host) where
  asked : List Request
  traded : List Request
  counted : Option host.Amount

namespace CycleReport

def requests (report : CycleReport host) : List Request :=
  report.asked ++ report.traded

/-- Add what was counted to a lifetime total. -/
def credit (total : host.Amount) (report : CycleReport host) : host.Amount :=
  match report.counted with
  | some amount => host.add total amount
  | none => total

end CycleReport

/-- The steps that take an amount off the chain, or simulate that. -/
inductive OffRamps
    (config : Config host)
    (answers : CycleAnswers)
    (amount : host.Amount) :
    List Request → Option host.Amount → Prop where
  | simulated (dry : config.dryRun = true) :
      OffRamps config answers amount [] (some amount)
  | unconfigured
      (live : config.dryRun = false)
      (noClient : exchangeClient config = none) :
      OffRamps config answers amount [] none
  | traded
      {client : ExchangeClient}
      {requests : List Request}
      {counted : Option host.Amount}
      (live : config.dryRun = false)
      (isClient : exchangeClient config = some client)
      (trades : Trades config answers client amount requests counted) :
      OffRamps config answers amount requests counted

/--
A report of a cycle: it asks first; then it off-ramps exactly if it has seen a
balance that reaches the threshold, and at most the maximum.
-/
structure Follows
    (config : Config host)
    (answers : CycleAnswers)
    (report : CycleReport host) : Prop where
  asks : ∀ request ∈ report.asked, request.OnlyAsks
  gated :
    (report.traded = [] ∧
      report.counted = none ∧
      ∀ balance, (observe host config answers).result = .ok balance →
        host.ge balance config.offrampThresholdUsd = false) ∨
    ∃ balance,
      (observe host config answers).result = .ok balance ∧
        host.ge balance config.offrampThresholdUsd = true ∧
        host.lt config.maxOfframpUsd
          (host.min balance config.maxOfframpUsd) = false ∧
        OffRamps config answers (host.min balance config.maxOfframpUsd)
          report.traded report.counted ∧
        (config.dryRun = false →
          ∃ solBalance,
            (checkWallet host config answers).result =
              .ok (solBalance, balance))

/-- The smaller of two floats does not exceed the second. -/
theorem Host.min_bounded (first second : host.Amount) :
    host.lt second (host.min first second) = false := by
  unfold Host.min
  cases below : host.lt second first with
  | true => exact host.ltIrrefl second
  | false => exact below

/-- What the off-ramp does at a balance. -/
theorem offRamp_cases (total balance : host.Amount) :
    ∃ requests counted,
      (offRamp host config answers total balance).posted = requests ∧
        (∀ new,
          (offRamp host config answers total balance).result = .ok new →
            new = CycleReport.credit total ⟨[], requests, counted⟩) ∧
        ((∃ raised,
          (offRamp host config answers total balance).result =
            .error raised) → counted = none) ∧
        (requests = [] ∧ counted = none ∧
            host.ge balance config.offrampThresholdUsd = false ∨
          host.ge balance config.offrampThresholdUsd = true ∧
            OffRamps config answers (host.min balance config.maxOfframpUsd)
              requests counted) := by
  unfold offRamp
  cases reached : host.ge balance config.offrampThresholdUsd with
  | false =>
      refine ⟨[], none, rfl, ?_, fun _ => rfl, .inl ⟨rfl, rfl, rfl⟩⟩
      rintro new ⟨⟩
      rfl
  | true =>
      rw [if_pos rfl]
      cases dry : config.dryRun with
      | true =>
          refine ⟨[], some _, rfl, ?_, ?_, .inr ⟨rfl, .simulated dry⟩⟩
          · rintro new ⟨⟩
            rfl
          · rintro ⟨raised, ⟨⟩⟩
      | false =>
          rw [if_neg Bool.false_ne_true]
          cases isClient : exchangeClient config with
          | none =>
              refine ⟨[], none, rfl, ?_, fun _ => rfl,
                .inr ⟨rfl, .unconfigured dry isClient⟩⟩
              rintro new ⟨⟩
              rfl
          | some client =>
              have trades :=
                @sellAndWithdraw_trades host config answers client
                  (host.min balance config.maxOfframpUsd)
              refine ⟨_, _, ?_, ?_, ?_, .inr ⟨rfl, .traded dry isClient trades⟩⟩
              · dsimp only
                cases outcome :
                    (sellAndWithdraw host config answers client
                      (host.min balance config.maxOfframpUsd)).result with
                | error raised =>
                    rw [Attempt.bind_of_error outcome]
                | ok withdrawn =>
                    rw [Attempt.bind_of_ok outcome]
                    cases withdrawn <;> simp
              · intro new returned
                obtain ⟨withdrawn, outcome, returned⟩ :=
                  Attempt.result_bind_eq_ok.mp returned
                rw [outcome]
                cases withdrawn <;> cases returned <;> rfl
              · rintro ⟨raised, failed⟩
                dsimp only at failed
                cases outcome :
                    (sellAndWithdraw host config answers client
                      (host.min balance config.maxOfframpUsd)).result with
                | error raised => rfl
                | ok withdrawn =>
                    rw [Attempt.bind_of_ok outcome] at failed
                    cases withdrawn <;> cases failed

/-- A cycle has a report, from which its requests and its total follow. -/
theorem cycle_follows
    (config : Config host)
    (answers : CycleAnswers)
    (total : host.Amount) :
    ∃ report,
      Follows config answers report ∧
        (cycle host config answers total).posted = report.requests ∧
        (∀ new, (cycle host config answers total).result = .ok new →
          new = report.credit total) ∧
        ((∃ raised, (cycle host config answers total).result =
          .error raised) → report.counted = none) := by
  unfold cycle
  cases observed : (observe host config answers).result with
  | error raised =>
      rw [Attempt.bind_of_error observed]
      refine ⟨⟨(observe host config answers).posted, [], none⟩,
        ⟨observe_asks, .inl ⟨rfl, rfl, ?_⟩⟩, (List.append_nil _).symm, ?_,
        fun _ => rfl⟩
      · intro balance returned
        rw [observed] at returned
        cases returned
      · rintro new ⟨⟩
  | ok balance =>
      rw [Attempt.bind_of_ok observed]
      obtain ⟨requests, counted, posted, returned, failed, gated⟩ :=
        @offRamp_cases host config answers total balance
      refine ⟨⟨(observe host config answers).posted, requests, counted⟩,
        ⟨observe_asks, ?_⟩, congrArg _ posted, returned, failed⟩
      rcases gated with ⟨noTrade, uncounted, below⟩ | ⟨reached, offRamps⟩
      · refine .inl ⟨noTrade, uncounted, fun other returned => ?_⟩
        rw [observed] at returned
        cases returned
        exact below
      · exact .inr ⟨balance, observed, reached, host.min_bounded _ _, offRamps,
          fun live => observe_live live observed⟩

/-- A turn of a loop that goes on adds its report. -/
theorem turn_follows
    {state : State host}
    (config : Config host)
    (answers : CycleAnswers)
    (goesOn : state.stopped = false) :
    ∃ report,
      Follows config answers report ∧
        (turn config state answers).requests =
          state.requests ++ report.requests ∧
        (turn config state answers).totalWithdrawnUsd =
          report.credit state.totalWithdrawnUsd ∧
        (turn config state answers).cycleCount = state.cycleCount + 1 := by
  obtain ⟨report, follows, posted, returned, failed⟩ :=
    cycle_follows config answers state.totalWithdrawnUsd
  have uncredited :
      ∀ raised,
        (cycle host config answers state.totalWithdrawnUsd).result =
          .error raised →
        state.totalWithdrawnUsd = report.credit state.totalWithdrawnUsd := by
    intro raised outcome
    rw [CycleReport.credit, failed ⟨raised, outcome⟩]
  refine ⟨report, follows, ?_⟩
  unfold turn
  rw [goesOn, if_neg Bool.false_ne_true]
  dsimp only
  rw [posted]
  cases outcome :
      (cycle host config answers state.totalWithdrawnUsd).result with
  | ok total => exact ⟨rfl, returned total outcome, rfl⟩
  | error raised =>
      cases raised with
      | exception => exact ⟨rfl, uncredited _ outcome, rfl⟩
      | interrupt => exact ⟨rfl, uncredited _ outcome, rfl⟩

/-- The reports of the cycles that were started explain a state. -/
structure Explains
    (config : Config host)
    (cycles : List CycleAnswers)
    (state : State host)
    (reports : List (CycleReport host)) : Prop where
  follow :
    List.Forall₂ (Follows config) (cycles.take state.cycleCount) reports
  requests : state.requests = reports.flatMap CycleReport.requests
  total :
    state.totalWithdrawnUsd = reports.foldl CycleReport.credit host.zero
  started : state.cycleCount ≤ cycles.length
  goesOn : state.stopped = false → state.cycleCount = cycles.length

theorem Explains.turn
    {cycles : List CycleAnswers}
    {state : State host}
    {reports : List (CycleReport host)}
    (explains : Explains config cycles state reports)
    (answers : CycleAnswers) :
    ∃ later,
      Explains config (cycles ++ [answers]) (turn config state answers)
        later := by
  cases stopped : state.stopped with
  | true =>
      have same : Offramp.turn config state answers = state := by
        rw [Offramp.turn, stopped, if_pos rfl]
      rw [same]
      refine ⟨reports, ⟨?_, explains.requests, explains.total, ?_, ?_⟩⟩
      · rw [List.take_append_of_le_length explains.started]
        exact explains.follow
      · rw [List.length_append]
        exact explains.started.trans (Nat.le_add_right _ _)
      · intro goesOn
        rw [stopped] at goesOn
        cases goesOn
  | false =>
      have all := explains.goesOn stopped
      have followed := explains.follow
      rw [all, List.take_length] at followed
      obtain ⟨report, follows, requests, total, count⟩ :=
        turn_follows config answers stopped
      have length :
          (cycles ++ [answers]).length =
            (Offramp.turn config state answers).cycleCount := by
        rw [count, all, List.length_append, List.length_singleton]
      refine ⟨reports ++ [report], ⟨?_, ?_, ?_, length.ge, fun _ => length.symm⟩⟩
      · rw [← length, List.take_length]
        exact List.rel_append followed (.cons follows .nil)
      · rw [requests, explains.requests, List.flatMap_append,
          List.flatMap_singleton]
      · rw [total, explains.total, List.foldl_append]
        rfl

theorem runOfframpLoop_explained
    (config : Config host)
    (cycles : List CycleAnswers) :
    ∃ reports, Explains config cycles (runOfframpLoop config cycles) reports := by
  induction cycles using List.reverseRecOn with
  | nil =>
      exact ⟨[], ⟨.nil, rfl, rfl, Nat.le_refl _, fun _ => rfl⟩⟩
  | append_singleton cycles answers inductionHypothesis =>
      obtain ⟨reports, explains⟩ := inductionHypothesis
      rw [runOfframpLoop, List.foldl_append]
      exact explains.turn answers

/-- Each report belongs to some cycle. -/
theorem Follows.of_mem
    {cycles : List CycleAnswers}
    {reports : List (CycleReport host)}
    {report : CycleReport host}
    (follow : List.Forall₂ (Follows config) cycles reports)
    (member : report ∈ reports) :
    ∃ answers, Follows config answers report := by
  induction follow with
  | nil =>
      exact absurd member List.not_mem_nil
  | cons head _ inductionHypothesis =>
      rcases List.mem_cons.mp member with rfl | later
      · exact ⟨_, head⟩
      · exact inductionHypothesis later

/-- Without a client nothing is traded. -/
theorem OffRamps.untraded
    {requests : List Request}
    {counted : Option host.Amount}
    (offRamps : OffRamps config answers amount requests counted)
    (noClient : exchangeClient config = none) :
    requests = [] := by
  cases offRamps with
  | simulated dry => rfl
  | unconfigured live noClient => rfl
  | traded live isClient trades =>
      rw [noClient] at isClient
      cases isClient

theorem Follows.requests_ask
    {report : CycleReport host}
    (follows : Follows config answers report)
    (noClient : exchangeClient config = none) :
    ∀ request ∈ report.requests, request.OnlyAsks := by
  have noTrade : report.traded = [] := by
    rcases follows.gated with nothing | ⟨balance, -, -, -, offRamps, -⟩
    · exact nothing.1
    · exact offRamps.untraded noClient
  intro request member
  rw [CycleReport.requests, noTrade, List.append_nil] at member
  exact follows.asks request member

/--
Whatever is answered, raised or interrupted: a run posts and counts what its
cycles do one by one, each of which sells and withdraws one amount at most, only
when the balance that it has just seen reaches the threshold, and never above
the maximum.  In a dry run or without a client the run only asks.
-/
theorem trades_are_threshold_gated
    (config : Config host)
    (cycles : List CycleAnswers) :
    ∃ reports,
      List.Forall₂ (Follows config)
          (cycles.take (runOfframpLoop config cycles).cycleCount) reports ∧
        (runOfframpLoop config cycles).requests =
          reports.flatMap CycleReport.requests ∧
        (runOfframpLoop config cycles).totalWithdrawnUsd =
          reports.foldl CycleReport.credit host.zero ∧
        (exchangeClient config = none →
          ∀ request ∈ (runOfframpLoop config cycles).requests,
            request.OnlyAsks) := by
  obtain ⟨reports, explains⟩ := runOfframpLoop_explained config cycles
  refine ⟨reports, explains.follow, explains.requests, explains.total, ?_⟩
  intro noClient request member
  rw [explains.requests] at member
  obtain ⟨report, isReport, member⟩ := List.mem_flatMap.mp member
  obtain ⟨answers, follows⟩ := Follows.of_mem explains.follow isReport
  exact follows.requests_ask noClient request member

/-! Selling again. -/

/-- A cycle that sees enough to sell, and whose withdrawal fails. -/
structure FailsToWithdraw
    (config : Config host)
    (client : ExchangeClient)
    (answers : CycleAnswers) : Prop where
  reached :
    ∃ balance,
      (observe host config answers).result = .ok balance ∧
        host.ge balance config.offrampThresholdUsd = true
  signed :
    ∀ amount, ∃ order,
      sellRequest host client answers.sellClock amount config.fiatCurrency =
        .ok order
  fails : ∃ raised, answers.withdraw = .error raised

/-- The order over the balance that a cycle sees. -/
def Orders
    (config : Config host)
    (client : ExchangeClient)
    (answers : CycleAnswers)
    (order : Request) : Prop :=
  ∃ balance,
    (observe host config answers).result = .ok balance ∧
      sellRequest host client answers.sellClock
        (host.min balance config.maxOfframpUsd) config.fiatCurrency = .ok order

/-- A trade whose withdrawal fails has an order, and counts nothing. -/
theorem Trades.of_failed
    {requests : List Request}
    {counted : Option host.Amount}
    (trades : Trades config answers client amount requests counted)
    (failing : FailsToWithdraw config client answers) :
    counted = none ∧
      ∃ order,
        sellRequest host client answers.sellClock amount config.fiatCurrency =
          .ok order ∧ [order].Sublist requests := by
  cases trades with
  | unsigned notSigned =>
      obtain ⟨order, signed⟩ := failing.signed amount
      rw [signed] at notSigned
      cases notSigned
  | sold ordered =>
      exact ⟨rfl, _, ordered, List.Sublist.refl _⟩
  | withdrew ordered answered hasBank withdrawn isCounted =>
      refine ⟨?_, _, ordered,
        List.singleton_sublist.mpr List.mem_cons_self⟩
      rcases isCounted with uncounted | ⟨-, resp, returned⟩
      · exact uncounted
      · obtain ⟨raised, failed⟩ := failing.fails
        rw [failed] at returned
        cases returned

/-- So does the report of such a cycle. -/
theorem Follows.of_failed
    {report : CycleReport host}
    (follows : Follows config answers report)
    (isClient : exchangeClient config = some client)
    (failing : FailsToWithdraw config client answers) :
    report.counted = none ∧
      ∃ order,
        Orders config client answers order ∧
          [order].Sublist report.requests := by
  rcases follows.gated with
    ⟨-, -, below⟩ | ⟨balance, observed, -, -, offRamps, -⟩
  · obtain ⟨balance, observed, reached⟩ := failing.reached
    rw [below balance observed] at reached
    cases reached
  have trades :
      Trades config answers client (host.min balance config.maxOfframpUsd)
        report.traded report.counted := by
    generalize report.traded = traded, report.counted = counted at offRamps ⊢
    cases offRamps with
    | simulated dry =>
        rw [exchangeClient, dry] at isClient
        cases isClient
    | unconfigured live noClient =>
        rw [noClient] at isClient
        cases isClient
    | traded live sameClient trades =>
        rw [isClient] at sameClient
        cases sameClient
        exact trades
  obtain ⟨uncounted, order, ordered, posted⟩ := trades.of_failed failing
  exact ⟨uncounted, order, ⟨balance, observed, ordered⟩,
    posted.trans (List.sublist_append_right _ _)⟩

/--
As long as the balance stays and the withdrawals fail, each cycle that is started
sells the balance again, and nothing is counted as withdrawn.
-/
theorem failed_withdrawals_are_sold_again
    {cycles : List CycleAnswers}
    (isClient : exchangeClient config = some client)
    (failing : ∀ answers ∈ cycles, FailsToWithdraw config client answers) :
    ∃ orders,
      List.Forall₂ (Orders config client)
          (cycles.take (runOfframpLoop config cycles).cycleCount) orders ∧
        orders.Sublist (runOfframpLoop config cycles).requests ∧
        (runOfframpLoop config cycles).totalWithdrawnUsd = host.zero := by
  obtain ⟨reports, explains⟩ := runOfframpLoop_explained config cycles
  rw [explains.requests, explains.total]
  have failingTaken :
      ∀ answers ∈ cycles.take (runOfframpLoop config cycles).cycleCount,
        FailsToWithdraw config client answers :=
    fun answers member => failing answers (List.mem_of_mem_take member)
  have follow := explains.follow
  generalize cycles.take (runOfframpLoop config cycles).cycleCount = started
    at failingTaken follow ⊢
  clear explains
  induction follow with
  | nil =>
      exact ⟨[], .nil, .slnil, rfl⟩
  | @cons answers report later reports follows _ inductionHypothesis =>
      rw [List.forall_mem_cons] at failingTaken
      obtain ⟨orders, ordered, posted, total⟩ :=
        inductionHypothesis failingTaken.2
      obtain ⟨uncounted, order, isOrder, first⟩ :=
        follows.of_failed isClient failingTaken.1
      refine ⟨order :: orders, .cons isOrder ordered, ?_, ?_⟩
      · rw [List.flatMap_cons]
        exact first.append posted
      · rw [List.foldl_cons, CycleReport.credit, uncounted]
        exact total

/-- Amounts in whole units, and texts that stand for signatures. -/
def wholeUnits : Host where
  Amount := Int
  zero := 0
  gasReserve := 0
  lamportsPerSol := 1000000000
  simulatedPrice := 150
  add := Int.add
  sub := Int.sub
  mul := Int.mul
  lt first second := decide (first < second)
  ge first second := decide (second ≤ first)
  ltIrrefl amount := decide_eq_false (Int.lt_irrefl amount)
  toInt amount := some amount
  twoDecimals amount := toString amount ++ ".00"
  floatOf
    | .integer value => some value
    | _ => none
  perBillion
    | .integer value => some (value / 1000000000)
    | _ => none
  intOf
    | .integer value => some value
    | _ => none
  perMillion value := some (value / 1000000)
  isZeroText text := text = "0.0"
  jsonDumps _ := "{}"
  hmacSha256 _ message := message
  krakenSignature _ path _ _ := some path

def liveConfig : Config wholeUnits where
  chain := "solana"
  rpcUrl := "http://rpc"
  walletAddress := "wallet"
  stablecoinMint := "mint"
  consolidationThresholdSol := (5 : Int)
  offrampThresholdUsd := (100 : Int)
  maxOfframpUsd := (200 : Int)
  exchange := "coinbase"
  exchangeApiKey := "key"
  exchangeApiSecret := "secret"
  bankAccountId := "bank"
  fiatCurrency := "USD"
  dryRun := false
  slippageBps := 50

/-- The wallet holds 250 USDC, and the bank refuses each withdrawal. -/
def refusedWithdrawal : CycleAnswers where
  files _ := .absent
  solBalance :=
    .ok (.object [("result", .object [("value", .integer 1000000000)])])
  tokenAccounts :=
    .ok (.object [("result", .object [("value", .array [
      .object [("account", .object [("data", .object [("parsed", .object [
        ("info", .object [("tokenAmount", .object [
          ("uiAmount", .integer 250)])])])])])]])])])
  quote := .error .exception
  sellClock := ⟨1, 1000⟩
  sell := .ok (.object [("order_id", .string "order")])
  settled := .ok ()
  withdrawClock := ⟨11, 11000⟩
  withdraw := .error .exception
  slept := .ok ()

/-- Two refused withdrawals: 200 USDC are sold in each of the two cycles. -/
theorem refused_withdrawals_sell_twice :
    ∃ orders,
      List.Forall₂ (Orders liveConfig (.coinbase "key" "secret"))
          [refusedWithdrawal, refusedWithdrawal] orders ∧
        orders.Sublist
          (runOfframpLoop liveConfig
            [refusedWithdrawal, refusedWithdrawal]).requests ∧
        (runOfframpLoop liveConfig
            [refusedWithdrawal, refusedWithdrawal]).totalWithdrawnUsd =
          wholeUnits.zero := by
  have failing :
      FailsToWithdraw liveConfig (.coinbase "key" "secret")
        refusedWithdrawal :=
    ⟨⟨(250 : Int), by rfl, by rfl⟩, fun amount => ⟨_, rfl⟩,
      ⟨.exception, rfl⟩⟩
  have isClient :
      exchangeClient liveConfig = some (.coinbase "key" "secret") := by
    rfl
  have allFailing :
      ∀ answers ∈ [refusedWithdrawal, refusedWithdrawal],
        FailsToWithdraw liveConfig (.coinbase "key" "secret") answers := by
    simpa using failing
  have bothStarted :
      (runOfframpLoop liveConfig
        [refusedWithdrawal, refusedWithdrawal]).cycleCount = 2 := by
    rfl
  have sold := failed_withdrawals_are_sold_again isClient allFailing
  rwa [bothStarted] at sold

end Offramp

end YieldDaemon
