import YieldDaemon.Base64
import YieldDaemon.FormText
import YieldDaemon.LiveBundles
import YieldDaemon.Treasury

namespace YieldDaemon

open Attempts FormText

/-!
# Signed requests

The off-ramp hands signed HTTP requests to its exchange.  The exchange recomputes
the signature over what has arrived and reads the call from the body, JSON for
Coinbase and an unescaped form for Kraken.  The calls that it reads are those of
the off-ramp, whose other side is modelled without the wire.
-/

/-- The bytes of a text. -/
def utf8 (text : String) : List UInt8 :=
  text.toUTF8.data.toList

/-- A request to an exchange, as it is handed to the HTTP client. -/
structure SignedPost where
  method : String
  url : String
  headers : List (String × String)
  body : Option String

/-- The value of a header. -/
def SignedPost.header (request : SignedPost) (name : String) : Option String :=
  (request.headers.find? (fun header => header.1 = name)).map Prod.snd

/-- Hashes and texts of other crates. -/
structure ExchangeHost where
  hmacSha256 : List UInt8 → List UInt8 → List UInt8
  hmacSha512 : List UInt8 → List UInt8 → List UInt8
  sha256 : List UInt8 → List UInt8
  hexEncode : List UInt8 → String
  toJson : JsonTree → String
  /-- `format!("{:.2}", amount)` -/
  twoDecimals : ℚ → String

/-- The clocks at a request, and what comes of it. -/
structure RequestMoment where
  timestamp : Nat
  timestampMillis : Nat
  answer : Except String HttpResponse

/-- What one off-ramp meets outside. -/
structure OfframpMoments where
  now : Nat
  orderMillis : Nat
  sell : RequestMoment
  withdraw : RequestMoment

/-- A signed request and the JSON of its response. -/
abbrev Signed := Attempt SignedPost String

/-- The JSON of a response with a status of success. -/
def readResponse (exchange : String) (resp : HttpResponse) :
    Except String JsonTree :=
  if resp.status < 200 ∨ 300 ≤ resp.status then
    .error
      (exchange ++ " API error " ++ resp.statusLine ++ ": " ++ resp.text)
  else
    resp.json

def coinbaseUrl : String := "https://api.coinbase.com"

def krakenUrl : String := "https://api.kraken.com"

namespace OfframpClient

variable (host : ExchangeHost) (client : OfframpClient)

/-- A request for Coinbase; a GET request is signed over an empty body. -/
def coinbasePost
    (method path : String)
    (body : JsonTree)
    (baseUrl : String)
    (moment : RequestMoment) : SignedPost :=
  let timestamp := toString moment.timestamp
  let bodyStr :=
    match body with
    | .null => ""
    | _ => if method = "GET" then "" else host.toJson body
  let prehash := timestamp ++ method ++ path ++ bodyStr
  let signature :=
    host.hexEncode (host.hmacSha256 (utf8 client.apiSecret) (utf8 prehash))
  let headers := [
    ("CB-ACCESS-KEY", client.apiKey),
    ("CB-ACCESS-SIGN", signature),
    ("CB-ACCESS-TIMESTAMP", timestamp)]
  if bodyStr = "" then
    ⟨method, baseUrl ++ path, headers, none⟩
  else
    ⟨method, baseUrl ++ path,
      headers ++ [("Content-Type", "application/json")], some bodyStr⟩

/-- Send a Coinbase-signed API request (HMAC-SHA256). -/
def coinbaseSignedRequest
    (method path : String)
    (body : JsonTree)
    (baseUrl : String)
    (moment : RequestMoment) : Signed JsonTree := do
  let resp ←
    Attempt.post (client.coinbasePost host method path body baseUrl moment)
      moment.answer
  Attempt.ofExcept (readResponse "Coinbase" resp)

/-- A request for Kraken; the values of the form are not escaped. -/
def krakenPost
    (decodedSecret : List UInt8)
    (path : String)
    (params : List (String × String))
    (baseUrl : String)
    (moment : RequestMoment) : SignedPost :=
  let nonce := toString (moment.timestampMillis % 2 ^ 64)
  let formData := ("nonce", nonce) :: params
  let body :=
    String.ofList
      (FormText.render
        (formData.map fun field => (field.1.toList, field.2.toList)))
  let sha256Hash := host.sha256 (utf8 (nonce ++ body))
  let preimage := utf8 path ++ sha256Hash
  let signature := base64Encode (host.hmacSha512 decodedSecret preimage)
  ⟨"POST", baseUrl ++ path,
    [("API-Key", client.apiKey),
      ("API-Sign", signature),
      ("Content-Type", "application/x-www-form-urlencoded")],
    some body⟩

/-- Send a Kraken-signed API request (HMAC-SHA512). -/
def krakenSignedRequest
    (path : String)
    (params : List (String × String))
    (baseUrl : String)
    (moment : RequestMoment) : Signed JsonTree := do
  let decodedSecret ←
    Attempt.ofExcept
      ((base64Decode (utf8 client.apiSecret)).mapError
        (fun _ => "invalid utf-8 sequence"))
  let resp ←
    Attempt.post (client.krakenPost host decodedSecret path params baseUrl moment)
      moment.answer
  Attempt.ofExcept (readResponse "Kraken" resp)

/-- Get current exchange account balances. -/
def getBalances (moment : RequestMoment) : Signed JsonTree :=
  match client.exchange with
  | .coinbase =>
      client.coinbaseSignedRequest host "GET" "/api/v3/brokerage/accounts"
        .null coinbaseUrl moment
  | .kraken =>
      client.krakenSignedRequest host "/0/private/Balance" [] krakenUrl moment

/-- The sell order of Coinbase, its keys in the order of their texts. -/
def coinbaseOrder (orderMillis : Nat) (amountUsd : ℚ) : JsonTree :=
  .object [
    ("client_order_id", .string ("yd_" ++ toString orderMillis)),
    ("order_configuration",
      .object [
        ("market_market_ioc",
          .object [("quote_size", .string (host.twoDecimals amountUsd))])]),
    ("product_id", .string ("USDC-" ++ client.fiatCurrency)),
    ("side", .string "SELL")]

/-- The withdrawal of Coinbase. -/
def coinbaseWithdrawal (amountUsd : ℚ) : JsonTree :=
  .object [
    ("amount", .string (host.twoDecimals amountUsd)),
    ("currency", .string client.fiatCurrency),
    ("payment_method", .string (client.bankAccountId.getD ""))]

def coinbaseOrderId (sellResp : JsonTree) : Option String :=
  (sellResp.get "order_id").bind JsonTree.asStr

def coinbaseTxId (withdrawResp : JsonTree) : Option String :=
  ((withdrawResp.get "data").bind (·.get "id")).bind JsonTree.asStr

/-- Coinbase Advanced Trade API off-ramp. -/
def sendCoinbaseOfframp (moments : OfframpMoments) (amountUsd : ℚ) :
    Signed String := do
  let sellResp ←
    client.coinbaseSignedRequest host "POST" "/api/v3/brokerage/orders"
      (client.coinbaseOrder host moments.orderMillis amountUsd) coinbaseUrl
      moments.sell
  let orderId := (coinbaseOrderId sellResp).getD "unknown"
  let withdrawResp ←
    client.coinbaseSignedRequest host "POST"
      "/v2/withdrawals/payment-method"
      (client.coinbaseWithdrawal host amountUsd) coinbaseUrl
      moments.withdraw
  return (coinbaseTxId withdrawResp).getD orderId

/-- The sell order of Kraken. -/
def krakenOrder (amountUsd : ℚ) : List (String × String) := [
  ("pair", "USDC" ++ client.fiatCurrency),
  ("type", "sell"),
  ("ordertype", "market"),
  ("volume", host.twoDecimals amountUsd)]

/-- The withdrawal of Kraken. -/
def krakenWithdrawal (amountUsd : ℚ) : List (String × String) := [
  ("asset", client.fiatCurrency),
  ("key", client.bankAccountId.getD ""),
  ("amount", host.twoDecimals amountUsd)]

def krakenOrderId (sellResp : JsonTree) : Option String :=
  ((((sellResp.get "result").bind (·.get "txid")).bind
    JsonTree.asArray).bind List.head?).bind JsonTree.asStr

def krakenRefid (withdrawResp : JsonTree) : Option String :=
  ((withdrawResp.get "result").bind (·.get "refid")).bind JsonTree.asStr

/-- Kraken REST API off-ramp. -/
def sendKrakenOfframp (moments : OfframpMoments) (amountUsd : ℚ) :
    Signed String := do
  let sellResp ←
    client.krakenSignedRequest host "/0/private/AddOrder"
      (client.krakenOrder host amountUsd) krakenUrl moments.sell
  let orderId := (krakenOrderId sellResp).getD "unknown"
  let withdrawResp ←
    client.krakenSignedRequest host "/0/private/Withdraw"
      (client.krakenWithdrawal host amountUsd) krakenUrl moments.withdraw
  return (krakenRefid withdrawResp).getD orderId

/-- Execute the full off-ramp pipeline. -/
def sendOfframp (moments : OfframpMoments) (amountUsd : ℚ) :
    Signed String :=
  if client.dryRun then
    return "DRY_RUN_" ++ toString moments.now
  else if client.apiKey = "" ∨ client.apiSecret = "" then
    Attempt.ofExcept (.error "Exchange API credentials not configured")
  else if client.bankAccountId = none then
    Attempt.ofExcept (.error "Bank account ID not configured")
  else
    match client.exchange with
    | .coinbase => client.sendCoinbaseOfframp host moments amountUsd
    | .kraken => client.sendKrakenOfframp host moments amountUsd

end OfframpClient

/-- A call as an exchange reads it. -/
inductive WireCall where
  | sell (path market amount : String)
  | withdraw (path currency bankAccount amount : String)

/-- A call with its amount as it is written. -/
def ApiCall.onWire (host : ExchangeHost) : ApiCall → WireCall
  | .sell path market amountUsd =>
      .sell path market (host.twoDecimals amountUsd)
  | .withdraw path currency bankAccount amountUsd =>
      .withdraw path currency bankAccount (host.twoDecimals amountUsd)

/-- An account at an exchange, and how its requests are read. -/
structure ExchangeAccount where
  apiKey : String
  privateKey : List UInt8
  parseJson : String → Option JsonTree
  decode : Text → Text

namespace ExchangeAccount

variable (account : ExchangeAccount) (host : ExchangeHost)

/-- The signature of Coinbase is recomputed over what has arrived. -/
def CoinbaseAccepts (request : SignedPost) : Prop :=
  ∃ path timestamp,
    request.url = coinbaseUrl ++ path ∧
      request.header "CB-ACCESS-KEY" = some account.apiKey ∧
      request.header "CB-ACCESS-TIMESTAMP" = some timestamp ∧
      request.header "CB-ACCESS-SIGN" =
        some (host.hexEncode (host.hmacSha256 account.privateKey
          (utf8 (timestamp ++ request.method ++ path ++
            request.body.getD ""))))

/-- The signature of Kraken covers the nonce that stands in the body. -/
def KrakenAccepts (request : SignedPost) : Prop :=
  ∃ path body nonce,
    request.url = krakenUrl ++ path ∧
      request.body = some body ∧
      lookup (parse account.decode body.toList) "nonce".toList =
        some nonce ∧
      request.header "API-Key" = some account.apiKey ∧
      request.header "API-Sign" =
        some (base64Encode (host.hmacSha512 account.privateKey
          (utf8 path ++ host.sha256 (utf8 (String.ofList nonce ++ body)))))

/-- What Coinbase reads in a request. -/
def readCoinbase (request : SignedPost) : Option WireCall := do
  let json ← account.parseJson (← request.body)
  if request.url = coinbaseUrl ++ "/api/v3/brokerage/orders" then
    let market ← (json.index "product_id").asStr
    let amount ←
      (((json.index "order_configuration").index "market_market_ioc").index
        "quote_size").asStr
    if (json.index "side").asStr = some "SELL" then
      return .sell "/api/v3/brokerage/orders" market amount
    else
      none
  else if request.url = coinbaseUrl ++ "/v2/withdrawals/payment-method" then
    let currency ← (json.index "currency").asStr
    let bankAccount ← (json.index "payment_method").asStr
    let amount ← (json.index "amount").asStr
    return .withdraw "/v2/withdrawals/payment-method" currency bankAccount
      amount
  else
    none

/-- What Kraken reads in a request. -/
def readKraken (request : SignedPost) : Option WireCall := do
  let fields := parse account.decode (← request.body).toList
  let field (name : String) : Option String :=
    (lookup fields name.toList).map String.ofList
  if request.url = krakenUrl ++ "/0/private/AddOrder" then
    let market ← field "pair"
    let amount ← field "volume"
    if field "type" = some "sell" ∧ field "ordertype" = some "market" then
      return .sell "/0/private/AddOrder" market amount
    else
      none
  else if request.url = krakenUrl ++ "/0/private/Withdraw" then
    let currency ← field "asset"
    let bankAccount ← field "key"
    let amount ← field "amount"
    return .withdraw "/0/private/Withdraw" currency bankAccount amount
  else
    none

/-- The exchange accepts the request, and reads the call in it. -/
def Takes (exchange : ExchangeType) (request : SignedPost) (call : ApiCall) :
    Prop :=
  match exchange with
  | .coinbase =>
      account.CoinbaseAccepts host request ∧
        account.readCoinbase request = some (call.onWire host)
  | .kraken =>
      account.KrakenAccepts host request ∧
        account.readKraken request = some (call.onWire host)

/-- The account is the client's, and its exchange reads what it writes. -/
structure Serves (client : OfframpClient) : Prop where
  apiKey : account.apiKey = client.apiKey
  coinbaseKey :
    client.exchange = .coinbase → account.privateKey = utf8 client.apiSecret
  /-- Kraken hands out its private keys as base64 texts. -/
  krakenKey :
    client.exchange = .kraken →
      IsTextOf account.privateKey (utf8 client.apiSecret)
  noEmptyJson : account.parseJson "" = none
  readsOrder :
    client.exchange = .coinbase →
      ∀ orderMillis amountUsd,
        account.parseJson
            (host.toJson (client.coinbaseOrder host orderMillis amountUsd)) =
          some (client.coinbaseOrder host orderMillis amountUsd)
  readsWithdrawal :
    client.exchange = .coinbase →
      ∀ amountUsd,
        account.parseJson
            (host.toJson (client.coinbaseWithdrawal host amountUsd)) =
          some (client.coinbaseWithdrawal host amountUsd)
  decodes : DecodesPlain account.decode

variable
  {account : ExchangeAccount}
  {host : ExchangeHost}
  {client : OfframpClient}
  {method path : String}
  {body : JsonTree}
  {moment : RequestMoment}

/-- Coinbase accepts every request of its client. -/
theorem Serves.accepts_coinbasePost
    (serves : account.Serves host client)
    (isCoinbase : client.exchange = .coinbase) :
    account.CoinbaseAccepts host
      (client.coinbasePost host method path body coinbaseUrl moment) := by
  unfold OfframpClient.coinbasePost
  extract_lets timestamp bodyStr prehash signature headers
  have signed :
      signature =
        host.hexEncode (host.hmacSha256 account.privateKey
          (utf8 (timestamp ++ method ++ path ++ bodyStr))) := by
    rw [serves.coinbaseKey isCoinbase]
  split
  next noBody =>
    refine ⟨path, timestamp, rfl, ?_, rfl, ?_⟩
    · rw [serves.apiKey]
      rfl
    · rw [Option.getD_none, ← noBody, ← signed]
      rfl
  next =>
    refine ⟨path, timestamp, rfl, ?_, rfl, ?_⟩
    · rw [serves.apiKey]
      rfl
    · rw [Option.getD_some, ← signed]
      rfl

/-- A body that is read as JSON arrives. -/
theorem Serves.body_coinbasePost
    (serves : account.Serves host client)
    (isValue : body ≠ .null)
    (reads : account.parseJson (host.toJson body) = some body) :
    (client.coinbasePost host "POST" path body coinbaseUrl moment).body =
      some (host.toJson body) := by
  have nonempty : host.toJson body ≠ "" := by
    intro empty
    rw [empty, serves.noEmptyJson] at reads
    cases reads
  unfold OfframpClient.coinbasePost
  extract_lets timestamp bodyStr prehash signature headers
  have isText : bodyStr = host.toJson body := by
    cases body with
    | null => exact absurd rfl isValue
    | boolean value => rfl
    | integer value => rfl
    | float text => rfl
    | string value => rfl
    | array items => rfl
    | object entries => rfl
  rw [isText, if_neg nonempty]

theorem url_coinbasePost (baseUrl : String) :
    (client.coinbasePost host method path body baseUrl moment).url =
      baseUrl ++ path := by
  unfold OfframpClient.coinbasePost
  extract_lets timestamp bodyStr prehash signature headers
  split
  · rfl
  · rfl

/-- Coinbase takes the sell order. -/
theorem Serves.takes_coinbaseOrder
    (serves : account.Serves host client)
    (isCoinbase : client.exchange = .coinbase)
    (orderMillis : Nat)
    (amountUsd : ℚ) :
    account.Takes host .coinbase
      (client.coinbasePost host "POST" "/api/v3/brokerage/orders"
        (client.coinbaseOrder host orderMillis amountUsd) coinbaseUrl moment)
      (.sell "/api/v3/brokerage/orders" ("USDC-" ++ client.fiatCurrency)
        amountUsd) := by
  refine ⟨serves.accepts_coinbasePost isCoinbase, ?_⟩
  have reads := serves.readsOrder isCoinbase orderMillis amountUsd
  have isValue : client.coinbaseOrder host orderMillis amountUsd ≠ .null :=
    nofun
  rw [readCoinbase, serves.body_coinbasePost isValue reads,
    Option.bind_eq_bind, Option.bind_some, reads, Option.bind_eq_bind,
    Option.bind_some, url_coinbasePost, if_pos rfl]
  rfl

/-- Coinbase takes the withdrawal. -/
theorem Serves.takes_coinbaseWithdrawal
    (serves : account.Serves host client)
    (isCoinbase : client.exchange = .coinbase)
    (amountUsd : ℚ) :
    account.Takes host .coinbase
      (client.coinbasePost host "POST" "/v2/withdrawals/payment-method"
        (client.coinbaseWithdrawal host amountUsd) coinbaseUrl moment)
      (.withdraw "/v2/withdrawals/payment-method" client.fiatCurrency
        (client.bankAccountId.getD "") amountUsd) := by
  refine ⟨serves.accepts_coinbasePost isCoinbase, ?_⟩
  have reads := serves.readsWithdrawal isCoinbase amountUsd
  have isValue : client.coinbaseWithdrawal host amountUsd ≠ .null :=
    nofun
  have notOrder :
      coinbaseUrl ++ "/v2/withdrawals/payment-method" ≠
        coinbaseUrl ++ "/api/v3/brokerage/orders" := by
    decide
  rw [readCoinbase, serves.body_coinbasePost isValue reads,
    Option.bind_eq_bind, Option.bind_some, reads, Option.bind_eq_bind,
    Option.bind_some, url_coinbasePost, if_neg notOrder, if_pos rfl]
  rfl

/-! Kraken. -/

/-- The digits of a number are no signs of a form. -/
theorem plain_toString (number : Nat) : Plain (toString number).toList := by
  have isDigit {sign : Char} (member : sign ∈ (toString number).toList) :
      sign.isDigit = true := by
    have digits : (toString number).toList = Nat.toDigits 10 number :=
      Nat.toList_repr
    rw [digits] at member
    exact Nat.isDigit_of_mem_toDigits (by decide) (by decide) member
  exact
    ⟨⟨fun member => absurd (isDigit member) (by decide),
        fun member => absurd (isDigit member) (by decide)⟩,
      fun member => absurd (isDigit member) (by decide),
      fun member => absurd (isDigit member) (by decide)⟩

theorem plain_nonce : Plain "nonce".toList := by
  decide

/-- Kraken accepts every request of its client. -/
theorem Serves.accepts_krakenPost
    {params : List (String × String)}
    (serves : account.Serves host client) :
    account.KrakenAccepts host
      (client.krakenPost host account.privateKey path params krakenUrl
        moment) := by
  let nonce := toString (moment.timestampMillis % 2 ^ 64)
  refine ⟨path, _, nonce.toList, rfl, rfl, ?_, ?_, ?_⟩
  · rw [String.toList_ofList, List.map_cons]
    exact @lookup_parse_render account.decode ("nonce".toList, nonce.toList) _
      serves.decodes plain_nonce (plain_toString _)
  · rw [serves.apiKey]
    rfl
  · rw [String.ofList_toList]
    rfl

/-- The client decodes the key that its exchange has handed out. -/
theorem Serves.decodes_secret
    (serves : account.Serves host client)
    (isKraken : client.exchange = .kraken) :
    base64Decode (utf8 client.apiSecret) = .ok account.privateKey := by
  have isText := serves.krakenKey isKraken
  have chars :
      (base64Chars account.privateKey).filter (· ≠ padSign) =
        base64Chars account.privateKey := by
    refine List.filter_eq_self.mpr fun char member => ?_
    obtain ⟨digit, -, rfl⟩ := List.mem_map.mp member
    exact decide_eq_true (base64Byte_plain digit).1
  have filtered :
      (utf8 client.apiSecret).filter (· ≠ padSign) =
        base64Chars account.privateKey := by
    rcases isText with bare | full
    · rw [bare, chars]
    · rw [full]
      exact filter_text
        (fun digit => decide_eq_true (base64Byte_plain digit).1) (by decide)
        account.privateKey
  have decoded := base64Decode_toUTF8 client.apiSecret
  rw [utf8] at filtered ⊢
  rw [decoded, filtered, decodeChunks_base64Chars]

/-- The text does not end its field, and nothing in it is decoded. -/
def Unescaped (text : String) : Prop :=
  Uncoded text.toList ∧ '&' ∉ text.toList

/-- A field of a form, as its characters. -/
def charField (field : String × String) : Field :=
  (field.1.toList, field.2.toList)

theorem lookup_charField (fields : List (String × String)) (name : String) :
    (lookup (fields.map charField) name.toList).map String.ofList =
      (fields.find? (fun field => field.1 = name)).map Prod.snd := by
  induction fields with
  | nil =>
      rfl
  | cons field fields inductionHypothesis =>
      unfold lookup at inductionHypothesis ⊢
      rw [List.map_cons, List.find?_cons, List.find?_cons]
      by_cases same : field.1 = name
      · simp [charField, same, String.ofList_toList]
      · have different : field.1.toList ≠ name.toList :=
          fun equal => same (String.toList_inj.mp equal)
        simpa [charField, same, different] using inductionHypothesis

/-- Kraken reads the parameters of a request as they were meant. -/
theorem Serves.parse_krakenPost
    {params : List (String × String)}
    (serves : account.Serves host client)
    (names : ∀ param ∈ params, Plain param.1.toList)
    (values : ∀ param ∈ params, Unescaped param.2)
    (decodedSecret : List UInt8) :
    ∃ body,
      (client.krakenPost host decodedSecret path params krakenUrl
          moment).body = some body ∧
        parse account.decode body.toList =
          (("nonce", toString (moment.timestampMillis % 2 ^ 64)) ::
            params).map charField := by
  refine ⟨_, rfl, ?_⟩
  rw [String.toList_ofList]
  have digits := plain_toString (moment.timestampMillis % 2 ^ 64)
  refine (parse_render_iff serves.decodes ?_ ?_ (by simp)).mpr ?_
  · rw [List.forall_mem_map, List.forall_mem_cons]
    constructor
    · dsimp only
      exact plain_nonce
    · exact names
  · rw [List.forall_mem_map, List.forall_mem_cons]
    exact ⟨digits.uncoded, fun param member => (values param member).1⟩
  · rw [List.forall_mem_map, List.forall_mem_cons]
    exact ⟨digits.noSeparator, fun param member => (values param member).2⟩

/-- The client's own texts arrive in a form as they are. -/
structure Unescapes
    (host : ExchangeHost)
    (client : OfframpClient)
    (amountUsd : ℚ) : Prop where
  fiatCurrency : Unescaped client.fiatCurrency
  bankAccount : Unescaped (client.bankAccountId.getD "")
  amount : Unescaped (host.twoDecimals amountUsd)

theorem unescaped_append
    {first second : String}
    (firstPlain : Unescaped first)
    (secondPlain : Unescaped second) :
    Unescaped (first ++ second) := by
  obtain ⟨⟨noPercent, noPlus⟩, noSeparator⟩ := firstPlain
  obtain ⟨⟨noPercent', noPlus'⟩, noSeparator'⟩ := secondPlain
  simp [Unescaped, Uncoded, *]

/-- What Kraken looks up in a request. -/
theorem Serves.lookup_krakenPost
    {params : List (String × String)}
    (serves : account.Serves host client)
    (path : String)
    (names : ∀ param ∈ params, Plain param.1.toList)
    (values : ∀ param ∈ params, Unescaped param.2)
    (moment : RequestMoment) :
    ∃ body,
      (client.krakenPost host account.privateKey path params krakenUrl
          moment).body = some body ∧
        ∀ name,
          (lookup (parse account.decode body.toList) name.toList).map
              String.ofList =
            ((("nonce", toString (moment.timestampMillis % 2 ^ 64)) ::
              params).find? (fun field => field.1 = name)).map Prod.snd := by
  obtain ⟨body, isBody, parsed⟩ :=
    serves.parse_krakenPost names values account.privateKey
  refine ⟨body, isBody, fun name => ?_⟩
  rw [parsed]
  exact lookup_charField _ name

/-- Kraken takes the sell order. -/
theorem Serves.takes_krakenOrder
    {amountUsd : ℚ}
    (serves : account.Serves host client)
    (unescapes : Unescapes host client amountUsd) :
    account.Takes host .kraken
      (client.krakenPost host account.privateKey "/0/private/AddOrder"
        (client.krakenOrder host amountUsd) krakenUrl moment)
      (.sell "/0/private/AddOrder" ("USDC" ++ client.fiatCurrency)
        amountUsd) := by
  refine ⟨serves.accepts_krakenPost, ?_⟩
  have names :
      ∀ param ∈ client.krakenOrder host amountUsd, Plain param.1.toList := by
    simp only [OfframpClient.krakenOrder, List.forall_mem_cons]
    exact ⟨by decide, by decide, by decide, by decide, nofun⟩
  have coin : Unescaped "USDC" := by
    unfold Unescaped
    decide
  have sell : Unescaped "sell" := by
    unfold Unescaped
    decide
  have market : Unescaped "market" := by
    unfold Unescaped
    decide
  have values :
      ∀ param ∈ client.krakenOrder host amountUsd, Unescaped param.2 := by
    simp only [OfframpClient.krakenOrder, List.forall_mem_cons]
    exact ⟨unescaped_append coin unescapes.fiatCurrency, sell, market,
      unescapes.amount, nofun⟩
  obtain ⟨body, isBody, looked⟩ :=
    serves.lookup_krakenPost "/0/private/AddOrder" names values moment
  rw [readKraken, isBody]
  simp only [Option.bind_eq_bind, Option.bind_some, looked]
  rfl

/-- Kraken takes the withdrawal. -/
theorem Serves.takes_krakenWithdrawal
    {amountUsd : ℚ}
    (serves : account.Serves host client)
    (unescapes : Unescapes host client amountUsd) :
    account.Takes host .kraken
      (client.krakenPost host account.privateKey "/0/private/Withdraw"
        (client.krakenWithdrawal host amountUsd) krakenUrl moment)
      (.withdraw "/0/private/Withdraw" client.fiatCurrency
        (client.bankAccountId.getD "") amountUsd) := by
  refine ⟨serves.accepts_krakenPost, ?_⟩
  have names :
      ∀ param ∈ client.krakenWithdrawal host amountUsd,
        Plain param.1.toList := by
    simp only [OfframpClient.krakenWithdrawal, List.forall_mem_cons]
    exact ⟨by decide, by decide, by decide, nofun⟩
  have values :
      ∀ param ∈ client.krakenWithdrawal host amountUsd,
        Unescaped param.2 := by
    simp only [OfframpClient.krakenWithdrawal, List.forall_mem_cons]
    exact ⟨unescapes.fiatCurrency, unescapes.bankAccount, unescapes.amount,
      nofun⟩
  obtain ⟨body, isBody, looked⟩ :=
    serves.lookup_krakenPost "/0/private/Withdraw" names values moment
  rw [readKraken, isBody]
  simp only [Option.bind_eq_bind, Option.bind_some, looked]
  rfl

end ExchangeAccount

/-! The calls behind the requests. -/

/-- The JSON that comes of a request. -/
def RequestMoment.outcome (moment : RequestMoment) (exchange : String) :
    Except String JsonTree :=
  moment.answer.bind (readResponse exchange)

/-- What an exchange answers to the calls of one off-ramp. -/
def OfframpMoments.respond (moments : OfframpMoments) :
    ExchangeType → Exchange
  | .coinbase, .sell .. =>
      (moments.sell.outcome "Coinbase").map OfframpClient.coinbaseOrderId
  | .coinbase, .withdraw .. =>
      (moments.withdraw.outcome "Coinbase").map OfframpClient.coinbaseTxId
  | .kraken, .sell .. =>
      (moments.sell.outcome "Kraken").map OfframpClient.krakenOrderId
  | .kraken, .withdraw .. =>
      (moments.withdraw.outcome "Kraken").map OfframpClient.krakenRefid

namespace OfframpClient

variable
  {host : ExchangeHost}
  {client : OfframpClient}
  {account : ExchangeAccount}

/-- A request posts itself once, whatever comes of it. -/
theorem posted_then_read
    (request : SignedPost)
    (exchange : String)
    (moment : RequestMoment) :
    (do
      let resp ← Attempt.post request moment.answer
      Attempt.ofExcept (readResponse exchange resp) : Signed JsonTree) =
      { posted := [request], result := moment.outcome exchange } := by
  unfold RequestMoment.outcome
  cases answered : moment.answer with
  | ok resp => rfl
  | error reason => rfl

theorem coinbaseSignedRequest_eq
    (method path : String)
    (body : JsonTree)
    (baseUrl : String)
    (moment : RequestMoment) :
    client.coinbaseSignedRequest host method path body baseUrl moment =
      { posted := [client.coinbasePost host method path body baseUrl moment]
        result := moment.outcome "Coinbase" } :=
  posted_then_read _ _ _

theorem krakenSignedRequest_eq
    {decodedSecret : List UInt8}
    (decoded : base64Decode (utf8 client.apiSecret) = .ok decodedSecret)
    (path : String)
    (params : List (String × String))
    (baseUrl : String)
    (moment : RequestMoment) :
    client.krakenSignedRequest host path params baseUrl moment =
      { posted :=
          [client.krakenPost host decodedSecret path params baseUrl moment]
        result := moment.outcome "Kraken" } := by
  have read := posted_then_read
    (client.krakenPost host decodedSecret path params baseUrl moment)
    "Kraken" moment
  rw [krakenSignedRequest, decoded]
  exact read

/-- The requests and the result of an off-ramp are those of its calls. -/
structure Mirrors
    (takes : SignedPost → ApiCall → Prop)
    (sent : Signed String)
    (offramp : Offramp) : Prop where
  result : sent.result = offramp.result
  posted : List.Forall₂ takes sent.posted (offramp.requests.map Prod.fst)

/-- Two requests one after the other are a sell and a withdrawal. -/
theorem mirrors_sellThenWithdraw
    {takes : SignedPost → ApiCall → Prop}
    {respond : Exchange}
    {sell withdraw : ApiCall}
    {sellPost withdrawPost : SignedPost}
    {sold withdrawn : Except String JsonTree}
    (orderIdOf txIdOf : JsonTree → Option String)
    (sells : respond sell = sold.map orderIdOf)
    (withdraws : respond withdraw = withdrawn.map txIdOf)
    (takesSell : takes sellPost sell)
    (takesWithdraw : takes withdrawPost withdraw) :
    Mirrors takes
      (do
        let sellResp ←
          ({ posted := [sellPost], result := sold } : Signed JsonTree)
        let orderId := (orderIdOf sellResp).getD "unknown"
        let withdrawResp ←
          ({ posted := [withdrawPost], result := withdrawn } :
            Signed JsonTree)
        return (txIdOf withdrawResp).getD orderId)
      (sellThenWithdraw respond sell withdraw) := by
  unfold sellThenWithdraw
  rw [sells]
  cases sold with
  | error reason =>
      exact ⟨rfl, .cons takesSell .nil⟩
  | ok sellResp =>
      simp only [Except.map, withdraws]
      cases withdrawn with
      | error reason =>
          exact ⟨rfl, .cons takesSell (.cons takesWithdraw .nil)⟩
      | ok withdrawResp =>
          exact ⟨rfl, .cons takesSell (.cons takesWithdraw .nil)⟩

/--
What the off-ramp sends over the wire is accepted by its exchange and read as the
calls of `executeOfframp`, one after the other, and returns what they return; a
query for balances is accepted too.
-/
theorem requests_carry_calls
    (serves : account.Serves host client)
    {amountUsd : ℚ}
    (unescapes :
      client.exchange = .kraken →
        ExchangeAccount.Unescapes host client amountUsd)
    (moments : OfframpMoments)
    (moment : RequestMoment) :
    Mirrors (account.Takes host client.exchange)
        (client.sendOfframp host moments amountUsd)
        (client.executeOfframp (moments.respond client.exchange) moments.now
          amountUsd) ∧
      ∀ request ∈ (client.getBalances host moment).posted,
        match client.exchange with
        | .coinbase => account.CoinbaseAccepts host request
        | .kraken => account.KrakenAccepts host request := by
  constructor
  · unfold sendOfframp executeOfframp
    split
    · exact ⟨rfl, .nil⟩
    split
    · exact ⟨rfl, .nil⟩
    split
    · exact ⟨rfl, .nil⟩
    cases isExchange : client.exchange with
    | coinbase =>
        dsimp only
        rw [sendCoinbaseOfframp, coinbaseSignedRequest_eq,
          coinbaseSignedRequest_eq]
        exact mirrors_sellThenWithdraw coinbaseOrderId coinbaseTxId rfl rfl
          (serves.takes_coinbaseOrder isExchange _ _)
          (serves.takes_coinbaseWithdrawal isExchange _)
    | kraken =>
        have decoded := serves.decodes_secret isExchange
        dsimp only
        rw [sendKrakenOfframp, krakenSignedRequest_eq decoded,
          krakenSignedRequest_eq decoded]
        exact mirrors_sellThenWithdraw krakenOrderId krakenRefid rfl rfl
          (serves.takes_krakenOrder (unescapes isExchange))
          (serves.takes_krakenWithdrawal (unescapes isExchange))
  · intro request member
    unfold getBalances at member
    cases isExchange : client.exchange with
    | coinbase =>
        rw [isExchange] at member
        dsimp only at member
        rw [coinbaseSignedRequest_eq] at member
        rw [List.mem_singleton.mp member]
        exact serves.accepts_coinbasePost isExchange
    | kraken =>
        rw [isExchange] at member
        dsimp only at member
        rw [krakenSignedRequest_eq (serves.decodes_secret isExchange)]
          at member
        rw [List.mem_singleton.mp member]
        exact serves.accepts_krakenPost

/-- A live client of Kraken. -/
def krakenClient : OfframpClient where
  exchange := .kraken
  apiKey := "key"
  apiSecret := "AQID"
  bankAccountId := some "bank"
  fiatCurrency := "USD"
  dryRun := false

/-- Its account, with the private key that its secret stands for. -/
def krakenAccount : ExchangeAccount where
  apiKey := "key"
  privateKey := [1, 2, 3]
  parseJson _ := none
  decode := id

/-- Hashes that keep their input, and one amount. -/
def plainHost : ExchangeHost where
  hmacSha256 secret message := secret ++ message
  hmacSha512 secret message := secret ++ message
  sha256 message := message
  hexEncode _ := ""
  toJson _ := ""
  twoDecimals _ := "100.00"

/-- Both requests of an off-ramp are answered. -/
def answeredMoments : OfframpMoments :=
  let moment : RequestMoment :=
    ⟨1700000000, 1700000000000, .ok ⟨200, "200 OK", "\x7b\x7d", .ok (.object [])⟩⟩
  ⟨1700000000, 1700000000000, moment, moment⟩

/-- Kraken takes both requests of an off-ramp of 100 dollars. -/
theorem kraken_takes_both_requests :
    (krakenClient.sendOfframp plainHost answeredMoments 100).posted.length =
        2 ∧
      Mirrors (krakenAccount.Takes plainHost .kraken)
        (krakenClient.sendOfframp plainHost answeredMoments 100)
        (krakenClient.executeOfframp (answeredMoments.respond .kraken)
          1700000000 100) := by
  have unescaped (text : String)
      (known : text = "USD" ∨ text = "bank" ∨ text = "100.00") :
      ExchangeAccount.Unescaped text := by
    unfold ExchangeAccount.Unescaped
    rcases known with rfl | rfl | rfl <;> decide
  have serves : krakenAccount.Serves plainHost krakenClient :=
    ⟨rfl, nofun, fun _ => .inl (by decide +kernel), rfl, nofun, nofun,
      fun _ _ => rfl⟩
  exact ⟨rfl,
    (requests_carry_calls serves
      (fun _ =>
        ⟨unescaped _ (.inl rfl), unescaped _ (.inr (.inl rfl)),
          unescaped _ (.inr (.inr rfl))⟩)
      answeredMoments answeredMoments.sell).1⟩

end OfframpClient

end YieldDaemon
