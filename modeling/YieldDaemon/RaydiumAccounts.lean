import YieldDaemon.AmmParser
import YieldDaemon.Base64
import YieldDaemon.LiveBundles

namespace YieldDaemon

open Attempts CheckedArithmetic

/-!
# Raydium accounts

The state of a pool is fetched as a base64 text of its account, a record of
64-bit words at fixed offsets and further fields after them.  Decimals are cut to
one byte.
-/

/-- What is read of a pool of Raydium. -/
structure RaydiumPoolState where
  status : Nat
  coinDecimals : Nat
  pcDecimals : Nat
  coinLotSize : Nat
  pcLotSize : Nat
  deriving DecidableEq

/-- `u64::from_le_bytes(data[offset..offset + 8])` -/
def readU64 (data : List UInt8) (offset : Nat) : Nat :=
  leValue ((data.drop offset).take 8)

namespace PoolDiscovery

/-- The state in the data of an account. -/
def poolState (data : List UInt8) : Except String RaydiumPoolState :=
  if data.length < 752 then
    .error "Account data too short for Raydium pool"
  else
    .ok {
      status := readU64 data 0
      -- The casts of the source keep the lowest byte.
      coinDecimals := readU64 data 32 % 256
      pcDecimals := readU64 data 40 % 256
      coinLotSize := readU64 data 88
      pcLotSize := readU64 data 96 }

/-- The request for the account of a pool. -/
def accountRequest (rpcUrl poolAddress : String) : HttpPost where
  url := rpcUrl
  body :=
    .rpcCall "getAccountInfo"
      [.string poolAddress, .object [("encoding", .string "base64")]]

/-- The text of the account in a response. -/
def accountText (resp : JsonTree) : Option String :=
  (((((resp.index "result").index "value").index "data").asArray).bind
    List.head?).bind JsonTree.asStr

/-- Fetch Raydium V4 AMM pool state by pool address. -/
def fetchRaydiumPool
    (rpcUrl poolAddress : String)
    (answer : Except String JsonTree) : Live RaydiumPoolState := do
  let resp ← Live.post (accountRequest rpcUrl poolAddress) answer
  let dataB64 ←
    match accountText resp with
    | some text => pure text
    | none => Live.ofText (.error "No account data")
  -- The decoder refuses no text.
  let data ←
    Live.ofText ((base64DecodeSimple dataB64).mapError (fun _ => ""))
  Live.ofText (poolState data)

end PoolDiscovery

/-- The words in front of an account, and what follows them. -/
structure RaydiumAccount where
  status : UInt64
  nonce : UInt64
  maxOrder : UInt64
  depth : UInt64
  baseDecimal : UInt64
  quoteDecimal : UInt64
  state : UInt64
  resetFlag : UInt64
  minSize : UInt64
  volMaxCutRatio : UInt64
  amountWaveRatio : UInt64
  coinLotSize : UInt64
  pcLotSize : UInt64
  rest : List UInt8

namespace RaydiumAccount

def words (account : RaydiumAccount) : List UInt64 := [
  account.status, account.nonce, account.maxOrder, account.depth,
  account.baseDecimal, account.quoteDecimal, account.state,
  account.resetFlag, account.minSize, account.volMaxCutRatio,
  account.amountWaveRatio, account.coinLotSize, account.pcLotSize]

/-- The data of the account. -/
def bytes (account : RaydiumAccount) : List UInt8 :=
  (account.words.flatMap fun word => leBytes 8 word.toNat) ++ account.rest

end RaydiumAccount

/-- A word is read back at its place among others. -/
theorem readU64_flatMap
    {words : List UInt64}
    {place : Nat}
    (inside : place < words.length)
    (rest : List UInt8) :
    readU64 ((words.flatMap fun word => leBytes 8 word.toNat) ++ rest)
        (8 * place) =
      words[place].toNat := by
  induction words generalizing place with
  | nil =>
      exact absurd inside (Nat.not_lt_zero place)
  | cons word words inductionHypothesis =>
      have sized : (leBytes 8 word.toNat).length = 8 := length_leBytes 8 _
      rw [List.flatMap_cons, List.append_assoc]
      cases place with
      | zero =>
          have small : word.toNat % 256 ^ 8 = word.toNat :=
            Nat.mod_eq_of_lt word.toNat_lt
          rw [readU64, Nat.mul_zero, List.drop_zero, List.take_left' sized,
            leValue_leBytes, small]
          rfl
      | succ place =>
          have later :=
            inductionHypothesis (Nat.lt_of_succ_lt_succ inside)
          have shifted : 8 * (place + 1) = 8 + 8 * place := by
            ring
          rw [readU64, shifted, ← List.drop_drop, List.drop_left' sized]
          exact later

/-- Bytes are the words that are read of them, and what follows. -/
theorem flatMap_readU64
    {count : Nat}
    {data : List UInt8}
    (enough : 8 * count ≤ data.length) :
    ((List.range count).flatMap fun place =>
        leBytes 8 (readU64 data (8 * place))) ++ data.drop (8 * count) =
      data := by
  induction count with
  | zero =>
      rfl
  | succ count inductionHypothesis =>
      have earlier := inductionHypothesis (by omega)
      have sized : ((data.drop (8 * count)).take 8).length = 8 := by
        rw [List.length_take, List.length_drop]
        omega
      have word :=
        leBytes_leValue ((data.drop (8 * count)).take 8)
      rw [sized] at word
      have following : 8 * (count + 1) = 8 * count + 8 := by
        ring
      rw [List.range_succ, List.flatMap_append, List.flatMap_singleton,
        List.append_assoc, readU64, word, following, ← List.drop_drop,
        List.take_append_drop]
      exact earlier

/-- The account whose words are read of some data. -/
def RaydiumAccount.ofBytes (data : List UInt8) : RaydiumAccount :=
  let word (place : Nat) : UInt64 := .ofNat (readU64 data (8 * place))
  ⟨word 0, word 1, word 2, word 3, word 4, word 5, word 6, word 7, word 8,
    word 9, word 10, word 11, word 12, data.drop 104⟩

/-- All data that holds the words is that of an account. -/
theorem RaydiumAccount.bytes_ofBytes
    {data : List UInt8}
    (enough : 104 ≤ data.length) :
    (ofBytes data).bytes = data := by
  have small (place : Nat) :
      (UInt64.ofNat (readU64 data (8 * place))).toNat =
        readU64 data (8 * place) := by
    have bounded := leValue_lt ((data.drop (8 * place)).take 8)
    have sized : ((data.drop (8 * place)).take 8).length ≤ 8 :=
      List.length_take_le _ _
    have word :=
      bounded.trans_le (Nat.pow_le_pow_right (by decide) sized)
    exact Nat.mod_eq_of_lt (word.trans_eq (by norm_num))
  have whole := @flatMap_readU64 13 data enough
  conv_rhs => rw [← whole]
  simp only [bytes, words, ofBytes, List.flatMap_cons, List.flatMap_nil, small]
  rfl

/-- The decoder of the executor undoes the encoder. -/
theorem base64DecodeSimple_base64Encode (data : List UInt8) :
    base64DecodeSimple (base64Encode data) = .ok data := by
  rw [base64DecodeSimple_eq, toUTF8_base64Encode,
    filter_text (fun digit => decide_eq_true (base64Byte_plain digit))
      (by decide),
    decodeChunks_base64Chars]

namespace PoolDiscovery

/-- The state of an account of full length is read word by word. -/
theorem poolState_bytes
    {account : RaydiumAccount}
    (complete : 752 ≤ account.bytes.length) :
    poolState account.bytes =
      .ok {
        status := account.status.toNat
        coinDecimals := account.baseDecimal.toNat % 256
        pcDecimals := account.quoteDecimal.toNat % 256
        coinLotSize := account.coinLotSize.toNat
        pcLotSize := account.pcLotSize.toNat } := by
  have read (place : Nat) (inside : place < account.words.length) :
      readU64 account.bytes (8 * place) = account.words[place].toNat :=
    readU64_flatMap inside account.rest
  have status := read 0 (by simp [RaydiumAccount.words])
  have baseDecimal := read 4 (by simp [RaydiumAccount.words])
  have quoteDecimal := read 5 (by simp [RaydiumAccount.words])
  have coinLotSize := read 11 (by simp [RaydiumAccount.words])
  have pcLotSize := read 12 (by simp [RaydiumAccount.words])
  rw [poolState, if_neg (Nat.not_lt.mpr complete), status, baseDecimal,
    quoteDecimal, coinLotSize, pcLotSize]
  rfl

/-- The decoded data of an answer is what the state is read of. -/
theorem fetchRaydiumPool_eq
    {resp : JsonTree}
    {data : List UInt8}
    (answers : accountText resp = some (base64Encode data))
    (rpcUrl poolAddress : String) :
    fetchRaydiumPool rpcUrl poolAddress (.ok resp) =
      { posted := [accountRequest rpcUrl poolAddress]
        result := (Live.ofText (poolState data)).result } := by
  have posted :
      (Live.post (accountRequest rpcUrl poolAddress) (.ok resp)).result =
        .ok resp :=
    rfl
  have decoded :
      (base64DecodeSimple (base64Encode data)).mapError (fun _ => "") =
        .ok data := by
    rw [base64DecodeSimple_base64Encode]
    rfl
  have text :
      (pure (base64Encode data) : Live String).result =
        .ok (base64Encode data) :=
    rfl
  have isData : (Live.ofText (.ok data)).result = .ok data :=
    rfl
  rw [fetchRaydiumPool, Attempt.bind_of_ok posted, answers]
  dsimp only
  rw [Attempt.bind_of_ok text, decoded, Attempt.bind_of_ok isData]
  cases poolState data <;> rfl

/--
Data of any length is decoded from its base64 text.  If a node answers with it,
it is refused if it is shorter than the accounts of Raydium, and otherwise it is
the data of an account that is read word by word.
-/
theorem fetched_pool_is_account
    (data : List UInt8)
    (rpcUrl poolAddress : String) :
    base64DecodeSimple (base64Encode data) = .ok data ∧
      ∀ resp,
        accountText resp = some (base64Encode data) →
          (data.length < 752 →
            fetchRaydiumPool rpcUrl poolAddress (.ok resp) =
              { posted := [accountRequest rpcUrl poolAddress]
                result :=
                  .error
                    (.failed "Account data too short for Raydium pool") }) ∧
            (752 ≤ data.length →
              ∃ account : RaydiumAccount,
                account.bytes = data ∧
                  fetchRaydiumPool rpcUrl poolAddress (.ok resp) =
                    { posted := [accountRequest rpcUrl poolAddress]
                      result :=
                        .ok {
                          status := account.status.toNat
                          coinDecimals := account.baseDecimal.toNat % 256
                          pcDecimals := account.quoteDecimal.toNat % 256
                          coinLotSize := account.coinLotSize.toNat
                          pcLotSize := account.pcLotSize.toNat } }) := by
  refine ⟨base64DecodeSimple_base64Encode data, fun resp answers => ?_⟩
  rw [fetchRaydiumPool_eq answers]
  constructor
  · intro short
    rw [poolState, if_pos short]
    rfl
  · intro complete
    have isBytes :=
      RaydiumAccount.bytes_ofBytes (Nat.le_trans (by decide) complete)
    refine ⟨.ofBytes data, isBytes, ?_⟩
    have state := @poolState_bytes (.ofBytes data) (isBytes.symm ▸ complete)
    rw [isBytes] at state
    rw [state]
    rfl

/-- An account of the least length, whose decimals are 9 and 256. -/
def smallAccount : RaydiumAccount :=
  ⟨6, 0, 0, 0, 9, 256, 0, 0, 0, 0, 0, 1, 2, List.replicate 648 0⟩

/-- A response with the text of an account. -/
def accountResponse (text : String) : JsonTree :=
  .object [
    ("result",
      .object [
        ("value",
          .object [("data", .array [.string text, .string "base64"])])])]

theorem accountText_accountResponse (text : String) :
    accountText (accountResponse text) = some text :=
  rfl

/-- Decimals of 256 are read as 0. -/
theorem wide_decimals_are_cut :
    (fetchRaydiumPool "http://localhost:8899" "pool"
        (.ok (accountResponse (base64Encode smallAccount.bytes)))).result =
      .ok ⟨6, 9, 0, 1, 2⟩ := by
  have complete : 752 ≤ smallAccount.bytes.length := by
    decide +kernel
  have answers := accountText_accountResponse (base64Encode smallAccount.bytes)
  obtain ⟨account, sameBytes, fetched⟩ :=
    ((fetched_pool_is_account smallAccount.bytes "http://localhost:8899"
      "pool").2 _ answers).2 complete
  -- The same bytes are read the same way.
  have read := poolState_bytes (sameBytes.symm ▸ complete)
  rw [sameBytes, poolState_bytes complete] at read
  rw [fetched, ← Except.ok.inj read]
  rfl

end PoolDiscovery

end YieldDaemon
