import YieldDaemon.AccountRemapping
import YieldDaemon.Attempts
import YieldDaemon.Base58
import YieldDaemon.JsonTree
import YieldDaemon.MessageFormat
import YieldDaemon.SwapBuilders

namespace YieldDaemon

open Attempts ByteDecoder CheckedArithmetic

/-!
# Signed transactions on the wire

The executor asks for a blockhash, signs what it has built and posts it as
base58 text.  What the receiver decodes is compared here with what the executor
was asked to do.
-/

/-- The signature scheme, with what its verifier accepts. -/
structure Ed25519 where
  derive : List UInt8 → List UInt8
  sign : List UInt8 → List UInt8 → List UInt8
  verify : List UInt8 → List UInt8 → List UInt8 → Bool
  lengthDerive : ∀ secret, (derive secret).length = 32
  lengthSign : ∀ secret message, (sign secret message).length = 64
  accepts :
    ∀ secret message, verify (derive secret) message (sign secret message)

/-- A Solana keypair; its public key is the one that its secret derives. -/
structure Keypair (curve : Ed25519) where
  signingKey : List UInt8
  pubkey : List UInt8
  derived : pubkey = curve.derive signingKey

variable {curve : Ed25519}

namespace Keypair

/-- Load from the bytes of a Solana CLI JSON keypair file. -/
def load (curve : Ed25519) (file : Except String (List UInt8)) :
    Except String (Keypair curve) := do
  let bytes ← file
  if bytes.length ≠ 64 then
    throw ("Keypair must be 64 bytes, got " ++ toString bytes.length)
  let secret := bytes.take 32
  let pubkey := bytes.drop 32
  if differs : curve.derive secret ≠ pubkey then
    -- A stored key that is not the derived one is replaced.
    return ⟨secret, curve.derive secret, rfl⟩
  else
    return ⟨secret, pubkey, (not_not.mp differs).symm⟩

def sign (keypair : Keypair curve) (message : List UInt8) : List UInt8 :=
  curve.sign keypair.signingKey message

end Keypair

namespace SolanaTransaction

/-- Sign and serialize the full transaction (signatures + message). -/
def signAndSerialize
    (tx : SolanaTransaction)
    (keypair : Keypair curve) : List UInt8 :=
  compactU16Encode 1 ++ keypair.sign tx.serializeMessage ++
    tx.serializeMessage

/-- Read the signatures in front of a message. -/
def decodeSignatures : Decoder (List (List UInt8)) := do
  let count ← compactU16
  replicate (replicate byte 64) count

end SolanaTransaction

def systemProgram : List UInt8 :=
  List.replicate 32 0

/-- Build a SOL transfer instruction (System Program Transfer). -/
def buildTransferIx (source target : List UInt8) (lamports : UInt64) :
    SwapIx where
  accounts := [source, target, systemProgram]
  ix := ⟨2, [0, 1], leBytes 4 2 ++ leBytes 8 lamports.toNat⟩

/-- The transaction of a single transfer. -/
def transferTransaction
    (blockhash source target : List UInt8)
    (lamports : UInt64) : SolanaTransaction :=
  let transfer := buildTransferIx source target lamports
  { recentBlockhash := blockhash
    instructions := [transfer.ix]
    accountKeys := transfer.accounts
    numSigners := 1
    numReadonlySigned := 0
    numReadonlyUnsigned := 1 }

/-- The transaction of all swaps of an arbitrage. -/
def swapTransaction
    (blockhash : List UInt8)
    (allAccounts : List (List UInt8))
    (instructions : List SolanaInstruction) : SolanaTransaction where
  recentBlockhash := blockhash
  instructions := instructions
  accountKeys := allAccounts
  numSigners := 1
  numReadonlySigned := 0
  -- Simplified in the source: no account is categorized as read-only.
  numReadonlyUnsigned := 0

/-- A POST request with its JSON body. -/
structure HttpPost where
  url : String
  body : JsonTree

/-- Why a submission returns no identifier. -/
inductive LiveError where
  | panic (reason : Panic)
  | failed (message : String)

/-- A submission: what it posts, and what it returns. -/
abbrev Live := Attempt HttpPost LiveError

def Live.ofChecked {Value : Type} : Checked Value → Live Value
  | .ok value => .ofExcept (.ok value)
  | .error reason => .ofExcept (.error (.panic reason))

def Live.ofText {Value : Type} : Except String Value → Live Value
  | .ok value => .ofExcept (.ok value)
  | .error message => .ofExcept (.error (.failed message))

/-- Post a request; a transport error ends the submission. -/
def Live.post {Value : Type} (request : HttpPost)
    (answer : Except String Value) : Live Value :=
  Attempt.post request (answer.mapError LiveError.failed)

/-- A response with its status and its text, which may be JSON. -/
structure HttpResponse where
  status : Nat
  statusLine : String
  text : String
  json : Except String JsonTree

/-- What comes from outside during one submission. -/
structure LiveAnswers where
  timestamp : Int
  subsecNanos : Nat
  blockhash : Except String JsonTree
  bundle : Except String HttpResponse
  transaction : Except String JsonTree

/-- The live executor with its keypair and its endpoints. -/
structure SigningExecutor (curve : Ed25519) where
  keypair : Keypair curve
  blockEngineUrl : String
  rpcUrl : String
  dryRun : Bool

namespace SigningExecutor

/-- Jito tip accounts (mainnet). -/
def tipAccounts : List String := [
  "96gYZGLnJYVFmbjzopPSU6QiEV5fGqZNyN9nmNhvrZU5",
  "HFqU5x63VTqvQss8hp11i4bPUWm8rSSXMuAs7mEjn5g9",
  "Cw8CFyM9FkoMi7K7Crf6HNQqf4uEMzpKw6QNghXLvLkY",
  "ADaUMid9yfUytqMBgopwjb2DTLSx5NTed13Bd4bkJsTD",
  "DfXygSm4jCyNCybVYYK6DwvWqjKee8pbDmJGcLWNDXjh",
  "ADuUkR4vqLUMWXxW9gh6D6L8pMSawimctcNZ5pGwDcEt",
  "DttWaMuVvTiduZRnguLF7jNxTgiMBZ1hyAumKUiL2KRL",
  "3AVi9Tg9Uo68tJfuvoKvqKNWKkC5wPdSSdeBnizKZ6jT"]

/-- The tip account that the clock picks. -/
def getTipAccount (subsecNanos : Nat) : String :=
  tipAccounts.getD (subsecNanos % tipAccounts.length) ""

variable (executor : SigningExecutor curve)

def blockhashRequest : HttpPost where
  url := executor.rpcUrl
  body :=
    .rpcCall "getLatestBlockhash"
      [.object [("commitment", .string "confirmed")]]

/-- The blockhash in a response. -/
def readBlockhash (resp : JsonTree) : Except String (List UInt8) := do
  let text ←
    match (((resp.index "result").index "value").index "blockhash").asStr with
    | some text => pure text
    | none => throw "No blockhash in response"
  let decoded ← bs58Decode text
  if decoded.length ≠ 32 then
    throw "Invalid blockhash length"
  return decoded

/-- Get latest blockhash for transaction signing. -/
def getLatestBlockhash (answers : LiveAnswers) : Live (List UInt8) := do
  let resp ← Live.post executor.blockhashRequest answers.blockhash
  Live.ofText (readBlockhash resp)

/-- The request that submits some transactions as one bundle. -/
def bundleRequest (transactions : List (List UInt8)) : HttpPost where
  url := executor.blockEngineUrl ++ "/api/v1/bundles"
  body :=
    .rpcCall "sendBundle"
      [.array (transactions.map fun tx => .string (bs58Encode tx))]

/-- Submit a bundle of signed transactions. -/
def sendBundle
    (answers : LiveAnswers)
    (transactions : List (List UInt8)) : Live String := do
  let resp ← Live.post (executor.bundleRequest transactions) answers.bundle
  if resp.status < 200 ∨ 300 ≤ resp.status then
    Live.ofText
      (.error ("Jito bundle error " ++ resp.statusLine ++ ": " ++ resp.text))
  else
    let json ← Live.ofText resp.json
    return ((json.index "result").asStr).getD "unknown"

/-- Execute a multi-hop arbitrage as an atomic Jito bundle. -/
def executeArbitrage
    (answers : LiveAnswers)
    (swapIxs : List SwapIx)
    (tipLamports : UInt64) : Live String := do
  if executor.dryRun then
    return "DRY_RUN_" ++ toString answers.timestamp
  else
    let blockhash ← executor.getLatestBlockhash answers
    let (allAccounts, instructions) ←
      Live.ofChecked
        (swapIxs.foldlM LiveExecutor.addInstruction
          ([executor.keypair.pubkey], []))
    let swapTx := swapTransaction blockhash allAccounts instructions
    let signedSwap := swapTx.signAndSerialize executor.keypair
    let tipAccountBytes ←
      Live.ofText (bs58Decode (getTipAccount answers.subsecNanos))
    let tipPubkey :=
      if tipAccountBytes.length = 32 then
        tipAccountBytes
      else
        List.replicate 32 0
    let tipTx :=
      transferTransaction blockhash executor.keypair.pubkey tipPubkey
        tipLamports
    let signedTip := tipTx.signAndSerialize executor.keypair
    executor.sendBundle answers [signedSwap, signedTip]

/-- The request that sends one signed transaction. -/
def transactionRequest (signedTx : List UInt8) : HttpPost where
  url := executor.rpcUrl
  body :=
    .rpcCall "sendTransaction"
      [.string (bs58Encode signedTx),
        .object [
          ("encoding", .string "base58"),
          ("skipPreflight", .boolean true),
          ("maxRetries", .integer 2),
          ("preflightCommitment", .string "confirmed")]]

/-- Send a signed transaction; `display` prints the error of the response. -/
def sendTransaction
    (display : JsonTree → String)
    (answers : LiveAnswers)
    (signedTx : List UInt8) : Live String := do
  let resp ←
    Live.post (executor.transactionRequest signedTx) answers.transaction
  match resp.get "error" with
  | some err =>
      Live.ofText (.error ("sendTransaction error: " ++ display err))
  | none => return ((resp.index "result").asStr).getD "unknown"

/-- Execute a simple SOL transfer (for profit extraction). -/
def transferSol
    (display : JsonTree → String)
    (answers : LiveAnswers)
    (target : List UInt8)
    (lamports : UInt64) : Live String := do
  if executor.dryRun then
    return "DRY_RUN"
  else
    let blockhash ← executor.getLatestBlockhash answers
    let tx :=
      transferTransaction blockhash executor.keypair.pubkey target lamports
    executor.sendTransaction display answers
      (tx.signAndSerialize executor.keypair)

end SigningExecutor

/-- The text decodes to a transaction that the signer has signed. -/
def Carries
    (curve : Ed25519)
    (text : String)
    (signer : List UInt8)
    (tx : SolanaTransaction) : Prop :=
  ∃ bytes signature message,
    bs58Decode text = .ok bytes ∧
      SolanaTransaction.decodeSignatures.run bytes =
        some ([signature], message) ∧
      curve.verify signer message signature = true ∧
      SolanaTransaction.decodeMessage.run message = some (tx, [])

theorem reads_decodeSignatures
    {signature : List UInt8}
    (sized : signature.length = 64) :
    Reads SolanaTransaction.decodeSignatures
      (compactU16Encode 1 ++ signature) [signature] := by
  have one :
      Reads (replicate (replicate byte 64) 1) signature [signature] := by
    intro suffix
    have read := reads_bytes sized suffix
    rw [replicate, StateT.run_bind, read]
    rfl
  exact (reads_compactU16 1).bind one

theorem carries_signed
    {tx : SolanaTransaction}
    (keypair : Keypair curve)
    (typed : tx.IsTyped)
    (short : tx.IsShort) :
    Carries curve (bs58Encode (tx.signAndSerialize keypair)) keypair.pubkey
      tx := by
  refine ⟨_, keypair.sign tx.serializeMessage, tx.serializeMessage,
    bs58Decode_bs58Encode _, ?_, ?_, ?_⟩
  · exact reads_decodeSignatures (curve.lengthSign _ _) tx.serializeMessage
  · rw [keypair.derived]
    exact curve.accepts _ _
  · have reads := SolanaTransaction.reads_decodeMessage typed short []
    rwa [List.append_nil] at reads

/-- The transaction is one transfer from the first account to the second. -/
structure Transfers
    (tx : SolanaTransaction)
    (source target : List UInt8)
    (lamports : UInt64) : Prop where
  /-- The only instruction is the system program's second one. -/
  instruction :
    ∃ ix,
      tx.instructions = [ix] ∧
        tx.accountKeys[ix.programIdIdx.toNat]? = some systemProgram ∧
        ix.accountIndices.map (fun idx => tx.accountKeys[idx.toNat]?) =
          [some source, some target] ∧
        leValue (ix.data.take 4) = 2 ∧
        leValue (ix.data.drop 4) = lamports.toNat

section Transfer

variable {blockhash source target : List UInt8}

theorem transferTransaction_transfers (lamports : UInt64) :
    Transfers (transferTransaction blockhash source target lamports) source
      target lamports := by
  refine ⟨(buildTransferIx source target lamports).ix, rfl, rfl, rfl, ?_, ?_⟩
  · have index :
        (buildTransferIx source target lamports).ix.data.take 4 =
          leBytes 4 2 :=
      List.take_left' (length_leBytes 4 2)
    rw [index, leValue_leBytes]
    decide
  · have amount :
        (buildTransferIx source target lamports).ix.data.drop 4 =
          leBytes 8 lamports.toNat :=
      List.drop_left' (length_leBytes 4 2)
    rw [amount, leValue_leBytes]
    exact Nat.mod_eq_of_lt lamports.toNat_lt

theorem transferTransaction_typed
    (lamports : UInt64)
    (sizedBlockhash : blockhash.length = 32)
    (sizedSource : source.length = 32)
    (sizedTarget : target.length = 32) :
    (transferTransaction blockhash source target lamports).IsTyped where
  recentBlockhash := sizedBlockhash
  accountKeys := by
    intro key member
    rcases List.mem_cons.mp member with rfl | member
    · exact sizedSource
    rcases List.mem_cons.mp member with rfl | member
    · exact sizedTarget
    rw [List.mem_singleton.mp member]
    rfl
  numSigners := Nat.lt_of_sub_eq_succ rfl
  numReadonlySigned := Nat.lt_of_sub_eq_succ rfl
  numReadonlyUnsigned := Nat.lt_of_sub_eq_succ rfl

theorem transferTransaction_short (lamports : UInt64) :
    (transferTransaction blockhash source target lamports).IsShort where
  accountKeys := Nat.lt_of_sub_eq_succ rfl
  instructions := Nat.lt_of_sub_eq_succ rfl
  eachInstruction := by
    intro ix member
    rw [List.mem_singleton.mp member]
    refine ⟨Nat.lt_of_sub_eq_succ rfl, ?_⟩
    change (leBytes 4 2 ++ leBytes 8 lamports.toNat).length < 2 ^ 16
    rw [List.length_append, length_leBytes, length_leBytes]
    exact Nat.lt_of_sub_eq_succ rfl

end Transfer

/-! The accounts of the swaps. -/

/-- Collected keys come from the signer or from an instruction. -/
theorem mem_of_foldlM_addInstruction
    {swapIxs : List SwapIx}
    {allAccounts keys : List (List UInt8)}
    {before after : List SolanaInstruction}
    (collected :
      swapIxs.foldlM LiveExecutor.addInstruction (allAccounts, before) =
        .ok (keys, after)) :
    ∀ key ∈ keys,
      key ∈ allAccounts ∨ ∃ swap ∈ swapIxs, key ∈ swap.accounts := by
  induction swapIxs generalizing allAccounts before with
  | nil =>
      intro key member
      rw [List.foldlM_nil] at collected
      cases collected
      exact .inl member
  | cons swap swapIxs inductionHypothesis =>
      rw [List.foldlM_cons] at collected
      obtain ⟨⟨middle, remapped⟩, added, later⟩ :=
        Checked.bind_eq_ok.mp collected
      unfold LiveExecutor.addInstruction at added
      obtain ⟨programIdIdx, -, added⟩ := Checked.bind_eq_ok.mp added
      obtain ⟨accountIndices, -, added⟩ := Checked.bind_eq_ok.mp added
      cases added
      intro key member
      rcases inductionHypothesis later key member with
        inMiddle | ⟨other, isLater, inOther⟩
      · rcases LiveExecutor.mem_collectAccounts.mp inMiddle with old | new
        · exact .inl old
        · exact .inr ⟨swap, List.mem_cons_self, new⟩
      · exact .inr ⟨other, List.mem_cons_of_mem _ isLater, inOther⟩

/-- A swap whose indices, accounts and lists fit the wire format. -/
structure SwapIx.Fits (swap : SwapIx) : Prop where
  inRange : swap.InRange
  accounts : ∀ account ∈ swap.accounts, account.length = 32
  short : swap.ix.IsShort

/-- A remapped instruction is as short as the swap. -/
theorem SwapIx.Remaps.isShort
    {keys : List (List UInt8)}
    {swap : SwapIx}
    {ix : SolanaInstruction}
    (remaps : swap.Remaps keys ix)
    (short : swap.ix.IsShort) :
    ix.IsShort where
  accountIndices := remaps.accounts.length_eq ▸ short.accountIndices
  data := remaps.data.symm ▸ short.data

section Swaps

variable
  {pubkey blockhash : List UInt8}
  {keys : List (List UInt8)}
  {swapIxs : List SwapIx}
  {instructions : List SolanaInstruction}

theorem swapTransaction_typed
    (sizedBlockhash : blockhash.length = 32)
    (sizedPubkey : pubkey.length = 32)
    (fit : ∀ swap ∈ swapIxs, swap.Fits)
    (collected :
      swapIxs.foldlM LiveExecutor.addInstruction ([pubkey], []) =
        .ok (keys, instructions)) :
    (swapTransaction blockhash keys instructions).IsTyped where
  recentBlockhash := sizedBlockhash
  accountKeys := by
    intro key member
    rcases mem_of_foldlM_addInstruction collected key member with
      isSigner | ⟨swap, isSwap, inSwap⟩
    · rw [List.mem_singleton.mp isSigner]
      exact sizedPubkey
    · exact (fit swap isSwap).accounts key inSwap
  numSigners := Nat.lt_of_sub_eq_succ rfl
  numReadonlySigned := Nat.lt_of_sub_eq_succ rfl
  numReadonlyUnsigned := Nat.lt_of_sub_eq_succ rfl

theorem swapTransaction_short
    (fit : ∀ swap ∈ swapIxs, swap.Fits)
    (few : keys.length ≤ 256)
    (short : swapIxs.length < 2 ^ 16)
    (remaps : List.Forall₂ (SwapIx.Remaps keys) swapIxs instructions) :
    (swapTransaction blockhash keys instructions).IsShort where
  accountKeys := few.trans_lt (Nat.lt_of_sub_eq_succ rfl)
  instructions := remaps.length_eq ▸ short
  eachInstruction := by
    change ∀ ix ∈ instructions, ix.IsShort
    clear short
    induction remaps with
    | nil =>
        intro ix member
        exact absurd member List.not_mem_nil
    | cons head _ inductionHypothesis =>
        rw [List.forall_mem_cons] at fit
        exact List.forall_mem_cons.mpr
          ⟨head.isShort fit.1.short, inductionHypothesis fit.2⟩

end Swaps

/-- What a builder returns, with its accounts as lists of bytes. -/
def SwapIx.ofBuilt (built : List Key × SolanaInstruction) : SwapIx where
  accounts := built.1.map Vector.toList
  ix := built.2

/-- An instruction over at most 255 accounts fits. -/
theorem overAccounts_fits
    {named : List Key}
    {data : List UInt8}
    (profile : Profile)
    (program : Key)
    (few : named.length < 255)
    (short : data.length < 2 ^ 16) :
    ∃ ix,
      overAccounts profile (named ++ [program]) data = .ok ix ∧
        ix.data = data ∧
        (SwapIx.ofBuilt (named ++ [program], ix)).Fits := by
  have sized : (named ++ [program]).length = named.length + 1 :=
    List.length_append
  have small : (named ++ [program]).length % 256 = named.length + 1 := by
    rw [sized, Nat.mod_eq_of_lt (by omega)]
  have exactly :
      ∀ idx, idx ≤ named.length → (UInt8.ofNat idx).toNat = idx := by
    intro idx inside
    rw [UInt8.toNat_ofNat', Nat.mod_eq_of_lt (by omega)]
  refine ⟨⟨UInt8.ofNat named.length,
    (List.range named.length).map UInt8.ofNat, data⟩, ?_, rfl, ?_, ?_, ?_⟩
  · rw [overAccounts, small, sized, sub_of_le (by omega),
      sub_of_le (by omega)]
    rfl
  · refine ⟨?_, fun idx member => ?_⟩
    · simp only [SwapIx.ofBuilt, List.length_map, sized]
      rw [exactly _ (Nat.le_refl _)]
      exact Nat.lt_succ_self _
    · simp only [SwapIx.ofBuilt, List.length_map, sized]
      obtain ⟨position, inside, rfl⟩ := List.mem_map.mp member
      rw [List.mem_range] at inside
      rw [exactly _ inside.le]
      exact Nat.lt_succ_of_lt inside
  · intro account member
    obtain ⟨key, -, rfl⟩ := List.mem_map.mp member
    exact key.length_toList
  · refine ⟨?_, short⟩
    simp only [SwapIx.ofBuilt, List.length_map, List.length_range]
    omega

/-- Raydium swaps fit. -/
theorem buildRaydiumSwap_fits
    (profile : Profile)
    (keys : RaydiumKeys)
    (amountIn minimumAmountOut : Nat) :
    ∃ built,
      buildRaydiumSwap profile keys amountIn minimumAmountOut = .ok built ∧
        (SwapIx.ofBuilt built).Fits := by
  have short :
      (swapData raydiumSwapDiscriminator amountIn minimumAmountOut).length <
        2 ^ 16 := by
    rw [length_swapData]
    decide
  obtain ⟨ix, made, -, fits⟩ :=
    @overAccounts_fits keys.named _ profile raydiumProgram
      (Nat.lt_of_sub_eq_succ rfl) short
  refine ⟨_, ?_, fits⟩
  rw [buildRaydiumSwap, made]
  rfl

/-- Swaps over up to 251 accounts of a pool fit. -/
theorem buildGenericSwap_fits
    {poolAccounts : List Key}
    (profile : Profile)
    (programId userSource userDest userOwner : Key)
    (amountIn minimumOut : Nat)
    (few : poolAccounts.length < 252) :
    ∃ built,
      buildGenericSwap profile programId poolAccounts userSource userDest
          userOwner amountIn minimumOut = .ok built ∧
        (SwapIx.ofBuilt built).Fits := by
  have eight : (selectDiscriminator programId).length = 8 := by
    unfold selectDiscriminator
    split
    · rfl
    · split <;> rfl
  have short :
      (swapData (selectDiscriminator programId) amountIn minimumOut).length <
        2 ^ 16 := by
    rw [length_swapData, eight]
    decide
  have fewNamed :
      (poolAccounts ++ [userSource, userDest, userOwner]).length < 255 := by
    rw [List.length_append]
    exact Nat.add_lt_add_right few 3
  obtain ⟨ix, made, -, fits⟩ :=
    overAccounts_fits profile programId fewNamed short
  refine ⟨_, ?_, fits⟩
  rw [buildGenericSwap, made]
  rfl

/-! Posted requests. -/

namespace SigningExecutor

/-- The account decodes to a public key. -/
def isKeyText (account : String) : Bool :=
  match bs58Decode account with
  | .ok key => key.length = 32
  | .error _ => false

theorem tipAccounts_are_keys :
    ∀ account ∈ tipAccounts, isKeyText account = true := by
  decide +kernel

theorem getTipAccount_decodes (subsecNanos : Nat) :
    ∃ key,
      bs58Decode (getTipAccount subsecNanos) = .ok key ∧ key.length = 32 := by
  have inside : subsecNanos % tipAccounts.length < tipAccounts.length :=
    Nat.mod_lt _ (Nat.lt_of_sub_eq_succ rfl)
  have member : getTipAccount subsecNanos ∈ tipAccounts := by
    rw [getTipAccount, List.getD_eq_getElem?_getD,
      List.getElem?_eq_getElem inside]
    exact List.getElem_mem inside
  have isKey := tipAccounts_are_keys _ member
  unfold isKeyText at isKey
  cases decoded : bs58Decode (getTipAccount subsecNanos) with
  | error message =>
      rw [decoded] at isKey
      cases isKey
  | ok key =>
      rw [decoded] at isKey
      exact ⟨key, rfl, of_decide_eq_true isKey⟩

/-- The RPC endpoint answers with this blockhash. -/
def AnswersBlockhash (answers : LiveAnswers) (blockhash : List UInt8) : Prop :=
  ∃ resp,
    answers.blockhash = .ok resp ∧ readBlockhash resp = .ok blockhash

theorem length_of_readBlockhash
    {resp : JsonTree}
    {blockhash : List UInt8}
    (read : readBlockhash resp = .ok blockhash) :
    blockhash.length = 32 := by
  unfold readBlockhash at read
  cases text :
      (((resp.index "result").index "value").index "blockhash").asStr with
  | none =>
      rw [text] at read
      cases read
  | some text' =>
      rw [text] at read
      cases decoded : bs58Decode text' with
      | error message =>
          simp [decoded, bind, Except.bind, pure, Except.pure] at read
      | ok bytes =>
          by_cases sized : bytes.length = 32
          · simp only [decoded, sized, bind, Except.bind, pure, Except.pure,
              ne_eq, not_true_eq_false, ↓reduceIte, Except.ok.injEq] at read
            exact read ▸ sized
          · simp [decoded, sized, bind, Except.bind, pure, Except.pure] at read

variable
  {executor : SigningExecutor curve}
  {answers : LiveAnswers}
  {blockhash : List UInt8}

/-- Asking for a blockhash posts one request, whatever it returns. -/
theorem posted_getLatestBlockhash :
    (executor.getLatestBlockhash answers).posted =
      [executor.blockhashRequest] := by
  refine Attempt.posted_post_bind fun resp => ?_
  cases readBlockhash resp <;> rfl

theorem result_getLatestBlockhash_eq_ok :
    (executor.getLatestBlockhash answers).result = .ok blockhash ↔
      AnswersBlockhash answers blockhash := by
  unfold getLatestBlockhash AnswersBlockhash
  rw [Attempt.result_bind_eq_ok]
  refine exists_congr fun resp => and_congr ?_ ?_
  · cases answers.blockhash <;>
      simp [Live.post, Attempt.post, Except.mapError]
  · cases readBlockhash resp <;> simp [Live.ofText]

theorem posted_sendBundle (transactions : List (List UInt8)) :
    (executor.sendBundle answers transactions).posted =
      [executor.bundleRequest transactions] := by
  refine Attempt.posted_post_bind fun resp => ?_
  split
  · rfl
  · cases resp.json <;> rfl

theorem posted_sendTransaction
    (display : JsonTree → String)
    (signedTx : List UInt8) :
    (executor.sendTransaction display answers signedTx).posted =
      [executor.transactionRequest signedTx] := by
  refine Attempt.posted_post_bind fun resp => ?_
  cases resp.get "error" <;> rfl

/-- Without a blockhash nothing else is posted. -/
theorem posted_bind_getLatestBlockhash
    {Value : Type}
    {next : List UInt8 → Live Value}
    (unanswered : ∀ blockhash, ¬ AnswersBlockhash answers blockhash) :
    (executor.getLatestBlockhash answers >>= next).posted =
      [executor.blockhashRequest] := by
  cases outcome : (executor.getLatestBlockhash answers).result with
  | ok blockhash =>
      exact absurd (result_getLatestBlockhash_eq_ok.mp outcome)
        (unanswered blockhash)
  | error raised =>
      rw [Attempt.bind_of_error outcome]
      exact posted_getLatestBlockhash

/-- With a blockhash the rest is posted after it. -/
theorem posted_bind_of_blockhash
    {Value : Type}
    {next : List UInt8 → Live Value}
    (answered : AnswersBlockhash answers blockhash) :
    (executor.getLatestBlockhash answers >>= next).posted =
      executor.blockhashRequest :: (next blockhash).posted := by
  rw [Attempt.bind_of_ok (result_getLatestBlockhash_eq_ok.mpr answered),
    posted_getLatestBlockhash]
  rfl

/-- The transactions of a bundle for some swaps and a tip. -/
structure Bundles
    (executor : SigningExecutor curve)
    (answers : LiveAnswers)
    (swapIxs : List SwapIx)
    (tipLamports : UInt64)
    (blockhash : List UInt8)
    (swapTx tipTx : SolanaTransaction) : Prop where
  recent :
    swapTx.recentBlockhash = blockhash ∧ tipTx.recentBlockhash = blockhash
  distinct : swapTx.accountKeys.Nodup
  signer : swapTx.accountKeys.head? = some executor.keypair.pubkey
  swaps :
    List.Forall₂ (SwapIx.Remaps swapTx.accountKeys) swapIxs swapTx.instructions
  tip :
    ∃ tipKey,
      bs58Decode (getTipAccount answers.subsecNanos) = .ok tipKey ∧
        Transfers tipTx executor.keypair.pubkey tipKey tipLamports

/-- The keys of the signer and of all swaps that differ. -/
def distinctKeys
    (executor : SigningExecutor curve)
    (swapIxs : List SwapIx) : List (List UInt8) :=
  LiveExecutor.distinctKeys ⟨executor.keypair.pubkey, executor.dryRun⟩ swapIxs

/-- The swaps are collected into keys and instructions that fit. -/
theorem collects
    {swapIxs : List SwapIx}
    (fit : ∀ swap ∈ swapIxs, swap.Fits)
    (few : (executor.distinctKeys swapIxs).length ≤ 256) :
    ∃ keys instructions,
      swapIxs.foldlM LiveExecutor.addInstruction
          ([executor.keypair.pubkey], []) = .ok (keys, instructions) ∧
        keys.Nodup ∧
        keys.head? = some executor.keypair.pubkey ∧
        keys.length ≤ 256 ∧
        List.Forall₂ (SwapIx.Remaps keys) swapIxs instructions := by
  have signerWithin :
      [executor.keypair.pubkey] ⊆ executor.distinctKeys swapIxs :=
    List.cons_subset.mpr
      ⟨List.mem_dedup.mpr List.mem_cons_self, List.nil_subset _⟩
  have swapsWithin :
      ∀ swap ∈ swapIxs, swap.accounts ⊆ executor.distinctKeys swapIxs := by
    intro swap member key isKey
    exact List.mem_dedup.mpr (List.mem_cons_of_mem _
      (List.mem_flatMap.mpr ⟨swap, member, isKey⟩))
  obtain ⟨keys, instructions, collected, distinct, grown, remaps⟩ :=
    LiveExecutor.foldlM_addInstruction [] (fun swap member =>
      (fit swap member).inRange) (List.nodup_singleton _) signerWithin
      swapsWithin few
  rw [List.nil_append] at collected
  refine ⟨keys, instructions, collected, distinct, ?_, ?_, remaps⟩
  · obtain ⟨more, rfl⟩ := grown
    rfl
  · refine LiveExecutor.length_le_of_within distinct ?_ few
    intro key member
    rcases mem_of_foldlM_addInstruction collected key member with
      isSigner | ⟨swap, isSwap, inSwap⟩
    · exact signerWithin isSigner
    · exact swapsWithin swap isSwap inSwap

/-- The posts of a live arbitrage, given what its steps before them return. -/
theorem posted_executeArbitrage
    {answers : LiveAnswers}
    {swapIxs : List SwapIx}
    {keys : List (List UInt8)}
    {instructions : List SolanaInstruction}
    {tipKey : List UInt8}
    (tipLamports : UInt64)
    (live : executor.dryRun = false)
    (answered : AnswersBlockhash answers blockhash)
    (collected :
      swapIxs.foldlM LiveExecutor.addInstruction
        ([executor.keypair.pubkey], []) = .ok (keys, instructions))
    (decoded : bs58Decode (getTipAccount answers.subsecNanos) = .ok tipKey)
    (sizedTip : tipKey.length = 32) :
    (executor.executeArbitrage answers swapIxs tipLamports).posted =
      [executor.blockhashRequest,
        executor.bundleRequest
          [(swapTransaction blockhash keys instructions).signAndSerialize
              executor.keypair,
            (transferTransaction blockhash executor.keypair.pubkey tipKey
              tipLamports).signAndSerialize executor.keypair]] := by
  rw [executeArbitrage, live, if_neg Bool.false_ne_true,
    posted_bind_of_blockhash answered, collected]
  have passed :
      (Live.ofChecked (.ok (keys, instructions))).result =
        .ok (keys, instructions) := rfl
  rw [Attempt.bind_of_ok passed]
  dsimp only
  rw [decoded]
  have tipPassed : (Live.ofText (.ok tipKey)).result = .ok tipKey := rfl
  rw [Attempt.bind_of_ok tipPassed]
  dsimp only
  rw [posted_sendBundle, if_pos sizedTip]
  rfl

/--
A dry run posts nothing; otherwise a blockhash is asked for, and a bundle is
posted exactly if it is answered.  Whoever decodes the two texts of the bundle
finds two transactions that verify for the executor's key: the given swaps,
every account the same and in order, and a transfer of the tip.
-/
theorem posted_bundle_carries_swaps
    {swapIxs : List SwapIx}
    (fit : ∀ swap ∈ swapIxs, swap.Fits)
    (few : (executor.distinctKeys swapIxs).length ≤ 256)
    (short : swapIxs.length < 2 ^ 16)
    (answers : LiveAnswers)
    (tipLamports : UInt64) :
    (executor.dryRun = true →
      (executor.executeArbitrage answers swapIxs tipLamports).posted = []) ∧
    (executor.dryRun = false →
      (∀ blockhash, ¬ AnswersBlockhash answers blockhash) →
      (executor.executeArbitrage answers swapIxs tipLamports).posted =
        [executor.blockhashRequest]) ∧
    (executor.dryRun = false →
      ∀ blockhash, AnswersBlockhash answers blockhash →
      ∃ swapText tipText swapTx tipTx,
        (executor.executeArbitrage answers swapIxs tipLamports).posted =
            [executor.blockhashRequest,
              ⟨executor.blockEngineUrl ++ "/api/v1/bundles",
                .rpcCall "sendBundle"
                  [.array [.string swapText, .string tipText]]⟩] ∧
          Carries curve swapText executor.keypair.pubkey swapTx ∧
          Carries curve tipText executor.keypair.pubkey tipTx ∧
          executor.Bundles answers swapIxs tipLamports blockhash swapTx
            tipTx) := by
  refine ⟨?_, ?_, ?_⟩
  · intro dry
    rw [executeArbitrage, dry]
    rfl
  · intro live unanswered
    rw [executeArbitrage, live, if_neg Bool.false_ne_true]
    exact posted_bind_getLatestBlockhash unanswered
  · intro live blockhash answered
    obtain ⟨keys, instructions, collected, distinct, signer, fewKeys,
      remaps⟩ := @collects curve executor swapIxs fit few
    obtain ⟨tipKey, decoded, sizedTip⟩ :=
      getTipAccount_decodes answers.subsecNanos
    have sizedPubkey : executor.keypair.pubkey.length = 32 := by
      rw [executor.keypair.derived]
      exact curve.lengthDerive _
    have sizedBlockhash : blockhash.length = 32 := by
      obtain ⟨resp, -, read⟩ := answered
      exact length_of_readBlockhash read
    let swapTx := swapTransaction blockhash keys instructions
    let tipTx :=
      transferTransaction blockhash executor.keypair.pubkey tipKey tipLamports
    refine ⟨bs58Encode (swapTx.signAndSerialize executor.keypair),
      bs58Encode (tipTx.signAndSerialize executor.keypair), swapTx, tipTx, ?_,
      carries_signed _
        (swapTransaction_typed sizedBlockhash sizedPubkey fit collected)
        (swapTransaction_short fit fewKeys short remaps),
      carries_signed _
        (transferTransaction_typed tipLamports sizedBlockhash sizedPubkey
          sizedTip)
        (transferTransaction_short tipLamports),
      ⟨⟨rfl, rfl⟩, distinct, signer, remaps, tipKey, decoded,
        transferTransaction_transfers tipLamports⟩⟩
    exact posted_executeArbitrage tipLamports live answered collected decoded
      sizedTip

/--
A transfer posts the blockhash request and then one transaction; what its text
decodes to verifies for the executor's key and transfers the given lamports.
-/
theorem posted_transaction_transfers
    (display : JsonTree → String)
    (answers : LiveAnswers)
    {target : List UInt8}
    (sized : target.length = 32)
    (lamports : UInt64)
    (live : executor.dryRun = false)
    (answered : AnswersBlockhash answers blockhash) :
    ∃ signedTx tx,
      (executor.transferSol display answers target lamports).posted =
          [executor.blockhashRequest, executor.transactionRequest signedTx] ∧
        Carries curve (bs58Encode signedTx) executor.keypair.pubkey tx ∧
        tx.recentBlockhash = blockhash ∧
        Transfers tx executor.keypair.pubkey target lamports := by
  have sizedPubkey : executor.keypair.pubkey.length = 32 := by
    rw [executor.keypair.derived]
    exact curve.lengthDerive _
  have sizedBlockhash : blockhash.length = 32 := by
    obtain ⟨resp, -, read⟩ := answered
    exact length_of_readBlockhash read
  refine ⟨_, transferTransaction blockhash executor.keypair.pubkey target
    lamports, ?_, carries_signed executor.keypair
      (transferTransaction_typed lamports sizedBlockhash sizedPubkey sized)
      (transferTransaction_short lamports), rfl,
    transferTransaction_transfers lamports⟩
  rw [transferSol, live, if_neg Bool.false_ne_true,
    posted_bind_of_blockhash answered]
  dsimp only
  rw [posted_sendTransaction]

/-- A test seed of the scheme's specification. -/
def testSeed : List UInt8 :=
  [157, 97, 177, 157, 239, 253, 90, 96, 186, 132, 74, 244, 146, 236, 44, 196,
    68, 73, 197, 105, 123, 50, 105, 25, 112, 59, 172, 3, 28, 174, 127, 96]

/-- The public key of the test seed. -/
def testKey : List UInt8 :=
  [215, 90, 152, 1, 130, 177, 10, 183, 213, 75, 254, 211, 201, 100, 7, 58,
    14, 225, 114, 243, 218, 166, 35, 37, 175, 2, 26, 104, 247, 7, 81, 26]

/-- The keys of the swap message. -/
def swapKeys : List (List UInt8) :=
  [testKey, tokenProgram.toList] ++
    (List.range' 1 14).map (fun n => List.replicate 32 (UInt8.ofNat n)) ++
    [List.replicate 32 0, List.replicate 32 16, List.replicate 32 17,
      raydiumProgram.toList]

/-- The message of one Raydium swap of 5 for at least 1. -/
def swapMessage : List UInt8 :=
  [1, 0, 0, 20] ++ swapKeys.flatten ++ List.replicate 32 0 ++
    [1, 19, 18] ++ (List.range' 1 18).map UInt8.ofNat ++
    [24] ++ leBytes 8 9 ++ leBytes 8 5 ++ leBytes 8 1

/-- The account at the second place of the tip accounts. -/
def secondTipKey : List UInt8 :=
  [241, 135, 236, 135, 209, 247, 69, 203, 58, 3, 56, 74, 38, 166, 158, 217,
    105, 213, 51, 214, 39, 79, 185, 104, 100, 32, 185, 203, 120, 221, 82, 54]

/-- The message of a tip of 1000 lamports to that account. -/
def tipMessage : List UInt8 :=
  [1, 0, 1, 3] ++ testKey ++ secondTipKey ++ systemProgram ++
    List.replicate 32 0 ++
    [1, 2, 2, 0, 1, 12] ++ leBytes 4 2 ++ leBytes 8 1000

/-- The test key's signature of the swap message. -/
def swapSignature : List UInt8 :=
  [169, 116, 113, 88, 174, 129, 72, 192, 159, 236, 203, 69, 103, 118, 20, 112,
    89, 2, 101, 199, 225, 216, 25, 154, 179, 243, 59, 80, 120, 37, 235, 242,
    126, 20, 82, 124, 6, 41, 224, 98, 155, 171, 119, 117, 111, 200, 233, 83,
    235, 106, 111, 64, 203, 78, 125, 231, 246, 240, 253, 65, 231, 153, 253, 4]

/-- The test key's signature of the tip message. -/
def tipSignature : List UInt8 :=
  [167, 151, 154, 174, 166, 134, 249, 156, 10, 211, 242, 169, 199, 121, 138,
    33, 119, 250, 30, 67, 63, 124, 124, 122, 82, 102, 26, 108, 174, 239, 252,
    191, 235, 168, 82, 35, 119, 216, 88, 201, 68, 128, 89, 36, 143, 227, 119,
    164, 66, 211, 222, 120, 173, 189, 98, 93, 158, 13, 16, 213, 49, 8, 194, 12]

/-- The signatures of the test key on the two messages; others are zeroes. -/
def tabulatedSignature (key message : List UInt8) : List UInt8 :=
  if key = testKey ∧ message = swapMessage then
    swapSignature
  else if key = testKey ∧ message = tipMessage then
    tipSignature
  else
    List.replicate 64 0

theorem length_tabulatedSignature (key message : List UInt8) :
    (tabulatedSignature key message).length = 64 := by
  unfold tabulatedSignature
  split
  · rfl
  · split <;> rfl

/-- The scheme as far as the two messages need it. -/
def tabulatedCurve : Ed25519 where
  derive secret := if secret = testSeed then testKey else List.replicate 32 7
  sign secret message :=
    tabulatedSignature
      (if secret = testSeed then testKey else List.replicate 32 7) message
  verify key message signature := signature = tabulatedSignature key message
  lengthDerive secret := by split <;> rfl
  lengthSign _ _ := length_tabulatedSignature _ _
  accepts _ _ := decide_eq_true rfl

def exampleExecutor : SigningExecutor tabulatedCurve where
  keypair := ⟨testSeed, testKey, rfl⟩
  blockEngineUrl := "http://engine"
  rpcUrl := "http://rpc"
  dryRun := false

/-- The blockhash of 32 zeroes, and an accepted bundle. -/
def exampleAnswers : LiveAnswers where
  timestamp := 0
  subsecNanos := 9
  blockhash :=
    .ok (.object [("result", .object [("value", .object [
      ("blockhash", .string "11111111111111111111111111111111")])])])
  bundle := .ok ⟨200, "200 OK", "", .ok (.object [("result", .string "id")])⟩
  transaction := .error "unused"

/-- The instruction of the swap message. -/
def swapInstruction : SolanaInstruction :=
  ⟨19, (List.range' 1 18).map UInt8.ofNat,
    leBytes 8 9 ++ leBytes 8 5 ++ leBytes 8 1⟩

theorem swap_is_signed :
    (swapTransaction (List.replicate 32 0) swapKeys
        [swapInstruction]).signAndSerialize exampleExecutor.keypair =
      1 :: swapSignature ++ swapMessage := by
  decide +kernel

theorem tip_is_signed :
    (transferTransaction (List.replicate 32 0) exampleExecutor.keypair.pubkey
        secondTipKey 1000).signAndSerialize exampleExecutor.keypair =
      1 :: tipSignature ++ tipMessage := by
  decide +kernel

theorem swap_is_collected
    {built : List Key × SolanaInstruction}
    (made : buildRaydiumSwap .debug countingKeys 5 1 = .ok built) :
    [SwapIx.ofBuilt built].foldlM LiveExecutor.addInstruction
      ([exampleExecutor.keypair.pubkey], []) =
        .ok (swapKeys, [swapInstruction]) := by
  have builds :
      buildRaydiumSwap .debug countingKeys 5 1 =
        .ok (countingKeys.named ++ [raydiumProgram],
          ⟨18, (List.range 18).map UInt8.ofNat,
            leBytes 8 9 ++ leBytes 8 5 ++ leBytes 8 1⟩) := by
    decide +kernel
  rw [builds] at made
  cases made
  decide +kernel

/-- A bundle with one Raydium swap and a tip of 1000 lamports. -/
theorem raydium_swap_is_posted :
    ∃ built swapTx tipTx,
      buildRaydiumSwap .debug countingKeys 5 1 = .ok built ∧
        (exampleExecutor.executeArbitrage exampleAnswers
            [SwapIx.ofBuilt built] 1000).posted =
          [exampleExecutor.blockhashRequest,
            exampleExecutor.bundleRequest
              [1 :: swapSignature ++ swapMessage,
                1 :: tipSignature ++ tipMessage]] ∧
        Carries tabulatedCurve
          (bs58Encode (1 :: swapSignature ++ swapMessage)) testKey swapTx ∧
        Carries tabulatedCurve
          (bs58Encode (1 :: tipSignature ++ tipMessage)) testKey tipTx ∧
        exampleExecutor.Bundles exampleAnswers [SwapIx.ofBuilt built] 1000
          (List.replicate 32 0) swapTx tipTx := by
  obtain ⟨built, made, fits⟩ := buildRaydiumSwap_fits .debug countingKeys 5 1
  have nineteen : built.1.length = 19 := by
    rw [buildRaydiumSwap] at made
    obtain ⟨ix, -, returned⟩ := Checked.bind_eq_ok.mp made
    cases returned
    rfl
  have few :
      (exampleExecutor.distinctKeys [SwapIx.ofBuilt built]).length ≤ 256 := by
    refine (List.dedup_sublist _).length_le.trans ?_
    simp [SwapIx.ofBuilt, nineteen]
  have answered :
      AnswersBlockhash exampleAnswers (List.replicate 32 0) :=
    ⟨_, rfl, by decide +kernel⟩
  obtain ⟨-, -, posts⟩ :=
    @posted_bundle_carries_swaps tabulatedCurve exampleExecutor
      [SwapIx.ofBuilt built] (List.forall_mem_singleton.mpr fits) few
      (Nat.lt_of_sub_eq_succ rfl) exampleAnswers 1000
  obtain ⟨swapText, tipText, swapTx, tipTx, posted, swap, tip, bundles⟩ :=
    posts rfl _ answered
  have decoded : bs58Decode (getTipAccount 9) = .ok secondTipKey := by
    decide +kernel
  have sent :=
    posted_executeArbitrage 1000 rfl answered (swap_is_collected made) decoded
      rfl
  rw [swap_is_signed, tip_is_signed] at sent
  obtain ⟨rfl, rfl⟩ :
      swapText = bs58Encode (1 :: swapSignature ++ swapMessage) ∧
        tipText = bs58Encode (1 :: tipSignature ++ tipMessage) := by
    simpa [bundleRequest, JsonTree.rpcCall] using posted.symm.trans sent
  exact ⟨built, swapTx, tipTx, made, sent, swap, tip, bundles⟩

end SigningExecutor

end YieldDaemon
