import YieldDaemon.Base58
import YieldDaemon.BundleSubmission

namespace YieldDaemon

open CheckedArithmetic

/-!
# Swap instructions and their transactions

The executor builds swap instructions over a list of accounts, and the monitor
parses the transactions that carry them.  The two agree on Raydium's layout.
The generic builder appends the user's accounts to those of the pool, while the
parser looks for them at fixed positions.
-/

/-- Raydium V4 AMM swap instruction discriminator. -/
def raydiumSwapDiscriminator : List UInt8 :=
  [0x09, 0x00, 0x00, 0x00, 0x00, 0x00, 0x00, 0x00]

/-- Orca Whirlpool swap instruction discriminator (anchor). -/
def orcaSwapDiscriminator : List UInt8 :=
  [0xf8, 0xc6, 0x9e, 0x91, 0xe1, 0x75, 0x87, 0xc8]

/-- Meteora DLMM swap instruction discriminator. -/
def meteoraSwapDiscriminator : List UInt8 :=
  [0xe4, 0x45, 0xa5, 0x2e, 0x51, 0xcb, 0x9a, 0x1d]

/-- Data of a swap: the discriminator and both amounts as u64. -/
def swapData
    (discriminator : List UInt8)
    (amountIn minimumOut : Nat) : List UInt8 :=
  discriminator ++ leBytes 8 amountIn ++ leBytes 8 minimumOut

/-- An instruction of the last account's program over all others in order. -/
def overAccounts
    (profile : Profile)
    (accounts : List Key)
    (data : List UInt8) : Checked SolanaInstruction := do
  let last ← sub profile 64 accounts.length 1
  -- `0..accounts.len() as u8 - 1` casts before it subtracts.
  let count ← sub profile 8 (accounts.length % 256) 1
  return {
    programIdIdx := UInt8.ofNat last
    accountIndices := (List.range count).map UInt8.ofNat
    data := data }

/-- The accounts that a Raydium swap is built from. -/
structure RaydiumKeys where
  ammId : Key
  authority : Key
  openOrders : Key
  targetOrders : Key
  poolCoinToken : Key
  poolPcToken : Key
  serumProgram : Key
  serumMarket : Key
  serumBids : Key
  serumAsks : Key
  serumEventQueue : Key
  serumCoinVault : Key
  serumPcVault : Key
  serumVaultSigner : Key
  userSourceToken : Key
  userDestToken : Key
  userOwner : Key

/-- Raydium V4 program ID -/
def raydiumProgram : Key :=
  decodeAccount "675kPX9MHTjS2zt1qfr1NYHuzeLXfQM9H24wFSUt1Mp8"

/-- SPL Token program, which the builder also reads as zeroes on failure. -/
def tokenProgram : Key :=
  decodeAccount "TokenkegQfeZyiNwAJbNbGKPFXCWuBvf9Ss623VQ5DA"

/-- The accounts of a Raydium swap without its program. -/
def RaydiumKeys.named (keys : RaydiumKeys) : List Key := [
  tokenProgram,
  keys.ammId,
  keys.authority,
  keys.openOrders,
  keys.targetOrders,
  keys.poolCoinToken,
  keys.poolPcToken,
  keys.serumProgram,
  keys.serumMarket,
  keys.serumBids,
  keys.serumAsks,
  keys.serumEventQueue,
  keys.serumCoinVault,
  keys.serumPcVault,
  keys.serumVaultSigner,
  keys.userSourceToken,
  keys.userDestToken,
  keys.userOwner]

theorem RaydiumKeys.length_named (keys : RaydiumKeys) :
    keys.named.length = 18 :=
  rfl

/-- Build a Raydium V4 swap instruction. -/
def buildRaydiumSwap
    (profile : Profile)
    (keys : RaydiumKeys)
    (amountIn minimumAmountOut : Nat) :
    Checked (List Key × SolanaInstruction) := do
  let accounts := keys.named ++ [raydiumProgram]
  let ix ← overAccounts profile accounts
    (swapData raydiumSwapDiscriminator amountIn minimumAmountOut)
  return (accounts, ix)

/-- What the source takes for the first 4 bytes of whirL... -/
def orcaProgramPrefix : List UInt8 :=
  [0x03, 0x78, 0xa4, 0x2e]

/-- What the source takes for the first 4 bytes of LBUZKh... -/
def meteoraProgramPrefix : List UInt8 :=
  [0x02, 0x4e, 0xf3, 0x7d]

/-- Select the correct discriminator for a given AMM program ID. -/
def selectDiscriminator (programId : Key) : List UInt8 :=
  if programId.toList.take 4 = orcaProgramPrefix then
    orcaSwapDiscriminator
  else if programId.toList.take 4 = meteoraProgramPrefix then
    meteoraSwapDiscriminator
  else
    -- Default to Raydium (most common)
    raydiumSwapDiscriminator

/-- Build a swap instruction for any supported AMM. -/
def buildGenericSwap
    (profile : Profile)
    (programId : Key)
    (poolAccounts : List Key)
    (userSource userDest userOwner : Key)
    (amountIn minimumOut : Nat) :
    Checked (List Key × SolanaInstruction) := do
  let accounts :=
    poolAccounts ++ [userSource, userDest, userOwner] ++ [programId]
  let ix ← overAccounts profile accounts
    (swapData (selectDiscriminator programId) amountIn minimumOut)
  return (accounts, ix)

/-- The AMM programs that the daemon monitors by default. -/
def defaultAmmPrograms : List String := [
  "675kPX9MHTjS2zt1qfr1NYHuzeLXfQM9H24wFSUt1Mp8", -- Raydium
  "whirLbMiicVdio4qvUfM5KAg6Ct8VwpYzGff3uctyCc", -- Orca Whirlpool
  "LBUZKhRxPF3XUpBCjp4YzTKgLccjZhTSDM9YuVaPwxo"] -- Meteora

/-- An account name, as a transaction lists it. -/
def encodeAccount (account : Key) : String :=
  bs58Encode account.toList

/-- The transaction with the data of an instruction and the accounts it names. -/
def transactionOf
    (accounts : List Key)
    (ix : SolanaInstruction) : Option MempoolTransaction := do
  let named ← ix.accountIndices.mapM (fun idx => accounts[idx.toNat]?)
  return ⟨named.map encodeAccount, ix.data⟩

section Carried

variable {accounts named : List Key}

/-- Indices that count up name the accounts from the first one on. -/
theorem mapM_range_accounts
    {count : Nat}
    (present : count ≤ accounts.length)
    (small : count ≤ 256) :
    ((List.range count).map UInt8.ofNat).mapM
        (fun idx => accounts[idx.toNat]?) =
      some (accounts.take count) := by
  induction count with
  | zero =>
      rfl
  | succ count inductionHypothesis =>
      have before := inductionHypothesis (by omega) (by omega)
      have here : accounts[(UInt8.ofNat count).toNat]? =
          some accounts[count] := by
        rw [UInt8.toNat_ofNat', Nat.mod_eq_of_lt (by omega)]
        exact List.getElem?_eq_getElem present
      rw [List.range_succ, List.map_append, List.mapM_append, before,
        List.map_singleton, List.mapM_cons, here,
        ← List.take_concat_get' accounts count present]
      rfl

/-- An instruction over few accounts carries all of them but its program. -/
theorem transactionOf_overAccounts
    (profile : Profile)
    (few : named.length < 255)
    (program : Key)
    (data : List UInt8) :
    ∃ ix,
      overAccounts profile (named ++ [program]) data = .ok ix ∧
        transactionOf (named ++ [program]) ix =
          some ⟨named.map encodeAccount, data⟩ := by
  have sized : (named ++ [program]).length = named.length + 1 :=
    List.length_append
  have small : (named ++ [program]).length % 256 = named.length + 1 := by
    rw [sized, Nat.mod_eq_of_lt (by omega)]
  refine ⟨_, by
    rw [overAccounts, small, sized, sub_of_le (by omega),
      sub_of_le (by omega)]
    rfl, ?_⟩
  simp only [transactionOf, Nat.add_sub_cancel]
  rw [mapM_range_accounts (by omega) (by omega), List.take_left]
  rfl

theorem accountAt_encoded (idx : Nat) :
    accountAt (named.map encodeAccount) idx =
      (named[idx]?).getD (Vector.replicate 32 0) := by
  rw [accountAt, List.getElem?_map]
  cases named[idx]? with
  | none =>
      rfl
  | some account =>
      exact decodeAccount_bs58Encode account

section Data

variable (discriminator : List UInt8) (amountIn minimumOut : Nat)

theorem length_swapData :
    (swapData discriminator amountIn minimumOut).length =
      discriminator.length + 16 := by
  simp [swapData, length_leBytes]

variable {discriminator}

theorem swapData_discriminator
    (eight : discriminator.length = 8) :
    (swapData discriminator amountIn minimumOut).take 8 =
      discriminator := by
  rw [swapData, List.append_assoc, List.take_left' eight]

theorem swapData_amountIn
    (eight : discriminator.length = 8) :
    ((swapData discriminator amountIn minimumOut).drop 8).take 8 =
      leBytes 8 amountIn := by
  rw [swapData, List.append_assoc, List.drop_left' eight,
    List.take_left' (length_leBytes 8 amountIn)]

theorem swapData_minimumOut
    (eight : discriminator.length = 8) :
    ((swapData discriminator amountIn minimumOut).drop 16).take 8 =
      leBytes 8 minimumOut := by
  have sixteen : (discriminator ++ leBytes 8 amountIn).length = 16 := by
    rw [List.length_append, eight, length_leBytes]
  rw [swapData, List.drop_left' sixteen,
    List.take_of_length_le (length_leBytes 8 minimumOut).le]

end Data

/-- A layout reads the accounts at its positions and both amounts. -/
theorem SwapLayout.read_swapData
    {layout : SwapLayout}
    {amountIn minimumOut : Nat}
    (eight : layout.discriminator.length = 8)
    (short : layout.dataLen ≤ 24)
    (amountFits : amountIn < 2 ^ 64)
    (minimumFits : minimumOut < 2 ^ 64)
    (enough : layout.accountsLen ≤ named.length) :
    layout.read
        ⟨named.map encodeAccount,
          swapData layout.discriminator amountIn minimumOut⟩ =
      some {
        poolId := (named[layout.poolId]?).getD (Vector.replicate 32 0)
        tokenIn := (named[layout.tokenIn]?).getD (Vector.replicate 32 0)
        tokenOut := (named[layout.tokenOut]?).getD (Vector.replicate 32 0)
        amountIn := amountIn
        minAmountOut := minimumOut
        user := (named[layout.user]?).getD (Vector.replicate 32 0) } := by
  have sized :
      (swapData layout.discriminator amountIn minimumOut).length = 24 := by
    rw [length_swapData, eight]
  have long : ¬ (24 < layout.dataLen ∨
      (named.map encodeAccount).length < layout.accountsLen) := by
    rw [List.length_map]
    omega
  simp only [read, sized, if_neg long, swapData_amountIn _ _ eight,
    swapData_minimumOut _ _ eight, leValue_leBytes, accountAt_encoded,
    Nat.le_refl, if_true]
  have width : 256 ^ 8 = 2 ^ 64 := by norm_num
  rw [width, Nat.mod_eq_of_lt amountFits, Nat.mod_eq_of_lt minimumFits]

/-- Raydium's discriminator leads to Raydium's layout. -/
theorem parseSwapInstruction_raydium
    (accountNames : List String)
    (amountIn minimumOut : Nat) :
    parseSwapInstruction
        ⟨accountNames,
          swapData raydiumSwapDiscriminator amountIn minimumOut⟩ =
      SwapLayout.raydium.read
        ⟨accountNames,
          swapData raydiumSwapDiscriminator amountIn minimumOut⟩ := by
  have long :
      ¬ (swapData raydiumSwapDiscriminator amountIn minimumOut).length <
        8 := by
    rw [length_swapData]
    exact Nat.not_lt.mpr (Nat.le_add_left 8 16)
  have eight : raydiumSwapDiscriminator.length = 8 := rfl
  simp only [parseSwapInstruction, if_neg long,
    swapData_discriminator amountIn minimumOut eight]
  rfl

/--
A Raydium swap is parsed from its transaction as the swap it was built for.
-/
theorem raydium_swap_is_parsed
    (profile : Profile)
    (keys : RaydiumKeys)
    {amountIn minimumAmountOut : Nat}
    (amountFits : amountIn < 2 ^ 64)
    (minimumFits : minimumAmountOut < 2 ^ 64) :
    ∃ accounts ix tx,
      buildRaydiumSwap profile keys amountIn minimumAmountOut =
          .ok (accounts, ix) ∧
        transactionOf accounts ix = some tx ∧
        parseSwapInstruction tx =
          some {
            poolId := keys.ammId
            tokenIn := keys.userSourceToken
            tokenOut := keys.userDestToken
            amountIn := amountIn
            minAmountOut := minimumAmountOut
            user := keys.userOwner } := by
  have few : keys.named.length < 255 := by
    rw [keys.length_named]
    decide
  obtain ⟨ix, built, carried⟩ :=
    transactionOf_overAccounts profile few raydiumProgram
      (swapData raydiumSwapDiscriminator amountIn minimumAmountOut)
  refine ⟨keys.named ++ [raydiumProgram], ix, _, ?_, carried, ?_⟩
  · rw [buildRaydiumSwap, built]
    rfl
  · rw [parseSwapInstruction_raydium]
    exact SwapLayout.read_swapData rfl (by decide) amountFits minimumFits
      keys.length_named.ge

/-- Keys that repeat one byte each, counting up. -/
def countingKeys : RaydiumKeys where
  ammId := Vector.replicate 32 1
  authority := Vector.replicate 32 2
  openOrders := Vector.replicate 32 3
  targetOrders := Vector.replicate 32 4
  poolCoinToken := Vector.replicate 32 5
  poolPcToken := Vector.replicate 32 6
  serumProgram := Vector.replicate 32 7
  serumMarket := Vector.replicate 32 8
  serumBids := Vector.replicate 32 9
  serumAsks := Vector.replicate 32 10
  serumEventQueue := Vector.replicate 32 11
  serumCoinVault := Vector.replicate 32 12
  serumPcVault := Vector.replicate 32 13
  serumVaultSigner := Vector.replicate 32 14
  userSourceToken := Vector.replicate 32 0
  userDestToken := Vector.replicate 32 16
  userOwner := Vector.replicate 32 17

theorem counting_swap_is_parsed :
    ∃ accounts ix tx,
      buildRaydiumSwap .debug countingKeys 1000000 900000 =
          .ok (accounts, ix) ∧
        transactionOf accounts ix = some tx ∧
        parseSwapInstruction tx =
          some {
            poolId := Vector.replicate 32 1
            tokenIn := Vector.replicate 32 0
            tokenOut := Vector.replicate 32 16
            amountIn := 1000000
            minAmountOut := 900000
            user := Vector.replicate 32 17 } :=
  raydium_swap_is_parsed .debug countingKeys (by decide) (by decide)

/-- The parser finds the user's accounts and amounts in the built swap. -/
def RecoversUser
    (profile : Profile)
    (programId : Key)
    (poolAccounts : List Key)
    (userSource userDest userOwner : Key)
    (amountIn minimumOut : Nat) : Prop :=
  ∃ accounts ix tx swap,
    buildGenericSwap profile programId poolAccounts userSource userDest
        userOwner amountIn minimumOut = .ok (accounts, ix) ∧
      transactionOf accounts ix = some tx ∧
      parseSwapInstruction tx = some swap ∧
      swap.amountIn = amountIn ∧
      swap.minAmountOut = minimumOut ∧
      swap.tokenIn = userSource ∧
      swap.tokenOut = userDest ∧
      swap.user = userOwner

/-- The instruction names as many accounts as the layout of its data asks. -/
def LongEnough (programId : Key) (poolAccounts : List Key) : Prop :=
  ∀ layout ∈ [SwapLayout.raydium, SwapLayout.orca, SwapLayout.meteora],
    layout.discriminator = selectDiscriminator programId →
      layout.accountsLen ≤ poolAccounts.length + 3

/--
There are no pool accounts beyond the first 15, or those that there are repeat
the user's accounts.
-/
def UserAccountsInPlace
    (poolAccounts : List Key)
    (userSource userDest userOwner : Key) : Prop :=
  match poolAccounts.drop 15 with
  | [] => True
  | [first] =>
    first = userSource ∧ userSource = userDest ∧ userDest = userOwner
  | [first, second] =>
    first = userSource ∧ second = userDest ∧ userSource = userOwner
  | first :: second :: third :: _ =>
    first = userSource ∧ second = userDest ∧ third = userOwner

/-- No monitored program starts with a prefix of the source. -/
theorem selectDiscriminator_monitored
    {program : String}
    (monitored : program ∈ defaultAmmPrograms) :
    selectDiscriminator (decodeAccount program) =
      raydiumSwapDiscriminator := by
  revert program
  decide +kernel

section Generic

variable
  {poolAccounts : List Key}
  {userSource userDest userOwner : Key}

/-- Raydium's positions hold the user's accounts exactly if these are in place. -/
theorem inPlace_iff
    (enough : 15 ≤ poolAccounts.length)
    (missing : Key) :
    (((poolAccounts ++ [userSource, userDest, userOwner])[15]?).getD
          missing = userSource ∧
        ((poolAccounts ++ [userSource, userDest, userOwner])[16]?).getD
          missing = userDest ∧
        ((poolAccounts ++ [userSource, userDest, userOwner])[17]?).getD
          missing = userOwner) ↔
      UserAccountsInPlace poolAccounts userSource userDest userOwner := by
  have sized : (poolAccounts.take 15).length = 15 :=
    List.length_take_of_le enough
  have position (offset : Nat) :
      (poolAccounts ++ [userSource, userDest, userOwner])[15 + offset]? =
        (poolAccounts.drop 15 ++
          [userSource, userDest, userOwner])[offset]? := by
    rw [← List.take_append_drop 15 poolAccounts, List.append_assoc,
      List.getElem?_append_right (by omega), sized,
      Nat.add_sub_cancel_left, List.take_append_drop]
  rw [position 0, position 1, position 2, UserAccountsInPlace]
  rcases poolAccounts.drop 15 with
    _ | ⟨first, _ | ⟨second, _ | ⟨third, later⟩⟩⟩ <;> simp

/-- A swap with Raydium's discriminator is parsed at Raydium's positions. -/
theorem recoversUser_iff
    (profile : Profile)
    {programId : Key}
    {amountIn minimumOut : Nat}
    (selected : selectDiscriminator programId = raydiumSwapDiscriminator)
    (few : poolAccounts.length ≤ 200)
    (enough : 15 ≤ poolAccounts.length)
    (amountFits : amountIn < 2 ^ 64)
    (minimumFits : minimumOut < 2 ^ 64) :
    RecoversUser profile programId poolAccounts userSource userDest
        userOwner amountIn minimumOut ↔
      UserAccountsInPlace poolAccounts userSource userDest userOwner := by
  have sized :
      (poolAccounts ++ [userSource, userDest, userOwner]).length =
        poolAccounts.length + 3 :=
    List.length_append
  have carriable :
      (poolAccounts ++ [userSource, userDest, userOwner]).length < 255 := by
    omega
  have eighteen :
      18 ≤ (poolAccounts ++ [userSource, userDest, userOwner]).length := by
    omega
  obtain ⟨ix, built, carried⟩ :=
    transactionOf_overAccounts profile carriable programId
      (swapData raydiumSwapDiscriminator amountIn minimumOut)
  have generic :
      buildGenericSwap profile programId poolAccounts userSource userDest
          userOwner amountIn minimumOut =
        .ok (poolAccounts ++ [userSource, userDest, userOwner] ++
          [programId], ix) := by
    rw [buildGenericSwap, selected, built]
    rfl
  have parsed :
      parseSwapInstruction
          ⟨(poolAccounts ++ [userSource, userDest, userOwner]).map
              encodeAccount,
            swapData raydiumSwapDiscriminator amountIn minimumOut⟩ =
        _ :=
    (parseSwapInstruction_raydium _ amountIn minimumOut).trans
      (SwapLayout.read_swapData rfl (by decide) amountFits minimumFits
        eighteen)
  rw [← inPlace_iff enough (Vector.replicate 32 0)]
  constructor
  · rintro ⟨accounts, otherIx, tx, swap, otherBuilt, otherCarried,
      otherParsed, -, -, tokenIn, tokenOut, user⟩
    obtain ⟨rfl, rfl⟩ :=
      Prod.mk.inj (Except.ok.inj (generic.symm.trans otherBuilt))
    obtain rfl := Option.some.inj (carried.symm.trans otherCarried)
    obtain rfl := Option.some.inj (parsed.symm.trans otherParsed)
    exact ⟨tokenIn, tokenOut, user⟩
  · rintro ⟨tokenIn, tokenOut, user⟩
    exact ⟨_, ix, _, _, generic, carried, parsed, rfl, rfl, tokenIn,
      tokenOut, user⟩

/--
For every monitored program the parser finds the user's accounts exactly if
there are 15 pool accounts, or more that repeat them.
-/
theorem generic_swap_recovers_user_iff
    (profile : Profile)
    {program : String}
    {amountIn minimumOut : Nat}
    (monitored : program ∈ defaultAmmPrograms)
    (few : poolAccounts.length ≤ 200)
    (enough : LongEnough (decodeAccount program) poolAccounts)
    (amountFits : amountIn < 2 ^ 64)
    (minimumFits : minimumOut < 2 ^ 64) :
    RecoversUser profile (decodeAccount program) poolAccounts userSource
        userDest userOwner amountIn minimumOut ↔
      UserAccountsInPlace poolAccounts userSource userDest userOwner := by
  have selected := selectDiscriminator_monitored monitored
  have eighteen : 18 ≤ poolAccounts.length + 3 :=
    enough .raydium List.mem_cons_self selected.symm
  exact recoversUser_iff profile selected few (by omega) amountFits
    minimumFits

/-- With 15 pool accounts Orca's swap is read back. -/
theorem fifteen_pool_accounts_are_recovered :
    RecoversUser .debug
      (decodeAccount "whirLbMiicVdio4qvUfM5KAg6Ct8VwpYzGff3uctyCc")
      (List.replicate 15 (Vector.replicate 32 1)) (Vector.replicate 32 2)
      (Vector.replicate 32 3) (Vector.replicate 32 4) 1000000 900000 := by
  have enough :
      LongEnough
        (decodeAccount "whirLbMiicVdio4qvUfM5KAg6Ct8VwpYzGff3uctyCc")
        (List.replicate 15 (Vector.replicate 32 1)) := by
    unfold LongEnough
    decide +kernel
  exact (generic_swap_recovers_user_iff .debug (by decide) (by decide)
    enough (by decide) (by decide)).mpr trivial

/-- With one more pool account the user's accounts are read one off. -/
theorem sixteen_pool_accounts_are_misread :
    "675kPX9MHTjS2zt1qfr1NYHuzeLXfQM9H24wFSUt1Mp8" ∈ defaultAmmPrograms ∧
      LongEnough raydiumProgram
        (List.replicate 16 (Vector.replicate 32 1)) ∧
      ¬ RecoversUser .debug raydiumProgram
        (List.replicate 16 (Vector.replicate 32 1))
        (Vector.replicate 32 2) (Vector.replicate 32 3)
        (Vector.replicate 32 4) 1000000 900000 := by
  have enough :
      LongEnough raydiumProgram
        (List.replicate 16 (Vector.replicate 32 1)) := by
    unfold LongEnough
    decide +kernel
  have selected :
      selectDiscriminator raydiumProgram = raydiumSwapDiscriminator := by
    decide +kernel
  refine ⟨by decide, enough, ?_⟩
  rw [recoversUser_iff .debug selected (by decide) (by decide)
    (by decide) (by decide)]
  intro inPlace
  exact absurd inPlace.1 (by decide)

end Generic

end Carried

end YieldDaemon
