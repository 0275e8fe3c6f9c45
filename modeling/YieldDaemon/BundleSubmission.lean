import YieldDaemon.BundleConstructor

namespace YieldDaemon

open CheckedArithmetic

/-!
# Live submission of a bundle

`submit` turns every serialized swap of a bundle into an instruction and hands
them to the executor, which collects the accounts of all of them into one
transaction and signs it.  A 32-byte array is the list of its bytes, and the
blockhash that the RPC returns is an input.
-/

/-- An instruction, with indices into a list of accounts. -/
structure SolanaInstruction where
  programIdIdx : UInt8
  accountIndices : List UInt8
  data : List UInt8
  deriving DecidableEq

/-- A compact Solana transaction ready for signing. -/
structure SolanaTransaction where
  recentBlockhash : List UInt8
  instructions : List SolanaInstruction
  accountKeys : List (List UInt8)
  numSigners : Nat
  numReadonlySigned : Nat
  numReadonlyUnsigned : Nat
  deriving DecidableEq

/-- An instruction together with the accounts that its indices are about. -/
structure SwapIx where
  accounts : List (List UInt8)
  ix : SolanaInstruction

namespace SwapIx

/-- The program and all accounts are in the instruction's own list. -/
def InRange (swap : SwapIx) : Prop :=
  swap.ix.programIdIdx.toNat < swap.accounts.length ∧
    ∀ idx ∈ swap.ix.accountIndices, idx.toNat < swap.accounts.length

end SwapIx

namespace SolanaTransaction

/-- Some instruction of the transaction uses the account. -/
def References (tx : SolanaTransaction) (key : List UInt8) : Prop :=
  ∃ ix ∈ tx.instructions,
    ∃ idx ∈ ix.accountIndices, tx.accountKeys[idx.toNat]? = some key

end SolanaTransaction

/-- What a submission comes to: no transaction, or one to be signed. -/
inductive Submission where
  | dryRun (signature : String)
  | notConfigured (message : String)
  | signing (swapTx : SolanaTransaction)
  deriving DecidableEq

/-- The live executor: the key that signs, and whether it does. -/
structure LiveExecutor where
  pubkey : List UInt8
  dryRun : Bool

namespace LiveExecutor

/-- Deduplicate accounts. -/
def collectAccounts (allAccounts accounts : List (List UInt8)) :
    List (List UInt8) :=
  accounts.foldl
    (fun all account => if account ∈ all then all else all ++ [account])
    allAccounts

/-- The position of an account of an instruction among all accounts. -/
def remapIndex
    (allAccounts accounts : List (List UInt8))
    (idx : UInt8) : Checked UInt8 := do
  -- The signer is among all accounts, so the search looks the index up.
  let account ← index accounts idx.toNat
  return UInt8.ofNat ((allAccounts.idxOf? account).getD 0)

/-- Collect the accounts of one instruction and remap its indices. -/
def addInstruction
    (collected : List (List UInt8) × List SolanaInstruction)
    (swap : SwapIx) :
    Checked (List (List UInt8) × List SolanaInstruction) := do
  let allAccounts := collectAccounts collected.1 swap.accounts
  let programIdIdx ←
    remapIndex allAccounts swap.accounts swap.ix.programIdIdx
  let accountIndices ←
    swap.ix.accountIndices.mapM (remapIndex allAccounts swap.accounts)
  return (allAccounts,
    collected.2 ++ [⟨programIdIdx, accountIndices, swap.ix.data⟩])

/--
Execute a multi-hop arbitrage as an atomic Jito bundle, up to the signature of
the swap transaction.
-/
def executeArbitrage
    (executor : LiveExecutor)
    (blockhash : List UInt8)
    (swapIxs : List SwapIx) : Checked Submission :=
  if executor.dryRun then
    return .dryRun "DRY_RUN"
  else do
    let (allAccounts, instructions) ←
      swapIxs.foldlM addInstruction ([executor.pubkey], [])
    return .signing
      { recentBlockhash := blockhash
        instructions := instructions
        accountKeys := allAccounts
        numSigners := 1
        numReadonlySigned := 0
        numReadonlyUnsigned := 0 }

end LiveExecutor

namespace BundleConstructor

/-- The instructions that `submit` makes of a bundle without its tip. -/
def swapInstructions (bundle : TransactionBundle) : List SwapIx :=
  ((bundle.transactions.take (bundle.transactions.length - 1)).filter
    (fun txData => 8 ≤ txData.length)).map
      (fun txData => ⟨[], ⟨0, [], txData⟩⟩)

/-- Submit bundle to Jito block engine. -/
def submit
    (bundler : BundleConstructor)
    (executor : Option LiveExecutor)
    (blockhash : List UInt8)
    (bundle : TransactionBundle) : Checked Submission :=
  if bundler.dryRun then
    return .dryRun "DRY_RUN_SIGNATURE"
  else
    match executor with
    | some executor =>
      executor.executeArbitrage blockhash (swapInstructions bundle)
    | none =>
      return .notConfigured
        "Live submission requires a configured executor (keypair + Jito endpoint)"

variable
  {bundler : BundleConstructor}
  {executor : LiveExecutor}
  {route : ArbitrageRoute}
  {optimal : OptimalInput}
  {blockhash : List UInt8}

/-- Every leg becomes an instruction without accounts. -/
theorem swapInstructions_construct :
    swapInstructions (bundler.construct route optimal) =
      route.legs.map (fun leg =>
        ⟨[], ⟨0, [], buildSwapIx leg.poolId leg.tokenIn leg.tokenOut
          optimal.inputAmount⟩⟩) := by
  have allLong :
      ∀ txData ∈ route.legs.map (fun leg =>
          buildSwapIx leg.poolId leg.tokenIn leg.tokenOut
            optimal.inputAmount),
        decide (8 ≤ txData.length) = true := by
    intro txData member
    obtain ⟨leg, -, rfl⟩ := List.mem_map.mp member
    simp [buildSwapIx]
  simp only [swapInstructions, construct]
  rw [List.length_append, List.length_singleton, Nat.add_sub_cancel,
    List.take_left, List.filter_eq_self.mpr allLong, List.map_map]
  rfl

/-- An instruction without accounts is out of range. -/
theorem not_inRange_of_no_accounts
    (ix : SolanaInstruction) :
    ¬ SwapIx.InRange ⟨[], ix⟩ := by
  rintro ⟨program, -⟩
  exact Nat.not_lt_zero _ program

/-- The executor panics at the first instruction without accounts. -/
theorem executeArbitrage_panics
    (executorLive : executor.dryRun = false)
    (ix : SolanaInstruction)
    (later : List SwapIx) :
    executor.executeArbitrage blockhash (⟨[], ix⟩ :: later) =
      .error .indexOutOfRange := by
  rw [LiveExecutor.executeArbitrage, executorLive]
  rfl

/--
A submission that goes as intended: every instruction passed on is in range,
and the transaction to be signed uses the pool of every leg.
-/
structure Submits
    (bundler : BundleConstructor)
    (executor : LiveExecutor)
    (blockhash : List UInt8)
    (route : ArbitrageRoute)
    (optimal : OptimalInput) : Prop where
  inRange :
    ∀ swap ∈ swapInstructions (bundler.construct route optimal), swap.InRange
  signs :
    ∃ swapTx,
      bundler.submit (some executor) blockhash
          (bundler.construct route optimal) = .ok (.signing swapTx) ∧
        ∀ leg ∈ route.legs, swapTx.References leg.poolId

/-- With a leg the live submission panics. -/
theorem submit_panics
    (live : bundler.dryRun = false)
    (executorLive : executor.dryRun = false)
    (someLeg : route.legs ≠ []) :
    bundler.submit (some executor) blockhash
        (bundler.construct route optimal) = .error .indexOutOfRange := by
  rw [submit, live, swapInstructions_construct]
  cases shape : route.legs with
  | nil =>
      exact absurd shape someLeg
  | cons leg legs =>
      exact executeArbitrage_panics executorLive _ _

/-- A live submission goes as intended exactly for a route without legs. -/
theorem submits_iff_no_legs
    {bundler : BundleConstructor}
    {executor : LiveExecutor}
    (live : bundler.dryRun = false)
    (executorLive : executor.dryRun = false)
    (blockhash : List UInt8)
    (route : ArbitrageRoute)
    (optimal : OptimalInput) :
    bundler.Submits executor blockhash route optimal ↔ route.legs = [] := by
  constructor
  · intro submits
    by_contra someLeg
    obtain ⟨swapTx, signing, -⟩ := submits.signs
    rw [submit_panics live executorLive someLeg] at signing
    exact absurd signing nofun
  · intro noLegs
    constructor
    · rw [swapInstructions_construct, noLegs]
      nofun
    · refine ⟨⟨blockhash, [], [executor.pubkey], 1, 0, 0⟩, ?_, ?_⟩
      · rw [submit, live, swapInstructions_construct, noLegs]
        simp only [Bool.false_eq_true, ↓reduceIte]
        rw [LiveExecutor.executeArbitrage, executorLive]
        rfl
      · rw [noLegs]
        nofun

/-- The empty route is submitted. -/
theorem empty_route_is_submitted :
    Submits ⟨false⟩ ⟨List.replicate 32 7, false⟩ (List.replicate 32 9)
      ⟨[], 0⟩ ⟨1000, 0, 0⟩ :=
  (submits_iff_no_legs rfl rfl _ ⟨[], 0⟩ _).mpr rfl

/-- A route of one leg, through the pool of ones. -/
def oneLegRoute : ArbitrageRoute where
  legs :=
    [⟨List.replicate 32 1, List.replicate 32 3, List.replicate 32 4, .xToY⟩]
  expectedProfit := 20000

/-- Its submission panics before anything is signed. -/
theorem one_leg_is_not_submitted :
    submit ⟨false⟩ (some ⟨List.replicate 32 7, false⟩)
        (List.replicate 32 9) (construct ⟨false⟩ oneLegRoute ⟨1000, 0, 0⟩) =
      .error .indexOutOfRange ∧
    ¬ Submits ⟨false⟩ ⟨List.replicate 32 7, false⟩ (List.replicate 32 9)
        oneLegRoute ⟨1000, 0, 0⟩ := by
  refine ⟨submit_panics rfl rfl (List.cons_ne_nil _ _), fun submits => ?_⟩
  have inRange := submits.inRange
  rw [swapInstructions_construct] at inRange
  exact not_inRange_of_no_accounts _ (inRange _ List.mem_cons_self)

end BundleConstructor

end YieldDaemon
