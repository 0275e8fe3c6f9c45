import YieldDaemon.Treasury
import YieldDaemon.LabelledRun

namespace YieldDaemon

open CheckedArithmetic LabelledRun

/-!
# The ledger of the treasury loop

A run of the loop is followed together with the totals that the treasury does
not keep itself: the profit handed to successful consolidations, the
stablecoins ever credited and the amount successfully off-ramped.  No pass
takes consolidated profit out of the revenue it reads next, and no pass takes
an off-ramped amount out of the stablecoin balance.
-/

/-- The treasury state, the last counters read, and the totals of a run. -/
structure TreasuryLedger where
  state : TreasuryState
  zkRevenueSat : Nat
  mevRevenueSat : Nat
  mlRevenueSat : Nat
  consolidated : Nat
  creditedMicro : Nat
  offrampedUsd : ℚ

namespace TreasuryLedger

/-- Before its first pass a loop has read and moved nothing. -/
def start : TreasuryLedger :=
  ⟨TreasuryState.new, 0, 0, 0, 0, 0, 0⟩

/-- The revenue that the last pass read. -/
def earned (ledger : TreasuryLedger) : Nat :=
  ledger.zkRevenueSat + ledger.mevRevenueSat + ledger.mlRevenueSat

/-- Everything ever credited to the stablecoin balance, in USD. -/
def creditedUsd (ledger : TreasuryLedger) : ℚ :=
  ledger.creditedMicro / 1000000

end TreasuryLedger

namespace TreasuryLoop

/-- Whether a swap of the whole profit goes through in this pass. -/
def SwapGoesThrough (loop : TreasuryLoop) (pass : Iteration) : Prop :=
  loop.config.dryRun = true ∨
    (loop.chain = "solana" ∧
      ∃ outAmount,
        TreasuryKeeper.jupiterSwap loop.config pass.jupiter
          pass.totalRev = .ok outAmount)

/-- A pass consolidates successfully: both thresholds and the swap agree. -/
def Consolidates (loop : TreasuryLoop) (pass : Iteration) : Prop :=
  loop.config.consolidationThreshold ≤ pass.totalRev ∧
    loop.keeper.effectiveThreshold loop.f64 loop.config ≤ pass.totalRev ∧
    loop.SwapGoesThrough pass

/-- A consolidation that succeeds hands over the whole profit read. -/
theorem handedOver_of_consolidates
    {loop : TreasuryLoop}
    {pass : Iteration}
    (succeeds : loop.Consolidates pass) :
    (loop.consolidate pass).handedOver = pass.totalRev := by
  obtain ⟨threshold, effective, swap⟩ := succeeds
  have notBelow :
      ¬ pass.totalRev < loop.keeper.effectiveThreshold loop.f64 loop.config :=
    Nat.not_lt.mpr effective
  unfold consolidate TreasuryKeeper.consolidateToStablecoin
  rw [if_pos threshold, if_neg notBelow]
  by_cases dry : loop.config.dryRun = true
  · rw [if_pos dry]
  · obtain ⟨solana, outAmount, swapped⟩ := swap.resolve_left dry
    rw [if_neg dry]
    simp only [solana, ↓reduceIte, swapped]

/-- A pass whose consolidation does not succeed hands over nothing. -/
theorem handedOver_of_not_consolidates
    {loop : TreasuryLoop}
    {pass : Iteration}
    (fails : ¬ loop.Consolidates pass) :
    (loop.consolidate pass).handedOver = 0 := by
  unfold consolidate TreasuryKeeper.consolidateToStablecoin
  by_cases threshold :
      loop.config.consolidationThreshold ≤ pass.totalRev
  · rw [if_pos threshold]
    by_cases below :
        pass.totalRev <
          loop.keeper.effectiveThreshold loop.f64 loop.config
    · rw [if_pos below]
    · rw [if_neg below]
      have noSwap : ¬ loop.SwapGoesThrough pass := fun swap =>
        fails ⟨threshold, Nat.not_lt.mp below, swap⟩
      have live : ¬ loop.config.dryRun = true := fun dry =>
        noSwap (.inl dry)
      rw [if_neg live]
      by_cases solana : loop.chain = "solana"
      · simp only [solana, ↓reduceIte]
        cases swapped :
            TreasuryKeeper.jupiterSwap loop.config pass.jupiter
              pass.totalRev with
        | error reason =>
            rfl
        | ok outAmount =>
            exact absurd (.inr ⟨solana, outAmount, swapped⟩) noSwap
      · simp only [solana, ↓reduceIte, TreasuryKeeper.uniswapSwap]
  · rw [if_neg threshold]

/-- A pass reaches the exchange and its off-ramp returns `Ok`. -/
def OffRamps
    (loop : TreasuryLoop)
    (before : TreasuryState)
    (pass : Iteration) : Prop :=
  ∃ outcome txId,
    loop.offramp (loop.afterConsolidation before pass) pass =
        some outcome ∧
      outcome.result = .ok txId

/-- The USD amount that a pass off-ramps successfully. -/
def offramped
    (loop : TreasuryLoop)
    (before : TreasuryState)
    (pass : Iteration) : ℚ :=
  let state := loop.afterConsolidation before pass
  match loop.offramp state pass with
  | none => 0
  | some outcome =>
    match outcome.result with
    | .ok _ => loop.withdrawAmount state
    | .error _ => 0

theorem offramped_of_offRamps
    {loop : TreasuryLoop}
    {before : TreasuryState}
    {pass : Iteration}
    (succeeds : loop.OffRamps before pass) :
    loop.offramped before pass =
      loop.withdrawAmount (loop.afterConsolidation before pass) := by
  obtain ⟨outcome, txId, called, returned⟩ := succeeds
  simp only [offramped, called, returned]

theorem offramped_of_not_offRamps
    {loop : TreasuryLoop}
    {before : TreasuryState}
    {pass : Iteration}
    (fails : ¬ loop.OffRamps before pass) :
    loop.offramped before pass = 0 := by
  simp only [offramped]
  cases called :
      loop.offramp (loop.afterConsolidation before pass) pass with
  | none =>
      rfl
  | some outcome =>
      cases returned : outcome.result with
      | error reason =>
          simp only [returned]
      | ok txId =>
          exact absurd ⟨outcome, txId, called, returned⟩ fails

/-- Booking an off-ramp leaves the stablecoin balance as it was. -/
theorem afterOfframp_balance
    (loop : TreasuryLoop)
    (state : TreasuryState)
    (pass : Iteration) :
    (loop.afterOfframp state pass).stablecoinBalanceMicro =
      state.stablecoinBalanceMicro := by
  unfold afterOfframp
  cases loop.offramp state pass with
  | none =>
      rfl
  | some outcome =>
      cases returned : outcome.result <;> simp only [returned]

/-- The ledger after one more pass. -/
def advance
    (loop : TreasuryLoop)
    (before : TreasuryLedger)
    (pass : Iteration) : TreasuryLedger where
  state := loop.iterate before.state pass
  zkRevenueSat := pass.zkRevenueSat
  mevRevenueSat := pass.mevRevenueSat
  mlRevenueSat := pass.mlRevenueSat
  consolidated :=
    before.consolidated + (loop.consolidate pass).handedOver
  creditedMicro :=
    before.creditedMicro + (loop.consolidate pass).creditedMicro
  offrampedUsd :=
    before.offrampedUsd + loop.offramped before.state pass

/-- One pass of the loop, over counters that never decrease. -/
def Step
    (loop : TreasuryLoop)
    (before : TreasuryLedger)
    (pass : Iteration)
    (after : TreasuryLedger) : Prop :=
  before.zkRevenueSat ≤ pass.zkRevenueSat ∧
    before.mevRevenueSat ≤ pass.mevRevenueSat ∧
    before.mlRevenueSat ≤ pass.mlRevenueSat ∧
    after = loop.advance before pass

theorem step_deterministic (loop : TreasuryLoop) :
    Deterministic loop.Step := by
  rintro before pass first second
    ⟨-, -, -, rfl⟩ ⟨-, -, -, rfl⟩
  rfl

theorem earned_le_of_step
    {loop : TreasuryLoop}
    {before after : TreasuryLedger}
    {pass : Iteration}
    (step : loop.Step before pass after) :
    before.earned ≤ after.earned := by
  obtain ⟨zk, mev, ml, rfl⟩ := step
  show before.zkRevenueSat + before.mevRevenueSat + before.mlRevenueSat ≤
    pass.zkRevenueSat + pass.mevRevenueSat + pass.mlRevenueSat
  omega

/-- No more profit has been consolidated than was ever earned. -/
def ConsolidatedWithinRevenue (ledger : TreasuryLedger) : Prop :=
  ledger.consolidated ≤ ledger.earned

instance (ledger : TreasuryLedger) :
    Decidable (ConsolidatedWithinRevenue ledger) :=
  inferInstanceAs (Decidable (ledger.consolidated ≤ ledger.earned))

/-- A pass that consolidates some profit is the first one to do so. -/
def FirstConsolidation
    (loop : TreasuryLoop)
    (before : TreasuryLedger)
    (pass : Iteration) : Prop :=
  loop.Consolidates pass → 0 < pass.totalRev → before.consolidated = 0

/-- A first consolidation takes at most the revenue it has just read. -/
theorem consolidatedWithinRevenue_step
    {loop : TreasuryLoop}
    {before after : TreasuryLedger}
    {pass : Iteration}
    (within : ConsolidatedWithinRevenue before)
    (first : loop.FirstConsolidation before pass)
    (step : loop.Step before pass after) :
    ConsolidatedWithinRevenue after := by
  have earned := earned_le_of_step step
  obtain ⟨-, -, -, rfl⟩ := step
  have read : pass.totalRev ≤ (loop.advance before pass).earned :=
    Nat.mod_le _ _
  unfold ConsolidatedWithinRevenue at within ⊢
  show before.consolidated + (loop.consolidate pass).handedOver ≤ _
  by_cases succeeds : loop.Consolidates pass
  · rw [handedOver_of_consolidates succeeds]
    have firstOne := first succeeds
    omega
  · rw [handedOver_of_not_consolidates succeeds]
    omega

/-- Where the counters fit u64, a later consolidation exceeds the revenue. -/
theorem firstConsolidation_of_step
    {loop : TreasuryLoop}
    {before after : TreasuryLedger}
    {pass : Iteration}
    (fits : pass.revenue < 2 ^ 64)
    (step : loop.Step before pass after)
    (within : ConsolidatedWithinRevenue after) :
    loop.FirstConsolidation before pass := by
  obtain ⟨-, -, -, rfl⟩ := step
  intro succeeds _
  have read : (loop.advance before pass).earned = pass.totalRev :=
    (Nat.mod_eq_of_lt fits).symm
  have total :
      before.consolidated + (loop.consolidate pass).handedOver ≤
        (loop.advance before pass).earned := within
  rw [handedOver_of_consolidates succeeds, read] at total
  omega

/--
The profit consolidated in a run stays within the revenue earned if no pass
consolidates profit after another one did, and, where the counters fit u64,
only then.
-/
theorem consolidated_within_revenue_iff_first
    (loop : TreasuryLoop)
    {passes : List Iteration}
    {final : TreasuryLedger}
    (run : Run loop.Step TreasuryLedger.start passes final) :
    (EveryStep loop.Step loop.FirstConsolidation
          TreasuryLedger.start passes →
        EveryState loop.Step ConsolidatedWithinRevenue
          TreasuryLedger.start passes) ∧
      ((∀ pass ∈ passes, pass.revenue < 2 ^ 64) →
        EveryState loop.Step ConsolidatedWithinRevenue
          TreasuryLedger.start passes →
        EveryStep loop.Step loop.FirstConsolidation
          TreasuryLedger.start passes) := by
  constructor
  · intro first
    exact everyState_of_everyStep (fun _ => True)
      (fun _ _ => trivial)
      (fun _ within condition step =>
        consolidatedWithinRevenue_step within condition step)
      trivial (Nat.le_refl 0) first
  · intro fits within
    exact everyStep_of_everyState (fun _ => True)
      loop.step_deterministic (fun _ _ => trivial)
      (fun member _ _ step after =>
        firstConsolidation_of_step (fits _ member) step after)
      run trivial within

/-- A pass that reads a revenue of 1 SOL while every service is down. -/
def oneSolPass : Iteration where
  zkRevenueSat := 1000000000
  mevRevenueSat := 0
  mlRevenueSat := 0
  jupiter := {
    quote := fun _ => .error "offline"
    loadKeypair := fun _ => .error "offline"
    swap := fun _ => .error "offline" }
  respond := fun _ => .error "offline"
  now := 0

/-- The loop of the default configuration, a dry run for Coinbase. -/
def defaultLoop : TreasuryLoop where
  f64 := id
  config := TreasuryConfig.default
  chain := "solana"
  client := {
    exchange := .coinbase
    apiKey := ""
    apiSecret := ""
    bankAccountId := none
    fiatCurrency := "USD"
    dryRun := true }

/-- A pass that reads 0.04 SOL, less than is consolidated. -/
def smallPass : Iteration :=
  { oneSolPass with zkRevenueSat := 40000000 }

/-- The 1 SOL behind a small pass is the first profit to be consolidated. -/
theorem consolidated_within_revenue_two_passes :
    EveryState defaultLoop.Step ConsolidatedWithinRevenue
      TreasuryLedger.start [smallPass, oneSolPass] := by
  have small :
      defaultLoop.Step TreasuryLedger.start smallPass
        (defaultLoop.advance TreasuryLedger.start smallPass) :=
    ⟨by decide, by decide, by decide, rfl⟩
  have whole :
      defaultLoop.Step (defaultLoop.advance TreasuryLedger.start smallPass)
        oneSolPass _ :=
    ⟨by decide, by decide, by decide, rfl⟩
  refine (consolidated_within_revenue_iff_first defaultLoop
    (.cons small (.cons whole (.nil _)))).1 ?_
  refine (EveryStep.cons_iff defaultLoop.step_deterministic small).mpr
    ⟨fun _ _ => rfl, ?_⟩
  refine (EveryStep.cons_iff defaultLoop.step_deterministic whole).mpr
    ⟨fun _ _ => ?_, EveryStep.nil⟩
  -- Nothing has been consolidated before.
  decide +kernel

/-- Two passes over the same 1 SOL consolidate 2 SOL. -/
theorem two_passes_consolidate_twice :
    ¬ EveryState defaultLoop.Step ConsolidatedWithinRevenue
      TreasuryLedger.start [oneSolPass, oneSolPass] := by
  intro within
  have total :=
    within [oneSolPass, oneSolPass] [] _ rfl
      (.cons ⟨by decide, by decide, by decide, rfl⟩
        (.cons ⟨by decide, by decide, by decide, rfl⟩ (.nil _)))
  exact absurd total (by decide +kernel)

/-- No more has been off-ramped than was ever credited. -/
def OfframpedWithinCredit (ledger : TreasuryLedger) : Prop :=
  ledger.offrampedUsd ≤ ledger.creditedUsd

instance (ledger : TreasuryLedger) :
    Decidable (OfframpedWithinCredit ledger) :=
  inferInstanceAs (Decidable (ledger.offrampedUsd ≤ ledger.creditedUsd))

/--
A pass off-ramps only when nothing was off-ramped before it, or when the cap of
one off-ramp is at most what has been credited and not been off-ramped yet.
-/
def CoveredOfframp
    (loop : TreasuryLoop)
    (before : TreasuryLedger)
    (pass : Iteration) : Prop :=
  loop.OffRamps before.state pass →
    before.offrampedUsd ≤ 0 ∨
      loop.config.maxOfframpUsd ≤
        (loop.advance before pass).creditedUsd - before.offrampedUsd

/-- The balance is taken down by what a pass off-ramped. -/
def DebitsWithdrawal
    (loop : TreasuryLoop)
    (before : TreasuryState)
    (pass : Iteration) : Prop :=
  loop.stableUsd (loop.iterate before pass) =
    loop.stableUsd (loop.afterConsolidation before pass) -
      loop.withdrawAmount (loop.afterConsolidation before pass)

/-- The stablecoin balance is the u64 total of all credits. -/
def BalanceIsCredit (ledger : TreasuryLedger) : Prop :=
  ledger.state.stablecoinBalanceMicro = ledger.creditedMicro % 2 ^ 64

theorem afterConsolidation_balance
    {loop : TreasuryLoop}
    {before : TreasuryLedger}
    {pass : Iteration}
    (balance : BalanceIsCredit before) :
    (loop.afterConsolidation before.state pass).stablecoinBalanceMicro =
      (loop.advance before pass).creditedMicro % 2 ^ 64 := by
  show fetchAdd before.state.stablecoinBalanceMicro
      (loop.consolidate pass).creditedMicro =
    (before.creditedMicro + (loop.consolidate pass).creditedMicro) % 2 ^ 64
  rw [balance, fetchAdd, Nat.mod_add_mod]

theorem balanceIsCredit_step
    {loop : TreasuryLoop}
    {before after : TreasuryLedger}
    {pass : Iteration}
    (balance : BalanceIsCredit before)
    (step : loop.Step before pass after) :
    BalanceIsCredit after := by
  obtain ⟨-, -, -, rfl⟩ := step
  exact (loop.afterOfframp_balance _ pass).trans
    (afterConsolidation_balance balance)

/-- The balance never shows more than was credited. -/
theorem stableUsd_le_credited
    {loop : TreasuryLoop}
    (exactAmounts : loop.f64 = id)
    {before : TreasuryLedger}
    (pass : Iteration)
    (balance : BalanceIsCredit before) :
    loop.stableUsd (loop.afterConsolidation before.state pass) ≤
      (loop.advance before pass).creditedUsd := by
  have wrapped :
      (loop.afterConsolidation before.state pass).stablecoinBalanceMicro ≤
        (loop.advance before pass).creditedMicro := by
    rw [afterConsolidation_balance balance]
    exact Nat.mod_le _ _
  simp only [stableUsd, exactAmounts, id_eq, TreasuryLedger.creditedUsd]
  gcongr

/-- Where the credits fit u64, the balance shows all of them. -/
theorem stableUsd_eq_credited
    {loop : TreasuryLoop}
    (exactAmounts : loop.f64 = id)
    {before : TreasuryLedger}
    {pass : Iteration}
    (balance : BalanceIsCredit before)
    (fits : (loop.advance before pass).creditedMicro < 2 ^ 64) :
    loop.stableUsd (loop.afterConsolidation before.state pass) =
      (loop.advance before pass).creditedUsd := by
  simp only [stableUsd, exactAmounts, id_eq, TreasuryLedger.creditedUsd,
    afterConsolidation_balance balance, Nat.mod_eq_of_lt fits]

theorem creditedUsd_le_advance
    (loop : TreasuryLoop)
    (before : TreasuryLedger)
    (pass : Iteration) :
    before.creditedUsd ≤ (loop.advance before pass).creditedUsd := by
  have grows :
      before.creditedMicro ≤ (loop.advance before pass).creditedMicro :=
    Nat.le_add_right _ _
  simp only [TreasuryLedger.creditedUsd]
  gcongr

/-- A covered off-ramp stays within the credits. -/
theorem offrampedWithinCredit_step
    {loop : TreasuryLoop}
    (exactAmounts : loop.f64 = id)
    {before after : TreasuryLedger}
    {pass : Iteration}
    (balance : BalanceIsCredit before)
    (within : OfframpedWithinCredit before)
    (covered : loop.CoveredOfframp before pass)
    (step : loop.Step before pass after) :
    OfframpedWithinCredit after := by
  obtain ⟨-, -, -, rfl⟩ := step
  unfold OfframpedWithinCredit at within ⊢
  show before.offrampedUsd + loop.offramped before.state pass ≤ _
  by_cases succeeds : loop.OffRamps before.state pass
  · rw [offramped_of_offRamps succeeds]
    have shown := stableUsd_le_credited exactAmounts pass balance
    have atMostBalance :
        loop.withdrawAmount
            (loop.afterConsolidation before.state pass) ≤
          loop.stableUsd (loop.afterConsolidation before.state pass) :=
      min_le_left _ _
    have atMostCap :
        loop.withdrawAmount
            (loop.afterConsolidation before.state pass) ≤
          loop.config.maxOfframpUsd :=
      min_le_right _ _
    rcases covered succeeds with nothingYet | capCovered
    · linarith
    · linarith
  · rw [offramped_of_not_offRamps succeeds, add_zero]
    exact within.trans (loop.creditedUsd_le_advance before pass)

/--
Where the credits fit u64, an off-ramp that stays within them was either the
first or capped by what was left.
-/
theorem coveredOfframp_of_step
    {loop : TreasuryLoop}
    (exactAmounts : loop.f64 = id)
    {before after : TreasuryLedger}
    {pass : Iteration}
    (balance : BalanceIsCredit before)
    (step : loop.Step before pass after)
    (fits : after.creditedMicro < 2 ^ 64)
    (within : OfframpedWithinCredit after) :
    loop.CoveredOfframp before pass := by
  obtain ⟨-, -, -, rfl⟩ := step
  intro succeeds
  have total :
      before.offrampedUsd + loop.offramped before.state pass ≤
        (loop.advance before pass).creditedUsd := within
  rw [offramped_of_offRamps succeeds, withdrawAmount,
    stableUsd_eq_credited exactAmounts balance fits] at total
  rcases le_or_gt before.offrampedUsd 0 with nothingYet | some
  · exact .inl nothingYet
  · right
    rcases min_choice (loop.advance before pass).creditedUsd
        loop.config.maxOfframpUsd with balanceTaken | capTaken
    · rw [balanceTaken] at total
      linarith
    · rw [capTaken] at total
      linarith

/-- No off-ramp debits the balance, so only a withdrawal of zero agrees. -/
theorem debitsWithdrawal_iff
    (loop : TreasuryLoop)
    (before : TreasuryState)
    (pass : Iteration) :
    loop.DebitsWithdrawal before pass ↔
      loop.withdrawAmount (loop.afterConsolidation before pass) = 0 := by
  have unchanged :
      loop.stableUsd (loop.iterate before pass) =
        loop.stableUsd (loop.afterConsolidation before pass) := by
    simp only [stableUsd, iterate, loop.afterOfframp_balance]
  unfold DebitsWithdrawal
  rw [unchanged]
  constructor
  · intro debited
    linarith
  · intro nothing
    rw [nothing, sub_zero]

/-- A pass that off-ramps successfully withdraws nothing. -/
def WithdrawsNothing
    (loop : TreasuryLoop)
    (before : TreasuryLedger)
    (pass : Iteration) : Prop :=
  loop.OffRamps before.state pass →
    loop.withdrawAmount (loop.afterConsolidation before.state pass) = 0

/-- Without withdrawals no more is off-ramped. -/
theorem offrampedWithinCredit_of_withdrawsNothing
    {loop : TreasuryLoop}
    {before after : TreasuryLedger}
    {pass : Iteration}
    (within : OfframpedWithinCredit before)
    (nothing : loop.WithdrawsNothing before pass)
    (step : loop.Step before pass after) :
    OfframpedWithinCredit after := by
  obtain ⟨-, -, -, rfl⟩ := step
  have unchanged : loop.offramped before.state pass = 0 := by
    by_cases succeeds : loop.OffRamps before.state pass
    · rw [offramped_of_offRamps succeeds, nothing succeeds]
    · exact offramped_of_not_offRamps succeeds
  unfold OfframpedWithinCredit at within ⊢
  show before.offrampedUsd + loop.offramped before.state pass ≤ _
  rw [unchanged, add_zero]
  exact within.trans (loop.creditedUsd_le_advance before pass)

/--
A run debits every successful off-ramp and stays within the credits exactly if
every off-ramp withdraws nothing.  The off-ramped total alone stays within the
credits if every off-ramp is covered, and, where the credits fit u64, only then.
-/
theorem offramped_within_credit_iff_covered
    (loop : TreasuryLoop)
    (exactAmounts : loop.f64 = id)
    {passes : List Iteration}
    {final : TreasuryLedger}
    (run : Run loop.Step TreasuryLedger.start passes final) :
    (EveryStep loop.Step
            (fun before pass =>
              loop.OffRamps before.state pass →
                loop.DebitsWithdrawal before.state pass)
            TreasuryLedger.start passes ∧
          EveryState loop.Step OfframpedWithinCredit
            TreasuryLedger.start passes ↔
        EveryStep loop.Step loop.WithdrawsNothing
          TreasuryLedger.start passes) ∧
      (EveryStep loop.Step loop.CoveredOfframp
            TreasuryLedger.start passes →
          EveryState loop.Step OfframpedWithinCredit
            TreasuryLedger.start passes) ∧
      (EveryState loop.Step (fun ledger => ledger.creditedMicro < 2 ^ 64)
            TreasuryLedger.start passes →
          EveryState loop.Step OfframpedWithinCredit
            TreasuryLedger.start passes →
          EveryStep loop.Step loop.CoveredOfframp
            TreasuryLedger.start passes) ∧
      ∀ before pass,
        loop.OffRamps before pass →
        (loop.DebitsWithdrawal before pass ↔
          loop.withdrawAmount (loop.afterConsolidation before pass) = 0) := by
  have noCredit : OfframpedWithinCredit TreasuryLedger.start :=
    show (0 : ℚ) ≤ ((0 : ℕ) : ℚ) / 1000000 by norm_num
  have debits_iff :
      EveryStep loop.Step
          (fun before pass =>
            loop.OffRamps before.state pass →
              loop.DebitsWithdrawal before.state pass)
          TreasuryLedger.start passes ↔
        EveryStep loop.Step loop.WithdrawsNothing
          TreasuryLedger.start passes :=
    EveryStep.congr fun _ pass _ before _ _ =>
      imp_congr_right fun _ => loop.debitsWithdrawal_iff before.state pass
  refine ⟨⟨fun both => debits_iff.mp both.1, fun nothing =>
      ⟨debits_iff.mpr nothing, ?_⟩⟩, ?_, ?_,
    fun before pass _ => loop.debitsWithdrawal_iff before pass⟩
  · exact everyState_of_everyStep (fun _ => True) (fun _ _ => trivial)
      (fun _ within condition step =>
        offrampedWithinCredit_of_withdrawsNothing within condition step)
      trivial noCredit nothing
  · intro covered
    exact everyState_of_everyStep BalanceIsCredit
      (fun balance step => balanceIsCredit_step balance step)
      (fun balance within condition step =>
        offrampedWithinCredit_step exactAmounts balance within condition
          step)
      rfl noCredit covered
  · intro fits within
    have both :
        EveryState loop.Step
          (fun ledger =>
            ledger.creditedMicro < 2 ^ 64 ∧ OfframpedWithinCredit ledger)
          TreasuryLedger.start passes :=
      fun earlier later reached split prefixRun =>
        ⟨fits earlier later reached split prefixRun,
          within earlier later reached split prefixRun⟩
    exact everyStep_of_everyState BalanceIsCredit
      loop.step_deterministic
      (fun balance step => balanceIsCredit_step balance step)
      (fun _ balance _ step after =>
        coveredOfframp_of_step exactAmounts balance step after.1 after.2)
      run rfl both

/-- The default loop, with at most 100 USD for one off-ramp. -/
def cappedLoop : TreasuryLoop :=
  { defaultLoop with
    config := { TreasuryConfig.default with maxOfframpUsd := 100 } }

/-- Two passes over 1 SOL off-ramp 200 of 300 USD credited. -/
theorem offramped_within_credit_two_passes :
    EveryState cappedLoop.Step OfframpedWithinCredit
      TreasuryLedger.start [oneSolPass, oneSolPass] := by
  have first :
      cappedLoop.Step TreasuryLedger.start oneSolPass
        (cappedLoop.advance TreasuryLedger.start oneSolPass) :=
    ⟨by decide, by decide, by decide, rfl⟩
  have second :
      cappedLoop.Step (cappedLoop.advance TreasuryLedger.start oneSolPass)
        oneSolPass _ :=
    ⟨by decide, by decide, by decide, rfl⟩
  refine (offramped_within_credit_iff_covered cappedLoop rfl
    (.cons first (.cons second (.nil _)))).2.1 ?_
  refine (EveryStep.cons_iff cappedLoop.step_deterministic first).mpr
    ⟨fun _ => .inl le_rfl, ?_⟩
  refine (EveryStep.cons_iff cappedLoop.step_deterministic second).mpr
    ⟨fun _ => .inr ?_, EveryStep.nil⟩
  -- The cap of 100 is covered by the 200 that are left.
  decide +kernel

/-- Two passes over 1 SOL off-ramp 150 and 300 USD of 300 USD credited. -/
theorem two_passes_offramp_undebited_balance :
    ¬ EveryState defaultLoop.Step OfframpedWithinCredit
      TreasuryLedger.start [oneSolPass, oneSolPass] := by
  intro within
  have total :=
    within [oneSolPass, oneSolPass] [] _ rfl
      (.cons ⟨by decide, by decide, by decide, rfl⟩
        (.cons ⟨by decide, by decide, by decide, rfl⟩ (.nil _)))
  exact absurd total (by decide +kernel)

end TreasuryLoop

end YieldDaemon
