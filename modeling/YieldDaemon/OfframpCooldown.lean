import YieldDaemon.PacedLog
import YieldDaemon.TreasuryLedger

namespace YieldDaemon

open LabelledRun

/-!
# Cooldown of the off-ramp

The keeper is built with a cooldown of two check intervals, the minimum time
between off-ramp cycles, but no pass of the treasury loop reads it.  The passes
are followed here on a clock that advances by the check interval, together with
the times of the successful off-ramps.
-/

/-- The treasury state with the clock and the times of the off-ramps. -/
structure TimedTreasury where
  state : TreasuryState
  log : PacedLog.Log

namespace TreasuryLoop

instance (loop : TreasuryLoop) (before : TreasuryState) (pass : Iteration) :
    Decidable (loop.OffRamps before pass) :=
  match called :
      loop.offramp (loop.afterConsolidation before pass) pass with
  | none => .isFalse (fun ⟨_, _, calls, _⟩ => nomatch called.symm.trans calls)
  | some outcome =>
    match returned : outcome.result with
    | .ok txId => .isTrue ⟨outcome, txId, called, returned⟩
    | .error _ =>
      .isFalse (fun ⟨_, _, calls, returns⟩ => by
        obtain rfl := Option.some.inj (called.symm.trans calls)
        exact nomatch returned.symm.trans returns)

/-- One pass at the time of the clock, and the sleep after it. -/
def TimedStep
    (loop : TreasuryLoop)
    (before : TimedTreasury)
    (pass : Iteration)
    (after : TimedTreasury) :
    Prop :=
  pass.now = before.log.now ∧
    after = {
      state := loop.iterate before.state pass
      log :=
        before.log.tick loop.config.checkIntervalSecs
          (loop.OffRamps before.state pass) }

/-- No off-ramp one interval after another, unless the cooldown is that short. -/
def NotTooSoon
    (loop : TreasuryLoop)
    (before : TimedTreasury)
    (pass : Iteration) :
    Prop :=
  loop.OffRamps before.state pass →
    loop.keeper.cooldownSecs ≤ loop.config.checkIntervalSecs ∨
      ∀ earlier ∈ before.log.events,
        earlier + loop.config.checkIntervalSecs ≠ before.log.now

/-- Each two successful off-ramps are at least the cooldown apart. -/
def CooledDown (loop : TreasuryLoop) (timed : TimedTreasury) : Prop :=
  timed.log.Spaced loop.keeper.cooldownSecs

variable {loop : TreasuryLoop}

theorem timedStep_deterministic (loop : TreasuryLoop) :
    Deterministic loop.TimedStep := by
  rintro before pass first second ⟨-, rfl⟩ ⟨-, rfl⟩
  rfl

/-- The cooldown is at most the two intervals that it is computed from. -/
theorem cooldownSecs_le (loop : TreasuryLoop) :
    loop.keeper.cooldownSecs ≤ 2 * loop.config.checkIntervalSecs := by
  rw [Nat.mul_comm]
  exact Nat.mod_le _ _

/-- Every off-ramp was a whole number of intervals ago. -/
theorem paced_timedStep
    {before after : TimedTreasury}
    {pass : Iteration}
    (paced : before.log.Paced loop.config.checkIntervalSecs)
    (step : loop.TimedStep before pass after) :
    after.log.Paced loop.config.checkIntervalSecs := by
  obtain ⟨-, rfl⟩ := step
  exact PacedLog.Log.paced_tick paced

/-- A pass keeps the cooldown when it does not off-ramp too soon. -/
theorem cooledDown_timedStep
    {before after : TimedTreasury}
    {pass : Iteration}
    (paced : before.log.Paced loop.config.checkIntervalSecs)
    (cooledDown : loop.CooledDown before)
    (step : loop.TimedStep before pass after) :
    loop.CooledDown after ↔ loop.NotTooSoon before pass := by
  obtain ⟨-, rfl⟩ := step
  exact PacedLog.Log.spaced_tick_iff paced loop.cooldownSecs_le cooledDown

/--
In a run the off-ramps keep the cooldown exactly when no pass off-ramps
directly after a pass that did, or one interval is as long as the cooldown.
-/
theorem cooledDown_iff_notTooSoon
    (loop : TreasuryLoop)
    (state : TreasuryState)
    (startTime : Nat)
    {passes : List Iteration}
    {final : TimedTreasury}
    (run : Run loop.TimedStep ⟨state, ⟨startTime, []⟩⟩ passes final) :
    EveryState loop.TimedStep loop.CooledDown
        ⟨state, ⟨startTime, []⟩⟩ passes ↔
      EveryStep loop.TimedStep loop.NotTooSoon
        ⟨state, ⟨startTime, []⟩⟩ passes :=
  everyState_iff_everyStep
    (fun timed => timed.log.Paced loop.config.checkIntervalSecs)
    loop.timedStep_deterministic
    paced_timedStep
    cooledDown_timedStep
    run
    (fun _ member => absurd member List.not_mem_nil)
    .nil

/-- A live loop that off-ramps whatever balance there is. -/
def liveLoop : TreasuryLoop where
  f64 := id
  config := {
    TreasuryConfig.default with
    offrampThresholdUsd := 0
    exchangeApiKey := some "key"
    exchangeApiSecret := some "secret"
    bankAccountId := some "bank"
    dryRun := false }
  chain := "solana"
  client := {
    exchange := .coinbase
    apiKey := "key"
    apiSecret := "secret"
    bankAccountId := some "bank"
    fiatCurrency := "USD"
    dryRun := false }

/-- A pass whose requests to the exchange are accepted. -/
def acceptedPass (now : Nat) : Iteration :=
  { oneSolPass with respond := fun _ => .ok (some "order"), now := now }

/-- A pass whose requests to the exchange fail. -/
def refusedPass (now : Nat) : Iteration :=
  { oneSolPass with now := now }

/-- Where the second of three passes is refused, the cooldown is kept. -/
theorem cooledDown_three_passes :
    EveryState liveLoop.TimedStep liveLoop.CooledDown
      ⟨TreasuryState.new, ⟨0, []⟩⟩
      [acceptedPass 0, refusedPass 300, acceptedPass 600] := by
  refine (cooledDown_iff_notTooSoon liveLoop TreasuryState.new 0
    (.cons ⟨rfl, rfl⟩
      (.cons ⟨rfl, rfl⟩ (.cons ⟨rfl, rfl⟩ (.nil _))))).mpr ?_
  refine (EveryStep.cons_iff liveLoop.timedStep_deterministic
    ⟨rfl, rfl⟩).mpr ⟨?first, ?_⟩
  case first =>
    exact fun _ => .inr (fun _ member => absurd member List.not_mem_nil)
  refine (EveryStep.cons_iff liveLoop.timedStep_deterministic
    ⟨rfl, rfl⟩).mpr ⟨?refused, ?_⟩
  case refused =>
    exact fun offRamps => absurd offRamps (by decide +kernel)
  refine (EveryStep.cons_iff liveLoop.timedStep_deterministic
    ⟨rfl, rfl⟩).mpr ⟨?last, EveryStep.nil⟩
  case last =>
    -- The only off-ramp before is 600 seconds old.
    exact fun _ => .inr (by decide +kernel)

/-- Two passes over 1 SOL off-ramp 300 of the 600 seconds apart. -/
theorem two_passes_are_not_cooled_down :
    ¬ EveryState defaultLoop.TimedStep defaultLoop.CooledDown
      ⟨TreasuryState.new, ⟨0, []⟩⟩
      [oneSolPass, { oneSolPass with now := 300 }] := by
  intro cooledDown
  have spaced :=
    cooledDown [oneSolPass, { oneSolPass with now := 300 }] [] _ rfl
      (.cons ⟨rfl, rfl⟩ (.cons ⟨rfl, rfl⟩ (.nil _)))
  unfold CooledDown PacedLog.Log.Spaced at spaced
  exact absurd spaced (by decide +kernel)

end TreasuryLoop

end YieldDaemon
