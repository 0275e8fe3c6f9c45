import YieldDaemon.Treasury

namespace YieldDaemon

/-!
# Exposure on the exchange

An off-ramp sells first and withdraws second, and an error between the two
leaves the proceeds of the sell on the exchange.  The client keeps no record of
such a sell and a later call starts with a sell of its own.  The amount sold
but not withdrawn is followed here over the requests of any sequence of calls.
-/

/-- A request with its success. -/
abbrev ApiEvent := ApiCall × Bool

namespace ApiEvent

/-- The amount that a request adds to what is sold but not withdrawn. -/
def outstanding : ApiEvent → ℚ
  | (.sell _ _ amountUsd, true) => amountUsd
  | (.withdraw _ _ _ amountUsd, true) => -amountUsd
  | (_, false) => 0

/-- The amount of a withdrawal that failed. -/
def strandedUsd : ApiEvent → ℚ
  | (.withdraw _ _ _ amountUsd, false) => amountUsd
  | _ => 0

/-- Whether a request is a withdrawal that failed. -/
def isFailedWithdrawal : ApiEvent → Bool
  | (.withdraw _ _ _ _, false) => true
  | _ => false

end ApiEvent

namespace ApiTrace

/-- The amount sold on the exchange but not yet withdrawn to the bank. -/
def soldNotWithdrawn (trace : List ApiEvent) : ℚ :=
  (trace.map ApiEvent.outstanding).sum

/-- The amounts of all withdrawals that failed. -/
def strandedUsd (trace : List ApiEvent) : ℚ :=
  (trace.map ApiEvent.strandedUsd).sum

/-- The number of withdrawals that failed. -/
def failedWithdrawals (trace : List ApiEvent) : Nat :=
  trace.countP ApiEvent.isFailedWithdrawal

/-- The last request is a successful sell, whose withdrawal comes next. -/
def AwaitsWithdrawal (trace : List ApiEvent) : Prop :=
  ∃ earlier path market amountUsd,
    trace = earlier ++ [(.sell path market amountUsd, true)]

/-- Every withdrawal follows a successful sell of the same amount at once. -/
def WithdrawsOnlyItsSell (trace : List ApiEvent) : Prop :=
  ∀ earlier later path currency bankAccount amountUsd succeeded,
    trace = earlier ++
      (.withdraw path currency bankAccount amountUsd, succeeded) :: later →
    ∃ before sellPath market,
      earlier = before ++ [(.sell sellPath market amountUsd, true)]

/-- At most one cap per failed withdrawal, and one more while a sell waits. -/
def WithinExposure (maxUsd : ℚ) (trace : List ApiEvent) : Prop :=
  soldNotWithdrawn trace ≤ maxUsd * failedWithdrawals trace ∨
    (AwaitsWithdrawal trace ∧
      soldNotWithdrawn trace ≤ maxUsd * (failedWithdrawals trace + 1))

@[simp] theorem soldNotWithdrawn_append (first second : List ApiEvent) :
    soldNotWithdrawn (first ++ second) =
      soldNotWithdrawn first + soldNotWithdrawn second := by
  simp [soldNotWithdrawn]

@[simp] theorem strandedUsd_append (first second : List ApiEvent) :
    strandedUsd (first ++ second) =
      strandedUsd first + strandedUsd second := by
  simp [strandedUsd]

@[simp] theorem failedWithdrawals_append (first second : List ApiEvent) :
    failedWithdrawals (first ++ second) =
      failedWithdrawals first + failedWithdrawals second := by
  simp [failedWithdrawals]

/-- A prefix of a trace ends within its first part or after it. -/
theorem prefix_append_cases
    {earlier first second : List ApiEvent}
    (isEarlier : earlier <+: first ++ second) :
    earlier <+: first ∨
      ∃ later, later <+: second ∧ earlier = first ++ later := by
  obtain ⟨rest, shape⟩ := isEarlier
  rcases List.append_eq_append_iff.mp shape with
    ⟨between, rfl, -⟩ | ⟨later, rfl, rfl⟩
  · exact .inl (List.prefix_append earlier between)
  · exact .inr ⟨later, List.prefix_append later rest, rfl⟩

/-- Withdrawals that follow their own sells do so in a longer trace. -/
theorem WithdrawsOnlyItsSell.append
    {first second : List ApiEvent}
    (firstPaired : WithdrawsOnlyItsSell first)
    (secondPaired : WithdrawsOnlyItsSell second) :
    WithdrawsOnlyItsSell (first ++ second) := by
  intro earlier later path currency bankAccount amountUsd succeeded shape
  rcases List.append_eq_append_iff.mp shape with
    ⟨between, rfl, split⟩ | ⟨between, split, reached⟩
  · obtain ⟨before, sellPath, market, rfl⟩ :=
      secondPaired between later path currency bankAccount amountUsd
        succeeded split
    exact ⟨first ++ before, sellPath, market,
      (List.append_assoc _ _ _).symm⟩
  · rcases between with _ | ⟨event, between⟩
    · obtain ⟨before, sellPath, market, impossible⟩ :=
        secondPaired [] later path currency bankAccount amountUsd succeeded
          (by simpa using reached.symm)
      simp at impossible
    · obtain ⟨rfl, rfl⟩ := List.cons.inj reached
      exact firstPaired earlier between path currency bankAccount amountUsd
        succeeded split

end ApiTrace

/-- The three courses that a live off-ramp of an amount can take. -/
inductive CallRequests (amountUsd : ℚ) : List ApiEvent → Prop where
  | sellFailed (path market : String) :
      CallRequests amountUsd [(.sell path market amountUsd, false)]
  | stranded (path market withdrawPath currency bankAccount : String) :
      CallRequests amountUsd
        [(.sell path market amountUsd, true),
          (.withdraw withdrawPath currency bankAccount amountUsd, false)]
  | completed (path market withdrawPath currency bankAccount : String) :
      CallRequests amountUsd
        [(.sell path market amountUsd, true),
          (.withdraw withdrawPath currency bankAccount amountUsd, true)]

namespace CallRequests

open ApiTrace

variable {amountUsd maxUsd : ℚ} {requests : List ApiEvent}

/-- A finished call leaves its amount outstanding only if it stranded it. -/
theorem soldNotWithdrawn_eq
    (call : CallRequests amountUsd requests) :
    soldNotWithdrawn requests = strandedUsd requests := by
  cases call <;>
    simp [soldNotWithdrawn, strandedUsd, ApiEvent.outstanding,
      ApiEvent.strandedUsd]

/-- A call strands its amount at most once. -/
theorem strandedUsd_le
    (call : CallRequests amountUsd requests)
    (capped : amountUsd ≤ maxUsd) :
    strandedUsd requests ≤ maxUsd * failedWithdrawals requests := by
  cases call <;>
    simp [strandedUsd, failedWithdrawals, ApiEvent.strandedUsd,
      ApiEvent.isFailedWithdrawal, capped]

/-- Within a call only the sell itself is outstanding. -/
theorem withinExposure_prefix
    (call : CallRequests amountUsd requests)
    (capped : amountUsd ≤ maxUsd)
    {earlier : List ApiEvent}
    (isEarlier : earlier <+: requests) :
    WithinExposure maxUsd earlier := by
  have finished : WithinExposure maxUsd requests :=
    .inl (call.soldNotWithdrawn_eq.trans_le (call.strandedUsd_le capped))
  have untouched : WithinExposure maxUsd [] :=
    .inl (by simp [soldNotWithdrawn, failedWithdrawals])
  have selling (path market : String) :
      WithinExposure maxUsd [(.sell path market amountUsd, true)] := by
    refine .inr ⟨⟨[], path, market, amountUsd, rfl⟩, ?_⟩
    simpa [soldNotWithdrawn, failedWithdrawals, ApiEvent.outstanding,
      ApiEvent.isFailedWithdrawal] using capped
  cases call with
  | sellFailed path market =>
      rcases List.prefix_cons_iff.mp isEarlier with rfl | ⟨rest, rfl, tail⟩
      · exact untouched
      · obtain rfl := List.prefix_nil.mp tail
        exact finished
  | stranded path market withdrawPath currency bankAccount
  | completed path market withdrawPath currency bankAccount =>
      rcases List.prefix_cons_iff.mp isEarlier with rfl | ⟨rest, rfl, tail⟩
      · exact untouched
      · rcases List.prefix_cons_iff.mp tail with rfl | ⟨last, rfl, nothing⟩
        · exact selling path market
        · obtain rfl := List.prefix_nil.mp nothing
          exact finished

/-- Within a call the withdrawal follows the sell of the same amount. -/
theorem withdrawsOnlyItsSell
    (call : CallRequests amountUsd requests) :
    WithdrawsOnlyItsSell requests := by
  intro earlier later path currency bankAccount amount succeeded shape
  cases call with
  | sellFailed sellPath market =>
      rcases earlier with _ | ⟨head, earlier⟩
      · simp at shape
      · simp at shape
  | stranded sellPath market withdrawPath account bank
  | completed sellPath market withdrawPath account bank =>
      rcases earlier with _ | ⟨head, _ | ⟨second, earlier⟩⟩
      · simp at shape
      · simp only [List.cons_append, List.nil_append, List.cons.injEq,
          Prod.mk.injEq, ApiCall.withdraw.injEq] at shape
        obtain ⟨rfl, ⟨⟨-, -, -, rfl⟩, -⟩, -⟩ := shape
        exact ⟨[], sellPath, market, rfl⟩
      · simp at shape

end CallRequests

/-- One call of `execute_offramp` and the exchange that it meets. -/
structure OfframpCall where
  respond : Exchange
  timestamp : Nat
  amountUsd : ℚ

namespace OfframpClient

open ApiTrace

/-- A client that reaches its exchange: no dry run and all credentials set. -/
structure Live (client : OfframpClient) : Prop where
  notDryRun : client.dryRun = false
  apiKeySet : client.apiKey ≠ ""
  apiSecretSet : client.apiSecret ≠ ""
  bankAccountSet : client.bankAccountId ≠ none

/-- The requests of a sequence of calls. -/
def requestTrace
    (client : OfframpClient)
    (calls : List OfframpCall) : List ApiEvent :=
  calls.flatMap fun call =>
    (client.executeOfframp call.respond call.timestamp
      call.amountUsd).requests

/-- The withdrawal is attempted once, and only after a successful sell. -/
theorem sellThenWithdraw_requests
    (respond : Exchange)
    (path market withdrawPath currency bankAccount : String)
    (amountUsd : ℚ) :
    CallRequests amountUsd
      (sellThenWithdraw respond (.sell path market amountUsd)
        (.withdraw withdrawPath currency bankAccount amountUsd)).requests := by
  unfold sellThenWithdraw
  cases respond (.sell path market amountUsd) with
  | error reason =>
      exact .sellFailed path market
  | ok sold =>
      cases respond
          (.withdraw withdrawPath currency bankAccount amountUsd) with
      | error reason =>
          exact .stranded path market withdrawPath currency bankAccount
      | ok withdrawn =>
          exact .completed path market withdrawPath currency bankAccount

/-- A live call takes one of the three courses on either exchange. -/
theorem executeOfframp_requests
    {client : OfframpClient}
    (live : client.Live)
    (call : OfframpCall) :
    CallRequests call.amountUsd
      (client.executeOfframp call.respond call.timestamp
        call.amountUsd).requests := by
  have credentials : ¬ (client.apiKey = "" ∨ client.apiSecret = "") := by
    rintro (noKey | noSecret)
    · exact live.apiKeySet noKey
    · exact live.apiSecretSet noSecret
  unfold executeOfframp
  rw [if_neg (by simp [live.notDryRun]), if_neg credentials,
    if_neg live.bankAccountSet]
  cases client.exchange with
  | coinbase =>
      exact sellThenWithdraw_requests _ _ _ _ _ _ _
  | kraken =>
      exact sellThenWithdraw_requests _ _ _ _ _ _ _

/-- Finished calls leave exactly the stranded amounts outstanding. -/
theorem soldNotWithdrawn_requestTrace
    {client : OfframpClient}
    (live : client.Live)
    (calls : List OfframpCall) :
    soldNotWithdrawn (client.requestTrace calls) =
      strandedUsd (client.requestTrace calls) := by
  induction calls with
  | nil =>
      rfl
  | cons call rest inductionHypothesis =>
      have head := (executeOfframp_requests live call).soldNotWithdrawn_eq
      unfold requestTrace at inductionHypothesis ⊢
      rw [List.flatMap_cons, soldNotWithdrawn_append, strandedUsd_append,
        head, inductionHypothesis]

/-- At every request of a sequence of calls the exposure is bounded. -/
theorem withinExposure_requestTrace
    {client : OfframpClient}
    (live : client.Live)
    {maxUsd : ℚ}
    {calls : List OfframpCall}
    (capped : ∀ call ∈ calls, call.amountUsd ≤ maxUsd)
    {earlier : List ApiEvent}
    (isEarlier : earlier <+: client.requestTrace calls) :
    WithinExposure maxUsd earlier := by
  induction calls generalizing earlier with
  | nil =>
      obtain rfl := List.prefix_nil.mp isEarlier
      exact .inl (by simp [soldNotWithdrawn, failedWithdrawals])
  | cons call rest inductionHypothesis =>
      have course := executeOfframp_requests live call
      have headCapped := capped call List.mem_cons_self
      unfold requestTrace at isEarlier
      rw [List.flatMap_cons] at isEarlier
      rcases prefix_append_cases isEarlier with
        within | ⟨later, laterPrefix, rfl⟩
      · exact course.withinExposure_prefix headCapped within
      · -- The call is over and what it left outstanding is stranded.
        have done :=
          course.soldNotWithdrawn_eq.trans_le
            (course.strandedUsd_le headCapped)
        have tail : WithinExposure maxUsd later :=
          inductionHypothesis
            (fun next member =>
              capped next (List.mem_cons_of_mem call member))
            laterPrefix
        rcases tail with between | ⟨⟨before, path, market, amount, rfl⟩, waits⟩
        · left
          rw [soldNotWithdrawn_append, failedWithdrawals_append]
          push_cast
          linarith
        · right
          refine ⟨⟨_, path, market, amount, (List.append_assoc _ _ _).symm⟩, ?_⟩
          rw [soldNotWithdrawn_append, failedWithdrawals_append]
          push_cast
          linarith

/-- No call withdraws what another call has sold. -/
theorem withdrawsOnlyItsSell_requestTrace
    {client : OfframpClient}
    (live : client.Live)
    (calls : List OfframpCall) :
    WithdrawsOnlyItsSell (client.requestTrace calls) := by
  induction calls with
  | nil =>
      intro earlier later path currency bankAccount amountUsd succeeded shape
      simp [requestTrace] at shape
  | cons call rest inductionHypothesis =>
      unfold requestTrace at inductionHypothesis ⊢
      rw [List.flatMap_cons]
      exact (executeOfframp_requests live call).withdrawsOnlyItsSell.append
        inductionHypothesis

/--
Over any calls of a live client each withdrawal follows the sell of its own
call.  What is sold but not withdrawn is the total of the failed withdrawals
once the calls are over, and never more than one cap for each of them and one
for the sell in progress.
-/
theorem exposure_is_failed_withdrawals
    (client : OfframpClient)
    (live : client.Live)
    (maxUsd : ℚ)
    (calls : List OfframpCall)
    (capped : ∀ call ∈ calls, call.amountUsd ≤ maxUsd) :
    WithdrawsOnlyItsSell (client.requestTrace calls) ∧
      soldNotWithdrawn (client.requestTrace calls) =
        strandedUsd (client.requestTrace calls) ∧
      ∀ earlier, earlier <+: client.requestTrace calls →
        WithinExposure maxUsd earlier :=
  ⟨withdrawsOnlyItsSell_requestTrace live calls,
    soldNotWithdrawn_requestTrace live calls,
    fun _ isEarlier => withinExposure_requestTrace live capped isEarlier⟩

/-- A live Coinbase client. -/
def liveClient : OfframpClient where
  exchange := .coinbase
  apiKey := "key"
  apiSecret := "secret"
  bankAccountId := some "bank"
  fiatCurrency := "USD"
  dryRun := false

/-- A call over the default cap whose sell succeeds and whose withdrawal fails. -/
def strandingCall : OfframpCall where
  respond
    | .sell _ _ _ => .ok (some "order")
    | .withdraw _ _ _ _ => .error "Coinbase API error"
  timestamp := 0
  amountUsd := TreasuryConfig.default.maxOfframpUsd

theorem liveClient_live : liveClient.Live :=
  ⟨rfl, by decide, by decide, by decide⟩

/-- Two failed withdrawals of the default cap leave two caps outstanding. -/
theorem exposure_of_two_stranding_calls :
    soldNotWithdrawn
        (liveClient.requestTrace [strandingCall, strandingCall]) =
      strandedUsd
        (liveClient.requestTrace [strandingCall, strandingCall]) :=
  (exposure_is_failed_withdrawals liveClient liveClient_live
    TreasuryConfig.default.maxOfframpUsd [strandingCall, strandingCall]
    (by simp [strandingCall])).2.1

/-- The retry after a failed withdrawal sells a second time. -/
theorem retry_sells_again :
    ¬ ∀ earlier,
      earlier <+: liveClient.requestTrace [strandingCall, strandingCall] →
      soldNotWithdrawn earlier ≤ TreasuryConfig.default.maxOfframpUsd := by
  intro within
  exact absurd (within _ (List.prefix_refl _)) (by decide +kernel)

end OfframpClient

end YieldDaemon
