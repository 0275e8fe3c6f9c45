import YieldDaemon.LiveBundles
import YieldDaemon.WhileLoop

namespace YieldDaemon

open CheckedArithmetic WhileLoop Attempts

/-!
# Waiting for a transaction

A submitted transaction is confirmed by asking a node for its status, every half
second, until the node reports one or a deadline passes.  The clock and the
answers of the node come from outside, one of each for every poll.
-/

/-- An RPC endpoint for live transaction submission. -/
structure LiveRpc where
  endpoint : String

/-- What a confirmation sees: the clock, in nanoseconds, and the answers. -/
structure StatusWatch where
  called : Nat
  looks : Nat → Nat
  answers : Nat → Except String JsonTree

/-- The polls so far, and what they have posted. -/
structure StatusPolls where
  polls : Nat
  posted : List HttpPost

/-- A moment some seconds later, which panics if the clock cannot tell it. -/
def addSeconds (moment seconds : Nat) : Checked Nat :=
  let later := moment + seconds * 1000000000
  if later < 2 ^ 63 * 1000000000 then
    .ok later
  else
    .error .arithmeticOverflow

/-- The status of the first signature asked for, if there is one. -/
def reportedStatus (resp : JsonTree) : Option JsonTree :=
  (((resp.index "result").index "value").asArray).bind List.head?

def isNull : JsonTree → Bool
  | .null => true
  | _ => false

/-- Whether a status has no error, or null for one. -/
def hasNoError (status : JsonTree) : Bool :=
  match status.get "err" with
  | none => true
  | some err => isNull err

namespace LiveRpc

variable (rpc : LiveRpc)

def statusRequest (signature : String) : HttpPost where
  url := rpc.endpoint
  body :=
    .rpcCall "getSignatureStatuses"
      [.array [.string signature],
        .object [("searchTransactionHistory", .boolean false)]]

/-- One round of the loop: look at the clock, ask, and read the answer. -/
def pollStatus
    (signature : String)
    (watch : StatusWatch)
    (deadline : Nat)
    (state : StatusPolls) :
    Checked (Round StatusPolls (Live Bool)) :=
  if watch.looks state.polls < deadline then
    let posted := state.posted ++ [rpc.statusRequest signature]
    match watch.answers state.polls with
    | .error message =>
        .ok (.break { posted, result := .error (.failed message) })
    | .ok resp =>
        match reportedStatus resp with
        | some status =>
            -- a node that does not know the signature reports null for it
            if isNull status then
              .ok (.goOn { polls := state.polls + 1, posted })
            else if hasNoError status then
              .ok (.break { posted, result := .ok true })
            else
              .ok (.break { posted, result := .ok false })
        | none =>
            .ok (.goOn { polls := state.polls + 1, posted })
  else
    .ok (.break { posted := state.posted, result := .ok false })

/-- Confirm a transaction has landed. -/
def confirmTransaction
    (signature : String)
    (timeoutSecs : Nat)
    (watch : StatusWatch)
    (fuel : Nat) :
    Fueled (Live Bool) := do
  let deadline ← liftM (addSeconds watch.called timeoutSecs)
  loop (rpc.pollStatus signature watch deadline) fuel
    { polls := 0, posted := [] }

end LiveRpc

/-- A response with a status for the first signature. -/
def ReportsStatus (resp status : JsonTree) : Prop :=
  status ≠ .null ∧
    ∃ others,
      (resp.index "result").index "value" = .array (status :: others)

/-- The transaction has landed without an error. -/
def Landed (resp : JsonTree) : Prop :=
  ∃ status,
    ReportsStatus resp status ∧
      (status.get "err" = none ∨ status.get "err" = some .null)

/-- The transaction has landed with an error. -/
def LandedBadly (resp : JsonTree) : Prop :=
  ∃ status err,
    ReportsStatus resp status ∧ status.get "err" = some err ∧ err ≠ .null

/-- There is no status yet. -/
def Undecided (resp : JsonTree) : Prop :=
  ∀ status, ¬ ReportsStatus resp status

namespace StatusWatch

/-- The moment from which on no poll is made. -/
def deadline (watch : StatusWatch) (timeoutSecs : Nat) : Nat :=
  watch.called + timeoutSecs * 1000000000

/-- All polls before one were made in time and left the status open. -/
def Awaits (watch : StatusWatch) (deadline polls : Nat) : Prop :=
  ∀ earlier < polls,
    watch.looks earlier < deadline ∧
      ∃ resp, watch.answers earlier = .ok resp ∧ Undecided resp

/-- How a confirmation ends after some polls. -/
inductive Concludes (watch : StatusWatch) (deadline : Nat) :
    Nat → Except LiveError Bool → Prop where
  | landed
      {polls : Nat}
      {resp : JsonTree}
      (awaited : watch.Awaits deadline polls)
      (inTime : watch.looks polls < deadline)
      (answered : watch.answers polls = .ok resp)
      (reported : Landed resp) :
      Concludes watch deadline (polls + 1) (.ok true)
  | landedBadly
      {polls : Nat}
      {resp : JsonTree}
      (awaited : watch.Awaits deadline polls)
      (inTime : watch.looks polls < deadline)
      (answered : watch.answers polls = .ok resp)
      (reported : LandedBadly resp) :
      Concludes watch deadline (polls + 1) (.ok false)
  | unanswered
      {polls : Nat}
      {message : String}
      (awaited : watch.Awaits deadline polls)
      (inTime : watch.looks polls < deadline)
      (answered : watch.answers polls = .error message) :
      Concludes watch deadline (polls + 1) (.error (.failed message))
  | timedOut
      {polls : Nat}
      (awaited : watch.Awaits deadline polls)
      (late : deadline ≤ watch.looks polls) :
      Concludes watch deadline polls (.ok false)

/-- The clock goes on, by half a second at least between two polls. -/
structure Sleeps (watch : StatusWatch) : Prop where
  starts : watch.called ≤ watch.looks 0
  sleeps :
    ∀ poll, watch.looks poll + 500000000 ≤ watch.looks (poll + 1)

end StatusWatch

variable {resp status : JsonTree}

theorem isNull_eq_true : isNull status = true ↔ status = .null := by
  cases status <;> simp [isNull]

theorem reportedStatus_eq_some :
    reportedStatus resp = some status ↔
      ∃ others,
        (resp.index "result").index "value" = .array (status :: others) := by
  unfold reportedStatus
  cases (resp.index "result").index "value" with
  | array items =>
      cases items with
      | nil =>
          simp [JsonTree.asArray]
      | cons first others =>
          simp [JsonTree.asArray]
  | _ =>
      simp [JsonTree.asArray]

/-- A response has one status at most. -/
theorem reportsStatus_iff :
    ReportsStatus resp status ↔
      status ≠ .null ∧ reportedStatus resp = some status := by
  rw [ReportsStatus, reportedStatus_eq_some]

theorem undecided_of_none (missing : reportedStatus resp = none) :
    Undecided resp := by
  intro status reports
  have found := (reportsStatus_iff.mp reports).2
  rw [missing] at found
  exact nomatch found

theorem undecided_of_null (unknown : reportedStatus resp = some .null) :
    Undecided resp := by
  intro status reports
  obtain ⟨known, found⟩ := reportsStatus_iff.mp reports
  rw [unknown] at found
  exact known (Option.some.inj found).symm

theorem landed_of_hasNoError
    (found : reportedStatus resp = some status)
    (known : status ≠ .null)
    (noError : hasNoError status = true) :
    Landed resp := by
  refine ⟨status, reportsStatus_iff.mpr ⟨known, found⟩, ?_⟩
  unfold hasNoError at noError
  cases reported : status.get "err" with
  | none =>
      exact Or.inl rfl
  | some err =>
      rw [reported] at noError
      exact Or.inr (congrArg some (isNull_eq_true.mp noError))

theorem landedBadly_of_hasError
    (found : reportedStatus resp = some status)
    (known : status ≠ .null)
    (hasError : ¬ hasNoError status = true) :
    LandedBadly resp := by
  unfold hasNoError at hasError
  cases reported : status.get "err" with
  | none =>
      rw [reported] at hasError
      exact absurd rfl hasError
  | some err =>
      rw [reported] at hasError
      exact ⟨status, err, reportsStatus_iff.mpr ⟨known, found⟩, reported,
        fun isError => hasError (isNull_eq_true.mpr isError)⟩

/-- A transaction that landed is not open. -/
theorem Landed.not_undecided (landed : Landed resp) : ¬ Undecided resp := by
  obtain ⟨status, reports, -⟩ := landed
  exact fun undecided => undecided status reports

theorem LandedBadly.not_undecided (badly : LandedBadly resp) :
    ¬ Undecided resp := by
  obtain ⟨status, -, reports, -⟩ := badly
  exact fun undecided => undecided status reports

/-- A transaction does not land both ways. -/
theorem Landed.not_landedBadly (landed : Landed resp) :
    ¬ LandedBadly resp := by
  rintro ⟨other, err, reportsOther, found, isError⟩
  obtain ⟨status, reports, noError⟩ := landed
  have same : some other = some status :=
    (reportsStatus_iff.mp reportsOther).2.symm.trans
      (reportsStatus_iff.mp reports).2
  cases same
  rw [found] at noError
  rcases noError with impossible | isNull
  · exact nomatch impossible
  · exact isError (Option.some.inj isNull)

namespace StatusWatch

variable
  {watch : StatusWatch}
  {deadline polls : Nat}

/-- An open poll that was made in time is one more. -/
theorem Awaits.succ
    (awaited : watch.Awaits deadline polls)
    (inTime : watch.looks polls < deadline)
    (answered : watch.answers polls = .ok resp)
    (undecided : Undecided resp) :
    watch.Awaits deadline (polls + 1) := by
  intro earlier before
  rcases Nat.lt_succ_iff_lt_or_eq.mp before with isBefore | rfl
  · exact awaited earlier isBefore
  · exact ⟨inTime, resp, answered, undecided⟩

/-- The sleeps between the polls add up. -/
theorem Sleeps.le_looks
    (sleeps : watch.Sleeps)
    (poll : Nat) :
    watch.called + poll * 500000000 ≤ watch.looks poll := by
  induction poll with
  | zero =>
      simpa using sleeps.starts
  | succ poll inductionHypothesis =>
      calc
        watch.called + (poll + 1) * 500000000 =
            watch.called + poll * 500000000 + 500000000 := by
          rw [Nat.succ_mul, Nat.add_assoc]
        _ ≤ watch.looks poll + 500000000 :=
          Nat.add_le_add_right inductionHypothesis _
        _ ≤ watch.looks (poll + 1) := sleeps.sleeps poll

/-- A poll in time is among the first two for each second. -/
theorem Sleeps.lt_of_inTime
    (sleeps : watch.Sleeps)
    {timeoutSecs poll : Nat}
    (inTime : watch.looks poll < watch.deadline timeoutSecs) :
    poll < 2 * timeoutSecs := by
  have slept := sleeps.le_looks poll
  unfold deadline at inTime
  omega

/-- A confirmation asks at most twice for each second. -/
theorem Concludes.polls_le
    (sleeps : watch.Sleeps)
    {timeoutSecs : Nat}
    {result : Except LiveError Bool}
    (concludes :
      watch.Concludes (watch.deadline timeoutSecs) polls result) :
    polls ≤ 2 * timeoutSecs := by
  cases concludes with
  | landed _ inTime => exact sleeps.lt_of_inTime inTime
  | landedBadly _ inTime => exact sleeps.lt_of_inTime inTime
  | unanswered _ inTime => exact sleeps.lt_of_inTime inTime
  | timedOut awaited late =>
      cases polls with
      | zero => exact Nat.zero_le _
      | succ before =>
          exact sleeps.lt_of_inTime (awaited before (Nat.lt_succ_self _)).1

/-- A poll that settles the result is the last one. -/
theorem Awaits.le_of_settled
    (awaited : watch.Awaits deadline polls)
    {poll : Nat}
    (settled :
      ∀ resp, watch.answers poll = .ok resp → ¬ Undecided resp) :
    polls ≤ poll := by
  by_contra later
  obtain ⟨-, resp, answered, undecided⟩ := awaited poll (Nat.lt_of_not_le later)
  exact settled resp answered undecided

/-- The clock never goes back. -/
theorem Sleeps.looks_mono (sleeps : watch.Sleeps) : Monotone watch.looks :=
  monotone_nat_of_le_succ fun poll =>
    (Nat.le_add_right _ _).trans (sleeps.sleeps poll)

/-- A confirmation is positive exactly if the first status in time is good. -/
theorem Concludes.landed_iff
    {result : Except LiveError Bool}
    (concludes : watch.Concludes deadline polls result)
    (sleeps : watch.Sleeps) :
    result = .ok true ↔
      ∃ poll resp,
        watch.looks poll < deadline ∧
          watch.Awaits deadline poll ∧
            watch.answers poll = .ok resp ∧ Landed resp := by
  constructor
  · rintro rfl
    cases concludes with
    | landed awaited inTime answered reported =>
        exact ⟨_, _, inTime, awaited, answered, reported⟩
  · rintro ⟨poll, resp, inTime, openBefore, answered, reported⟩
    have settled :
        ∀ other, watch.answers poll = .ok other → ¬ Undecided other := by
      intro other answers
      rw [answered] at answers
      cases answers
      exact reported.not_undecided
    -- the last poll of the confirmation is the one that settles it
    have isLast
        {last : Nat}
        (awaited : watch.Awaits deadline last)
        (closes :
          ∀ other, watch.answers last = .ok other → ¬ Undecided other) :
        last = poll :=
      Nat.le_antisymm (awaited.le_of_settled settled)
        (openBefore.le_of_settled closes)
    cases concludes with
    | landed => rfl
    | landedBadly awaited _ answeredBadly badly =>
        have same :=
          isLast awaited (by
            intro other answers
            rw [answeredBadly] at answers
            cases answers
            exact LandedBadly.not_undecided badly)
        subst same
        rw [answered] at answeredBadly
        cases answeredBadly
        exact absurd badly reported.not_landedBadly
    | unanswered awaited _ failed =>
        have same :=
          isLast awaited (by
            intro other answers
            rw [failed] at answers
            exact nomatch answers)
        subst same
        rw [answered] at failed
        exact nomatch failed
    | timedOut awaited late =>
        have before : polls ≤ poll := awaited.le_of_settled settled
        exact absurd ((sleeps.looks_mono before).trans_lt inTime)
          (Nat.not_lt.mpr late)

end StatusWatch

namespace LiveRpc

variable
  {rpc : LiveRpc}
  {signature : String}
  {watch : StatusWatch}
  {deadline timeoutSecs : Nat}

/-- Each poll so far has asked for the signature and left it open. -/
structure Polled
    (rpc : LiveRpc)
    (signature : String)
    (watch : StatusWatch)
    (deadline : Nat)
    (state : StatusPolls) :
    Prop where
  posted :
    state.posted = List.replicate state.polls (rpc.statusRequest signature)
  awaited : watch.Awaits deadline state.polls

/-- What a confirmation posts and returns, after some polls. -/
def Confirms
    (rpc : LiveRpc)
    (signature : String)
    (watch : StatusWatch)
    (deadline : Nat)
    (confirmation : Live Bool) :
    Prop :=
  ∃ polls result,
    confirmation =
        { posted := List.replicate polls (rpc.statusRequest signature)
          result } ∧
      watch.Concludes deadline polls result

/-- A poll in time posts one request more. -/
theorem Polled.posted_succ
    {state : StatusPolls}
    (polled : rpc.Polled signature watch deadline state) :
    state.posted ++ [rpc.statusRequest signature] =
      List.replicate (state.polls + 1) (rpc.statusRequest signature) := by
  rw [polled.posted, List.replicate_succ']

/-- A round asks once more in time, or concludes the confirmation. -/
theorem pollStatus_cases
    {state : StatusPolls}
    (polled : rpc.Polled signature watch deadline state) :
    (watch.looks state.polls < deadline ∧
      ∃ next,
        rpc.pollStatus signature watch deadline state = .ok (.goOn next) ∧
          rpc.Polled signature watch deadline next ∧
            next.polls = state.polls + 1) ∨
      ∃ confirmation,
        rpc.pollStatus signature watch deadline state =
            .ok (.break confirmation) ∧
          rpc.Confirms signature watch deadline confirmation := by
  by_cases inTime : watch.looks state.polls < deadline
  case neg =>
    have concludes :
        watch.Concludes deadline state.polls (.ok false) :=
      .timedOut polled.awaited (Nat.le_of_not_lt inTime)
    refine Or.inr ⟨_, ?_, state.polls, .ok false, rfl, concludes⟩
    rw [pollStatus, if_neg inTime, polled.posted]
  case pos =>
    simp only [pollStatus, if_pos inTime, polled.posted_succ]
    cases answered : watch.answers state.polls with
    | error message =>
        exact Or.inr
          ⟨_, rfl, state.polls + 1, _, rfl,
            .unanswered polled.awaited inTime answered⟩
    | ok resp =>
        dsimp only
        have goesOn (undecided : Undecided resp) :
            rpc.Polled signature watch deadline
              { polls := state.polls + 1
                posted :=
                  List.replicate (state.polls + 1)
                    (rpc.statusRequest signature) } :=
          ⟨rfl, polled.awaited.succ inTime answered undecided⟩
        cases found : reportedStatus resp with
        | none =>
            exact Or.inl
              ⟨inTime, _, rfl, goesOn (undecided_of_none found), rfl⟩
        | some status =>
            dsimp only
            by_cases unknown : isNull status = true
            case pos =>
              rw [isNull_eq_true.mp unknown] at found
              rw [if_pos unknown]
              exact Or.inl
                ⟨inTime, _, rfl, goesOn (undecided_of_null found), rfl⟩
            case neg =>
              have known : status ≠ .null := fun null =>
                unknown (isNull_eq_true.mpr null)
              rw [if_neg unknown]
              by_cases noError : hasNoError status = true
              · rw [if_pos noError]
                exact Or.inr
                  ⟨_, rfl, state.polls + 1, _, rfl,
                    .landed polled.awaited inTime answered
                      (landed_of_hasNoError found known noError)⟩
              · rw [if_neg noError]
                exact Or.inr
                  ⟨_, rfl, state.polls + 1, _, rfl,
                    .landedBadly polled.awaited inTime answered
                      (landedBadly_of_hasError found known noError)⟩

/--
A confirmation ends after two polls for each second at most, each of them for its
signature.  It is positive exactly if the first status that a node reports in
time has no error; a response that reports none is asked for again.
-/
theorem confirmation_ends_with_first_status
    (fits : watch.deadline timeoutSecs < 2 ^ 63 * 1000000000)
    (sleeps : watch.Sleeps) :
    ∃ polls result,
      EndsWith (rpc.confirmTransaction signature timeoutSecs watch)
          { posted := List.replicate polls (rpc.statusRequest signature)
            result } ∧
        polls ≤ 2 * timeoutSecs ∧
        watch.Concludes (watch.deadline timeoutSecs) polls result ∧
        (result = .ok true ↔
          ∃ poll resp,
            watch.looks poll < watch.deadline timeoutSecs ∧
              watch.Awaits (watch.deadline timeoutSecs) poll ∧
                watch.answers poll = .ok resp ∧ Landed resp) := by
  have isDeadline :
      addSeconds watch.called timeoutSecs =
        .ok (watch.deadline timeoutSecs) :=
    if_pos fits
  have starts :
      rpc.Polled signature watch (watch.deadline timeoutSecs)
        { polls := 0, posted := [] } :=
    ⟨rfl, fun earlier before => absurd before (Nat.not_lt_zero _)⟩
  obtain ⟨confirmation, ends, polls, result, rfl, concludes⟩ :=
    loop_ends
      (rpc.pollStatus signature watch (watch.deadline timeoutSecs))
      (rpc.Polled signature watch (watch.deadline timeoutSecs))
      (rpc.Confirms signature watch (watch.deadline timeoutSecs))
      (fun state => 2 * timeoutSecs - state.polls)
      (by
        intro state polled
        rcases pollStatus_cases polled with
          ⟨inTime, next, round, nextPolled, counted⟩ |
            ⟨confirmation, leaves, confirms⟩
        · have early := sleeps.lt_of_inTime inTime
          refine Or.inl ⟨next, round, nextPolled, ?_⟩
          omega
        · exact Or.inr ⟨confirmation, leaves, confirms⟩)
      _ starts
  exact ⟨polls, result, EndsWith.lift_bind isDeadline ends,
    concludes.polls_le sleeps, concludes, concludes.landed_iff sleeps⟩

def processedStatus : JsonTree :=
  .object [("err", .null), ("confirmationStatus", .string "processed")]

/-- A status that is unknown at the first poll and then processed. -/
def processedWatch : StatusWatch where
  called := 0
  looks poll := poll * 500000000
  answers
    | 0 =>
        .ok (.object [("result", .object [("value", .array [.null])])])
    | _ =>
        .ok (.object [
          ("result", .object [("value", .array [processedStatus])])])

/-- A transaction that no block has confirmed yet is taken as confirmed. -/
theorem processed_transaction_is_confirmed :
    ∃ polls ≤ 2,
      EndsWith
        (LiveRpc.confirmTransaction ⟨"http://localhost:8899"⟩ "5sig" 1
          processedWatch)
        { posted :=
            List.replicate polls
              (LiveRpc.statusRequest ⟨"http://localhost:8899"⟩ "5sig")
          result := .ok true } := by
  obtain ⟨polls, result, ends, few, -, positive⟩ :=
    @confirmation_ends_with_first_status
      ⟨"http://localhost:8899"⟩ "5sig" processedWatch 1
      (by decide)
      ⟨Nat.zero_le _, fun poll => (Nat.succ_mul _ _).ge⟩
  have confirmed : result = .ok true := by
    refine positive.mpr ⟨1, _, by decide, ?_, rfl, ?_⟩
    · intro earlier before
      obtain rfl := Nat.lt_one_iff.mp before
      exact ⟨by decide, _, rfl, undecided_of_null rfl⟩
    · exact ⟨processedStatus, ⟨nofun, [], rfl⟩, Or.inr rfl⟩
  rw [confirmed] at ends
  exact ⟨polls, few, ends⟩

end LiveRpc

end YieldDaemon
