import YieldDaemon.ProfitVault

namespace YieldDaemon

open ReentrantCalls

/-!
# Flash arbitrage

The contract borrows from a pair, swaps in the callback of the pair and repays.
The callback checks the address that the pair names as initiator, an argument
of its caller, and not who calls it.  The deadline of the second swap, events
and reason strings are left out.  Tokens, routers and pairs are arbitrary; the
view functions of a pair may reenter like any other callee.
-/

/-- The parameters that `executeArbitrage` encodes for the callback. -/
structure ArbParams where
  router2 : Address
  path : List Address
  amountBorrow : Nat
  minProfit : Nat

/-- The ether and the storage of the contract. -/
structure FlashArbitrage where
  balance : Nat
  locked : Nat

/-- The functions of the contract, with their arguments. -/
inductive FlashFunction where
  | receive
  | executeArbitrage
      (pool : Address)
      (borrowToken0 : Bool)
      (amount : Nat)
      (router2 : Address)
      (path : List Address)
      (minProfit : Nat)
  /-- `data` is what its bytes decode to, if they decode. -/
  | uniswapV2Call
      (sender : Address)
      (amount0 amount1 : Nat)
      (data : Option ArbParams)
  | rescue (token : Address) (amount : Nat)
  | rescueETH

/-- A call of the contract: `msg.sender`, `msg.value` and the function. -/
structure FlashMessage where
  sender : Address
  value : Nat
  function : FlashFunction

/-- The calls that the contract makes. -/
inductive FlashQuery where
  | swap
      (pool : Address)
      (amount0Out amount1Out : Nat)
      (target : Address)
      (data : ArbParams)
  | token0 (pool : Address)
  | token1 (pool : Address)
  | approve (token spender : Address) (amount : Nat)
  | swapExactTokensForTokens
      (router : Address)
      (amountIn amountOutMin : Nat)
      (path : List Address)
      (target : Address)
  | transfer (token target : Address) (amount : Nat)
  | sendEther (target : Address) (amount : Nat)

/-- The call approves a router or moves a token. -/
def FlashQuery.Releases : FlashQuery → Prop
  | .approve .. => True
  | .transfer .. => True
  | _ => False

/-- What a callee returns, as far as it decodes. -/
inductive FlashAnswer where
  | nothing
  | flag (ok : Bool)
  | address (value : Address)
  | amounts (values : List Nat)

/-- Code of the contract. -/
abbrev FlashProgram := Program FlashArbitrage FlashQuery FlashAnswer

namespace FlashArbitrage

/-- The contract after its constructor, with ether sent there before. -/
def deployed (balance : Nat) : FlashArbitrage :=
  ⟨balance, 0⟩

/-- A call of a function that this contract does not have itself. -/
def callOther
    (this target : Address)
    (query : FlashQuery)
    (state : FlashArbitrage)
    (resume : FlashAnswer → FlashArbitrage → FlashProgram) : FlashProgram :=
  .require (target ≠ this) (.external query state resume)

/-- `IERC20(token).transfer(target, amount)`, whose result is not checked. -/
def transfer
    (this token target : Address)
    (amount : Nat)
    (state : FlashArbitrage)
    (next : FlashArbitrage → FlashProgram) : FlashProgram :=
  callOther this token (.transfer token target amount) state
    fun answer after =>
      match answer with
      | .flag _ => next after
      | _ => .revert

/-- Execute atomic arbitrage via flash swap -/
def executeArbitrage
    (owner this sender pool : Address)
    (borrowToken0 : Bool)
    (amount : Nat)
    (router2 : Address)
    (path : List Address)
    (minProfit : Nat)
    (state : FlashArbitrage) : FlashProgram :=
  .require (sender = owner)
    (.require (state.locked = 0)
      (callOther this pool
        (.swap pool
          (if borrowToken0 then amount else 0)
          (if borrowToken0 then 0 else amount)
          this ⟨router2, path, amount, minProfit⟩)
        { state with locked := 1 }
        (fun _ after => .done { after with locked := 0 })))

/-- Steps 3 to 6 of the callback: check the profit, repay and pay it out. -/
def repay
    (this profitVault pair : Address)
    (params : ArbParams)
    (borrowedAmount : Nat)
    (amounts : List Nat)
    (state : FlashArbitrage) : FlashProgram :=
  match amounts.getLast?, params.path.getLast? with
  | some outputAmount, some repayToken =>
    .require (borrowedAmount * 1000 < 2 ^ 256)
      (let repayAmount := borrowedAmount * 1000 / 997 + 1
      let profit :=
        if repayAmount < outputAmount then outputAmount - repayAmount else 0
      .require (params.minProfit ≤ profit)
        (transfer this repayToken pair repayAmount state fun repaid =>
          if 0 < profit then
            transfer this repayToken profitVault profit repaid .done
          else
            .done repaid))
  | _, _ => .revert

/-- Steps 1 and 2 of the callback: approve the router and swap on it. -/
def secondSwap
    (this profitVault pair : Address)
    (params : ArbParams)
    (borrowedAmount : Nat)
    (borrowedToken : Address)
    (state : FlashArbitrage) : FlashProgram :=
  callOther this borrowedToken
    (.approve borrowedToken params.router2 borrowedAmount) state
    fun answer approved =>
      match answer with
      | .flag _ =>
        callOther this params.router2
          (.swapExactTokensForTokens params.router2 borrowedAmount 0
            params.path this)
          approved
          fun answer swapped =>
            match answer with
            | .amounts amounts =>
              repay this profitVault pair params borrowedAmount amounts
                swapped
            | _ => .revert
      | _ => .revert

/-- Uniswap V2 flash swap callback -/
def uniswapV2Call
    (this profitVault pair sender : Address)
    (amount0 amount1 : Nat)
    (data : Option ArbParams)
    (state : FlashArbitrage) : FlashProgram :=
  match data with
  | none => .revert
  | some params =>
    .require (sender = this)
      (let borrowedAmount := if 0 < amount0 then amount0 else amount1
      callOther this pair
        (if 0 < amount0 then .token0 pair else .token1 pair) state
        fun answer after =>
          match answer with
          | .address borrowedToken =>
            secondSwap this profitVault pair params borrowedAmount
              borrowedToken after
          | _ => .revert)

/-- Withdraw stuck tokens (emergency only) -/
def rescue
    (owner this sender token : Address)
    (amount : Nat)
    (state : FlashArbitrage) : FlashProgram :=
  .require (sender = owner)
    (transfer this token owner amount state .done)

/-- Withdraw stuck ETH -/
def rescueETH
    (owner this sender : Address)
    (state : FlashArbitrage) : FlashProgram :=
  .require (sender = owner)
    (if owner = this then
      .done state
    else
      .external (.sendEther owner state.balance) { state with balance := 0 }
        fun answer after =>
          match answer with
          | .flag true => .done after
          | _ => .revert)

/-- The code of the contract; only `receive` is payable. -/
def code
    (owner this profitVault : Address)
    (message : FlashMessage)
    (state : FlashArbitrage) : FlashProgram :=
  match message.function with
  | .receive => .done { state with balance := state.balance + message.value }
  | .executeArbitrage pool borrowToken0 amount router2 path minProfit =>
    .require (message.value = 0)
      (executeArbitrage owner this message.sender pool borrowToken0 amount
        router2 path minProfit state)
  | .uniswapV2Call sender amount0 amount1 data =>
    .require (message.value = 0)
      (uniswapV2Call this profitVault message.sender sender amount0 amount1
        data state)
  | .rescue token amount =>
    .require (message.value = 0)
      (rescue owner this message.sender token amount state)
  | .rescueETH =>
    .require (message.value = 0)
      (rescueETH owner this message.sender state)

/-- Ether that arrives without a call. -/
def Forced (before after : FlashArbitrage) : Prop :=
  ∃ amount, after = { before with balance := before.balance + amount }

/-- The contract at an address, with its owner and its vault. -/
def contract (owner this profitVault : Address) :
    Contract FlashArbitrage FlashMessage FlashQuery FlashAnswer where
  code := code owner this profitVault
  environment := Forced

/-- A call leaves the lock as it was. -/
def SameLock (before after : FlashArbitrage) : Prop :=
  after.locked = before.locked

/-- What each function may call, and with which lock. -/
def Issues
    (owner this : Address)
    (message : FlashMessage)
    (before : FlashArbitrage)
    (query : FlashQuery)
    (state : FlashArbitrage) : Prop :=
  match message.function with
  | .receive => False
  | .executeArbitrage .. =>
    ¬ query.Releases ∧ message.sender = owner ∧ state.locked = 1
  | .uniswapV2Call sender _ _ _ => sender = this ∧ SameLock before state
  | .rescue .. => message.sender = owner ∧ SameLock before state
  | .rescueETH => ¬ query.Releases ∧ SameLock before state

section Specifications

variable
  {issue : FlashQuery → FlashArbitrage → Prop}
  {post : FlashArbitrage → Prop}
  {this target token : Address}
  {before state : FlashArbitrage}

theorem meets_callOther
    {query : FlashQuery}
    {resume : FlashAnswer → FlashArbitrage → FlashProgram}
    (issued : issue query state)
    (resumeMeets :
      ∀ answer after, SameLock state after →
        (resume answer after).Meets SameLock issue post) :
    (callOther this target query state resume).Meets SameLock issue post :=
  Program.meets_require.mpr (fun _ => ⟨issued, resumeMeets⟩)

theorem meets_transfer
    {amount : Nat}
    {next : FlashArbitrage → FlashProgram}
    (issued : issue (.transfer token target amount) state)
    (nextMeets :
      ∀ after, SameLock state after →
        (next after).Meets SameLock issue post) :
    (transfer this token target amount state next).Meets SameLock issue
      post := by
  apply meets_callOther issued
  intro answer after kept
  cases answer with
  | flag ok => exact nextMeets after kept
  | nothing => trivial
  | address value => trivial
  | amounts values => trivial

/-- Every call of the last steps is made with the lock of the callback. -/
theorem meets_repay
    {profitVault pair : Address}
    {params : ArbParams}
    {borrowedAmount : Nat}
    {amounts : List Nat}
    (kept : SameLock before state) :
    (repay this profitVault pair params borrowedAmount amounts state).Meets
      SameLock (fun _ current => SameLock before current)
      (SameLock before) := by
  unfold repay
  split
  · next outputAmount repayToken _ _ =>
      simp only [Program.meets_require]
      intro _ _
      generalize (if borrowedAmount * 1000 / 997 + 1 < outputAmount then
        outputAmount - (borrowedAmount * 1000 / 997 + 1) else 0) = profit
      apply meets_transfer kept
      intro repaid repaidKept
      have sameLock : SameLock before repaid := repaidKept.trans kept
      by_cases positive : 0 < profit
      · rw [if_pos positive]
        apply meets_transfer sameLock
        intro after afterKept
        exact afterKept.trans sameLock
      · rw [if_neg positive]
        exact sameLock
  · trivial

theorem meets_secondSwap
    {profitVault pair borrowedToken : Address}
    {params : ArbParams}
    {borrowedAmount : Nat}
    (kept : SameLock before state) :
    (secondSwap this profitVault pair params borrowedAmount borrowedToken
      state).Meets SameLock (fun _ current => SameLock before current)
      (SameLock before) := by
  apply meets_callOther kept
  intro answer approved approvedKept
  have approvedLock : SameLock before approved := approvedKept.trans kept
  cases answer with
  | nothing => trivial
  | address value => trivial
  | amounts values => trivial
  | flag ok =>
      apply meets_callOther approvedLock
      intro answer swapped swappedKept
      cases answer with
      | nothing => trivial
      | flag ok => trivial
      | address value => trivial
      | amounts values =>
          exact meets_repay (swappedKept.trans approvedLock)

theorem meets_uniswapV2Call
    {profitVault pair sender : Address}
    {amount0 amount1 : Nat}
    {data : Option ArbParams} :
    (uniswapV2Call this profitVault pair sender amount0 amount1 data
      before).Meets SameLock
      (fun _ current => sender = this ∧ SameLock before current)
      (SameLock before) := by
  unfold uniswapV2Call
  cases data with
  | none =>
      trivial
  | some params =>
      refine Program.meets_require.mpr (fun fromThis => ?_)
      have sameLock {current : FlashArbitrage}
          (kept : SameLock before current) :
          sender = this ∧ SameLock before current := ⟨fromThis, kept⟩
      refine meets_callOther (sameLock rfl) ?_
      intro answer after kept
      cases answer with
      | nothing => trivial
      | flag ok => trivial
      | amounts values => trivial
      | address value =>
          exact (meets_secondSwap kept).mono (fun _ _ => sameLock)
            (fun _ kept => kept)

end Specifications

variable {owner this profitVault : Address}

/-- Every function makes the calls of `Issues` and restores the lock. -/
theorem code_issues (message : FlashMessage) (before : FlashArbitrage) :
    (code owner this profitVault message before).Meets SameLock
      (Issues owner this message before) (SameLock before) := by
  obtain ⟨sender, value, function⟩ := message
  cases function with
  | receive =>
      exact rfl
  | executeArbitrage pool borrowToken0 amount router2 path minProfit =>
      simp only [code, executeArbitrage, Program.meets_require]
      intro _ isOwner unlocked
      apply meets_callOther ⟨id, isOwner, rfl⟩
      intro answer after _
      exact unlocked.symm
  | uniswapV2Call initiator amount0 amount1 data =>
      exact Program.meets_require.mpr (fun _ => meets_uniswapV2Call)
  | rescue token amount =>
      simp only [code, rescue, Program.meets_require]
      intro _ isOwner
      apply meets_transfer ⟨isOwner, rfl⟩
      intro after kept
      exact kept
  | rescueETH =>
      simp only [code, rescueETH, Program.meets_require]
      intro _ isOwner
      split
      · exact rfl
      · refine ⟨⟨id, rfl⟩, fun answer after kept => ?_⟩
        match answer with
        | .flag true => exact kept
        | .flag false => trivial
        | .nothing => trivial
        | .address value => trivial
        | .amounts values => trivial

theorem contract_guarantees :
    (contract owner this profitVault).Guarantees SameLock where
  refl _ := rfl
  trans earlier later := later.trans earlier
  environment := by
    rintro before after ⟨amount, rfl⟩
    rfl
  code message before :=
    (code_issues message before).mono (fun _ _ _ => trivial)
      (fun _ kept => kept)

/-! Who controls the releases. -/

/-- The call is `executeArbitrage` on the pool. -/
def Executes (pool : Address) (message : FlashMessage) : Prop :=
  match message.function with
  | .executeArbitrage chosen .. => chosen = pool
  | _ => False

/--
The newest call in progress is the owner's `rescue`, or it is a callback made
by the pool of an `executeArbitrage` call of the owner further down.
-/
def UnderControl
    (owner : Address)
    (calls : List FlashMessage)
    (state : FlashArbitrage) : Prop :=
  match calls with
  | [] => False
  | message :: below =>
    match message.function with
    | .rescue .. => message.sender = owner
    | .uniswapV2Call .. =>
      (∃ execution ∈ below,
        Executes message.sender execution ∧ execution.sender = owner) ∧
        state.locked = 1
    | _ => False

/-- Tokens are released only under the owner's control. -/
def Controlled
    (owner : Address) :
    Entry FlashArbitrage FlashMessage FlashQuery → Prop
  | .entered _ => True
  | .made calls query state => query.Releases → UnderControl owner calls state

/--
A callback that names this contract as the initiator is made by the pool of an
`executeArbitrage` call in progress.
-/
def FromOwnPool
    (this : Address) :
    Entry FlashArbitrage FlashMessage FlashQuery → Prop
  | .entered (message :: below) =>
    match message.function with
    | .uniswapV2Call sender _ _ _ =>
      sender = this → ∃ execution ∈ below, Executes message.sender execution
    | _ => True
  | _ => True

/-- Arbitrages in progress are the owner's, and hold the lock. -/
def OwnerExecutes
    (owner : Address)
    (calls : List FlashMessage)
    (state : FlashArbitrage) : Prop :=
  ∀ execution ∈ calls, ∀ pool, Executes pool execution →
    execution.sender = owner ∧ state.locked = 1

theorem OwnerExecutes.of_sameLock
    {calls : List FlashMessage}
    {before after : FlashArbitrage}
    (owned : OwnerExecutes owner calls before)
    (kept : SameLock before after) :
    OwnerExecutes owner calls after := by
  intro execution inProgress pool executes
  obtain ⟨isOwner, locked⟩ := owned execution inProgress pool executes
  exact ⟨isOwner, kept.trans locked⟩

/-- A call that a function makes leaves the arbitrages in progress owned. -/
theorem OwnerExecutes.of_issues
    {calls : List FlashMessage}
    {message : FlashMessage}
    {before state : FlashArbitrage}
    {query : FlashQuery}
    (owned : OwnerExecutes owner calls before)
    (issued : Issues owner this message before query state) :
    OwnerExecutes owner (message :: calls) state := by
  obtain ⟨sender, value, function⟩ := message
  -- Every other function keeps the lock and is no arbitrage itself.
  have notItself
      (kept : SameLock before state)
      (other : ∀ pool, ¬ Executes pool ⟨sender, value, function⟩) :
      OwnerExecutes owner (⟨sender, value, function⟩ :: calls) state := by
    intro execution inProgress pool executes
    rcases List.mem_cons.mp inProgress with rfl | inCalls
    · exact absurd executes (other pool)
    · exact owned.of_sameLock kept execution inCalls pool executes
  cases function with
  | receive =>
      exact absurd issued not_false
  | executeArbitrage chosen borrowToken0 amount router2 path minProfit =>
      obtain ⟨-, isOwner, locked⟩ := issued
      intro execution inProgress pool executes
      rcases List.mem_cons.mp inProgress with rfl | inCalls
      · exact ⟨isOwner, locked⟩
      · exact ⟨(owned execution inCalls pool executes).1, locked⟩
  | uniswapV2Call initiator amount0 amount1 data =>
      exact notItself issued.2 (fun _ => id)
  | rescue token amount =>
      exact notItself issued.2 (fun _ => id)
  | rescueETH =>
      exact notItself issued.2 (fun _ => id)

/-- What a function releases is controlled if its callback is genuine. -/
theorem controlled_of_issues
    {calls : List FlashMessage}
    {message : FlashMessage}
    {before state : FlashArbitrage}
    {query : FlashQuery}
    (owned : OwnerExecutes owner calls before)
    (genuine : FromOwnPool this (.entered (message :: calls)))
    (issued : Issues owner this message before query state) :
    Controlled owner (.made (message :: calls) query state) := by
  intro releases
  obtain ⟨sender, value, function⟩ := message
  cases function with
  | receive =>
      exact absurd issued not_false
  | executeArbitrage chosen borrowToken0 amount router2 path minProfit =>
      exact absurd releases issued.1
  | uniswapV2Call initiator amount0 amount1 data =>
      obtain ⟨fromThis, kept⟩ := issued
      obtain ⟨execution, inProgress, executes⟩ := genuine fromThis
      obtain ⟨isOwner, locked⟩ :=
        owned execution inProgress sender executes
      exact ⟨⟨execution, inProgress, executes, isOwner⟩, kept.trans locked⟩
  | rescue token amount =>
      exact issued.1
  | rescueETH =>
      exact absurd releases issued.1

/-- Genuine callbacks are enough for the owner's control. -/
theorem controlled_of_fromOwnPool
    {depth balance : Nat}
    {record : List (Entry FlashArbitrage FlashMessage FlashQuery)}
    {state : FlashArbitrage}
    (reached :
      (contract owner this profitVault).Reaches depth [] (deployed balance)
        record state)
    (genuine : ∀ entry ∈ record, FromOwnPool this entry) :
    ∀ entry ∈ record, Controlled owner entry := by
  have start : OwnerExecutes owner [] (deployed balance) :=
    fun execution inProgress => absurd inProgress List.not_mem_nil
  refine contract_guarantees.reaches_entries ?_ (fun _ => trivial) ?_ start
    reached genuine
  · exact OwnerExecutes.of_sameLock
  intro calls message before owned entered
  exact (code_issues message before).mono
    (fun query state issued =>
      ⟨owned.of_issues issued, controlled_of_issues owned entered issued⟩)
    (fun _ _ => trivial)

/-- A callback that returns has approved the router of its data. -/
theorem exists_approve
    {outside : Effect FlashArbitrage FlashMessage FlashQuery}
    {calls : List FlashMessage}
    {pair initiator : Address}
    {amount0 amount1 : Nat}
    {data : Option ArbParams}
    {state final : FlashArbitrage}
    {record : List (Entry FlashArbitrage FlashMessage FlashQuery)}
    (run :
      Runs outside calls
        (uniswapV2Call this profitVault pair initiator amount0 amount1 data
          state)
        record final) :
    ∃ token spender amount middle,
      .made calls (.approve token spender amount) middle ∈ record := by
  cases data with
  | none =>
      exact absurd run Runs.not_revert
  | some params =>
      have asked := run.of_require.2.of_require.2.of_external
      obtain ⟨-, answer, middle, rest, later, included⟩ := asked
      cases answer with
      | nothing => exact absurd later Runs.not_revert
      | flag ok => exact absurd later Runs.not_revert
      | amounts values => exact absurd later Runs.not_revert
      | address borrowedToken =>
          have approves := later.of_require.2.of_external.1
          exact ⟨_, _, _, _, included approves⟩

/-- The owner's control needs genuine callbacks. -/
theorem fromOwnPool_of_controlled
    {depth balance : Nat}
    {record : List (Entry FlashArbitrage FlashMessage FlashQuery)}
    {state : FlashArbitrage}
    (reached :
      (contract owner this profitVault).Reaches depth [] (deployed balance)
        record state)
    (controlled : ∀ entry ∈ record, Controlled owner entry) :
    ∀ entry ∈ record, FromOwnPool this entry := by
  intro entry member
  cases entry with
  | made calls query state =>
      trivial
  | entered entered =>
      obtain ⟨_, calls, message, before, inner, after, rfl, run, included⟩ :=
        Contract.reaches_of_entered reached member
      obtain ⟨sender, value, function⟩ := message
      cases function with
      | receive => trivial
      | executeArbitrage chosen borrowToken0 amount router2 path minProfit =>
          trivial
      | rescue token amount => trivial
      | rescueETH => trivial
      | uniswapV2Call initiator amount0 amount1 data =>
          intro _
          obtain ⟨token, spender, amount, middle, approves⟩ :=
            exists_approve run.of_require.2
          have underControl := controlled _ (included approves) trivial
          obtain ⟨⟨execution, inProgress, executes, -⟩, -⟩ := underControl
          exact ⟨execution, inProgress, executes⟩

/--
In a run from deployment tokens are released only under the owner's control
exactly if every callback that names this contract as initiator is made by the
pool of an arbitrage in progress.
-/
theorem releases_are_controlled_iff
    {depth balance : Nat}
    {record : List (Entry FlashArbitrage FlashMessage FlashQuery)}
    {state : FlashArbitrage}
    (reached :
      (contract owner this profitVault).Reaches depth [] (deployed balance)
        record state) :
    (∀ entry ∈ record, Controlled owner entry) ↔
      ∀ entry ∈ record, FromOwnPool this entry :=
  ⟨fromOwnPool_of_controlled reached, controlled_of_fromOwnPool reached⟩

/--
The owner, account 1, borrows 100 from pool 5, whose callback sells them on
router 6 for 150; 49 of them go to the vault, account 9.
-/
theorem genuine_callback_is_controlled :
    ∃ record state,
      (contract 1 7 9).Reaches 2 [] (deployed 0) record state ∧
        (∃ calls state', .made calls (.transfer 4 9 49) state' ∈ record) ∧
        ∀ entry ∈ record, Controlled 1 entry := by
  have calledBack (calls : List FlashMessage) :
      (contract 1 7 9).Call 1 calls
        ⟨5, 0, .uniswapV2Call 7 100 0 (some ⟨6, [3, 4], 100, 10⟩)⟩ ⟨0, 1⟩ _
        ⟨0, 1⟩ :=
    ⟨_, rfl,
      .external (.address 3) (.stop _)
        (.external (.flag true) (.stop _)
          (.external (.amounts [100, 150]) (.stop _)
            (.external (.flag true) (.stop _)
              (.external (.flag true) (.stop _) (.done _)))))⟩
  have executed :
      (contract 1 7 9).Call 2 []
        ⟨1, 0, .executeArbitrage 5 true 100 6 [3, 4] 10⟩ ⟨0, 0⟩ _ ⟨0, 0⟩ :=
    ⟨_, rfl,
      .external .nothing (.call (calledBack _) (.stop _)) (.done _)⟩
  have reached :
      (contract 1 7 9).Reaches 2 [] (deployed 0) _ ⟨0, 0⟩ :=
    .call executed (.stop _)
  refine ⟨_, _, reached,
    ⟨[⟨5, 0, .uniswapV2Call 7 100 0 (some ⟨6, [3, 4], 100, 10⟩)⟩,
      ⟨1, 0, .executeArbitrage 5 true 100 6 [3, 4] 10⟩], ⟨0, 1⟩, ?_⟩,
    (releases_are_controlled_iff reached).mpr ?_⟩
  · simp
  · simp [FromOwnPool, Executes]

/--
Account 5 calls back itself, with the contract's address as `sender`, and has
the contract approve it for 100 tokens and transfer 101 more to it.
-/
theorem forged_callback_releases_tokens :
    ¬ ∀ (owner this profitVault : Address) (depth balance : Nat)
        (record : List (Entry FlashArbitrage FlashMessage FlashQuery))
        (state : FlashArbitrage),
        (contract owner this profitVault).Reaches depth []
          (deployed balance) record state →
        ∀ entry ∈ record, Controlled owner entry := by
  intro claim
  have called :
      (contract 1 7 9).Call 1 []
        ⟨5, 0, .uniswapV2Call 7 100 0 (some ⟨5, [4], 0, 0⟩)⟩ ⟨0, 0⟩ _
        ⟨0, 0⟩ :=
    ⟨_, rfl,
      .external (.address 4) (.stop _)
        (.external (.flag true) (.stop _)
          (.external (.amounts [101]) (.stop _)
            (.external (.flag true) (.stop _) (.done _))))⟩
  have reached :
      (contract 1 7 9).Reaches 1 [] (deployed 0) _ ⟨0, 0⟩ :=
    .call called (.stop _)
  have underControl :=
    claim 1 7 9 1 0 _ _ reached
      (.made [⟨5, 0, .uniswapV2Call 7 100 0 (some ⟨5, [4], 0, 0⟩)⟩]
        (.approve 4 5 100) ⟨0, 0⟩)
      (by simp) trivial
  obtain ⟨⟨execution, inProgress, -⟩, -⟩ := underControl
  exact absurd inProgress List.not_mem_nil

end FlashArbitrage

end YieldDaemon
