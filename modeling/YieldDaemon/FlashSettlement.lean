import YieldDaemon.FlashRepayment
import YieldDaemon.LabelledRun
import YieldDaemon.SettledCalls

namespace YieldDaemon

open ReentrantCalls LabelledRun

/-!
# Settlement of flash arbitrage

One transaction of the contract runs through the pair, back into its callback,
through a router and out to the vault.  The contracts around are arbitrary, as
long as tokens move what they are told to or revert, a router takes what it was
approved for and pays what it says, and a pair sends the borrow and calls back.
Prices, and what a pair accepts afterwards, are left to them.
-/

/-- What is held of each token, and what the contract has approved. -/
structure TokenLedger where
  holdings : Address → Address → Nat
  allowance : Address → Address → Nat

namespace TokenLedger

/-- A transfer, which reverts without the balance for it. -/
def move
    (ledger : TokenLedger)
    (token source target : Address)
    (amount : Nat) : Option TokenLedger :=
  if amount ≤ ledger.holdings token source then
    let left :=
      Function.update (ledger.holdings token) source
        (ledger.holdings token source - amount)
    some { ledger with
      holdings :=
        Function.update ledger.holdings token
          (Function.update left target (left target + amount)) }
  else
    none

/-- `approve` sets an allowance. -/
def approve
    (ledger : TokenLedger)
    (token spender : Address)
    (amount : Nat) : TokenLedger :=
  { ledger with
    allowance :=
      Function.update ledger.allowance token
        (Function.update (ledger.allowance token) spender amount) }

/-- A spender uses up some of its allowance. -/
def spend
    (ledger : TokenLedger)
    (token spender : Address)
    (amount : Nat) : Option TokenLedger :=
  if amount ≤ ledger.allowance token spender then
    some (ledger.approve token spender
      (ledger.allowance token spender - amount))
  else
    none

/-- An amount of a token at one holder, and nothing elsewhere. -/
def entry
    (token holder : Address)
    (amount : Nat)
    (other anyone : Address) : Nat :=
  if other = token ∧ anyone = holder then amount else 0

variable
  {ledger after : TokenLedger}
  {token source target spender : Address}
  {amount : Nat}

theorem entry_of_ne
    {holder anyone : Address}
    (different : anyone ≠ holder)
    (token : Address)
    (amount : Nat)
    (other : Address) :
    entry token holder amount other anyone = 0 :=
  if_neg (fun same => different same.2)

theorem entry_self
    (token holder : Address)
    (amount : Nat)
    (other : Address) :
    entry token holder amount other holder =
      if other = token then amount else 0 :=
  if_congr (and_iff_left rfl) rfl rfl

/-- What leaves the source arrives at the target. -/
theorem holdings_move
    (moved : ledger.move token source target amount = some after)
    (other holder : Address) :
    after.holdings other holder + entry token source amount other holder =
      ledger.holdings other holder +
        entry token target amount other holder := by
  unfold move at moved
  unfold entry
  split at moved
  next covered =>
    obtain rfl := Option.some.inj moved
    by_cases sameToken : other = token
    · subst sameToken
      by_cases isSource : holder = source <;>
        by_cases isTarget : holder = target <;>
        simp [Function.update_apply, isSource, isTarget] <;> grind
    · simp [Function.update_apply, sameToken]
  next =>
    cases moved

theorem allowance_move
    (moved : ledger.move token source target amount = some after) :
    after.allowance = ledger.allowance := by
  unfold move at moved
  split at moved
  · obtain rfl := Option.some.inj moved
    rfl
  · cases moved

/-- Nothing is left of an allowance that was set and used up. -/
theorem spend_approve
    (spent :
      (ledger.approve token spender amount).spend token spender amount =
        some after) :
    after.holdings = ledger.holdings ∧
      after.allowance =
        Function.update ledger.allowance token
          (Function.update (ledger.allowance token) spender 0) := by
  unfold spend at spent
  split at spent
  · obtain rfl := Option.some.inj spent
    refine ⟨rfl, ?_⟩
    simp [approve]
  · cases spent

end TokenLedger

/-- The contract at an address, with its owner and its vault. -/
structure FlashSite where
  owner : Address
  this : Address
  profitVault : Address

/-- How a callee leaves the contract and the tokens, if it does not revert. -/
abbrev FlashHandler :=
  Handler FlashArbitrage FlashQuery FlashAnswer TokenLedger

/--
A router that answers with these amounts has taken its input, the first token
of the path, out of its allowance, and paid the last amount in the last token.
-/
def SwapsTokens
    (site : FlashSite)
    (router : Address)
    (amountIn : Nat)
    (path : List Address)
    (target : Address)
    (amounts : List Nat)
    (before after : TokenLedger) : Prop :=
  ∃ input output outputAmount spent taken,
    path.head? = some input ∧
      path.getLast? = some output ∧
      amounts.getLast? = some outputAmount ∧
      before.spend input router amountIn = some spent ∧
      spent.move input site.this router amountIn = some taken ∧
      taken.move output router target outputAmount = some after

/--
The contracts around, and what is relied on of them: they do what they are
asked for, or revert, and do not call back beyond the pair's callback.
-/
structure FlashMarket (site : FlashSite) where
  token0 : Address → Address
  token1 : Address → Address
  /-- The answers during a callback. -/
  answer : FlashHandler
  /-- The answers of pairs to the first call of an arbitrage. -/
  lend : FlashHandler
  token0_answers :
    ∀ {pool state ledger reply},
      answer (.token0 pool) state ledger = some reply →
        reply = (.address (token0 pool), state, ledger)
  token1_answers :
    ∀ {pool state ledger reply},
      answer (.token1 pool) state ledger = some reply →
        reply = (.address (token1 pool), state, ledger)
  approve_answers :
    ∀ {token spender amount state ledger reply},
      answer (.approve token spender amount) state ledger = some reply →
        ∃ ok, reply = (.flag ok, state, ledger.approve token spender amount)
  transfer_answers :
    ∀ {token target amount state ledger reply},
      answer (.transfer token target amount) state ledger = some reply →
        ∃ ok moved,
          ledger.move token site.this target amount = some moved ∧
            reply = (.flag ok, state, moved)
  swap_answers :
    ∀ {router amountIn amountOutMin path target state ledger reply},
      answer
          (.swapExactTokensForTokens router amountIn amountOutMin path
            target)
          state ledger = some reply →
        ∃ amounts settled,
          SwapsTokens site router amountIn path target amounts ledger
              settled ∧
            reply = (.amounts amounts, state, settled)
  /-- A pair sends what is borrowed, and calls back. -/
  lend_answers :
    ∀ {pool amount0Out amount1Out target data state ledger reply},
      lend (.swap pool amount0Out amount1Out target data) state ledger =
          some reply →
        ¬ (amount0Out = 0 ∧ amount1Out = 0) ∧
          ∃ first sent after settled,
            ledger.move (token0 pool) pool target amount0Out = some first ∧
              first.move (token1 pool) pool target amount1Out = some sent ∧
              (FlashArbitrage.code site.owner site.this site.profitVault
                ⟨pool, 0,
                  .uniswapV2Call site.this amount0Out amount1Out
                    (some data)⟩
                state).settle answer sent = some (after, settled) ∧
              reply = (.nothing, after, settled)

/-- An order to execute an arbitrage, whoever sends it. -/
structure FlashOrder where
  sender : Address
  pool : Address
  borrowToken0 : Bool
  amount : Nat
  router2 : Address
  path : List Address
  minProfit : Nat

namespace FlashOrder

open FlashArbitrage

/-- The message of the order. -/
def message (order : FlashOrder) : FlashMessage where
  sender := order.sender
  value := 0
  function :=
    .executeArbitrage order.pool order.borrowToken0 order.amount
      order.router2 order.path order.minProfit

/-- The transaction of the order; nothing is left of one that reverts. -/
def transact
    {site : FlashSite}
    (market : FlashMarket site)
    (order : FlashOrder)
    (state : FlashArbitrage)
    (ledger : TokenLedger) : Option (FlashArbitrage × TokenLedger) :=
  (code site.owner site.this site.profitVault order.message state).settle
    market.lend ledger

end FlashOrder

/-! The callback. -/

namespace FlashMarket

open FlashArbitrage TokenLedger

variable
  {site : FlashSite}
  {market : FlashMarket site}
  {state after : FlashArbitrage}
  {ledger settled : TokenLedger}
  {pool router : Address}
  {amount : Nat}
  {path : List Address}

/-- A call of another contract is answered by the market. -/
theorem settle_callOther
    {handle : FlashHandler}
    {target : Address}
    {query : FlashQuery}
    {resume : FlashAnswer → FlashArbitrage → FlashProgram}
    {result : FlashArbitrage × TokenLedger}
    (returned :
      (callOther site.this target query state resume).settle handle ledger =
        some result) :
    target ≠ site.this ∧
      ∃ answer next later,
        handle query state ledger = some (answer, next, later) ∧
          (resume answer next).settle handle later = some result := by
  obtain ⟨isOther, called⟩ := Program.settle_require.mp returned
  exact ⟨isOther, Program.settle_external.mp called⟩

/-- A transfer moves the amount, and the program goes on in its state. -/
theorem settle_transfer
    {token target : Address}
    {next : FlashArbitrage → FlashProgram}
    {result : FlashArbitrage × TokenLedger}
    (returned :
      (FlashArbitrage.transfer site.this token target amount state
        next).settle market.answer ledger = some result) :
    ∃ moved,
      ledger.move token site.this target amount = some moved ∧
        (next state).settle market.answer moved = some result := by
  obtain ⟨-, answer, later, world, answered, resumed⟩ :=
    settle_callOther returned
  obtain ⟨ok, moved, moving, same⟩ := market.transfer_answers answered
  obtain ⟨rfl, rfl, rfl⟩ := same
  exact ⟨world, moving, resumed⟩

/-- What the last steps of a callback have moved. -/
structure Repays
    (site : FlashSite)
    (pool repayToken : Address)
    (borrowed output minProfit : Nat)
    (before after : TokenLedger) : Prop where
  enough : minProfit ≤ output - (borrowed * 1000 / 997 + 1)
  allowance : after.allowance = before.allowance
  holdings :
    ∀ other holder,
      after.holdings other holder +
          entry repayToken site.this (borrowed * 1000 / 997 + 1) other
            holder +
          entry repayToken site.this
            (output - (borrowed * 1000 / 997 + 1)) other holder =
        before.holdings other holder +
          entry repayToken pool (borrowed * 1000 / 997 + 1) other holder +
          entry repayToken site.profitVault
            (output - (borrowed * 1000 / 997 + 1)) other holder

theorem settle_repay
    {params : ArbParams}
    {amounts : List Nat}
    {output : Nat}
    {repayToken : Address}
    (isOutput : amounts.getLast? = some output)
    (isLast : params.path.getLast? = some repayToken)
    (returned :
      (repay site.this site.profitVault pool params amount amounts
        state).settle market.answer ledger = some (after, settled)) :
    after = state ∧
      Repays site pool repayToken amount output params.minProfit ledger
        settled := by
  unfold repay at returned
  rw [isOutput, isLast] at returned
  have profitEq :
      (if amount * 1000 / 997 + 1 < output then
          output - (amount * 1000 / 997 + 1) else 0) =
        output - (amount * 1000 / 997 + 1) := by
    split <;> omega
  dsimp only at returned
  rw [profitEq] at returned
  obtain ⟨-, returned⟩ := Program.settle_require.mp returned
  obtain ⟨enough, returned⟩ := Program.settle_require.mp returned
  obtain ⟨repaid, repaying, returned⟩ := settle_transfer returned
  split at returned
  · obtain ⟨paid, paying, returned⟩ := settle_transfer returned
    obtain ⟨rfl, rfl⟩ :=
      Prod.mk.inj (Program.settle_done.mp returned)
    refine ⟨rfl, enough, ?_, fun other holder => ?_⟩
    · rw [allowance_move paying, allowance_move repaying]
    · have first := holdings_move repaying other holder
      have second := holdings_move paying other holder
      omega
  next noProfit =>
    obtain ⟨rfl, rfl⟩ :=
      Prod.mk.inj (Program.settle_done.mp returned)
    refine ⟨rfl, enough, allowance_move repaying, fun other holder => ?_⟩
    have first := holdings_move repaying other holder
    have zero : output - (amount * 1000 / 997 + 1) = 0 := by
      omega
    have nothing (who : Address) :
        entry repayToken who 0 other holder = 0 := by
      unfold entry
      split <;> rfl
    rw [zero, nothing, nothing]
    omega

/-- No allowance is left. -/
def Unapproved (ledger : TokenLedger) : Prop :=
  ∀ token spender, ledger.allowance token spender = 0

/-- What a callback has moved, from the borrow on. -/
structure Arbitrages
    (site : FlashSite)
    (pool router borrowedToken repayToken : Address)
    (borrowed output minProfit : Nat)
    (before after : TokenLedger) : Prop where
  enough : minProfit ≤ output - (borrowed * 1000 / 997 + 1)
  unapproved : Unapproved after
  holdings :
    ∀ other holder,
      after.holdings other holder +
          entry borrowedToken site.this borrowed other holder +
          entry repayToken router output other holder +
          entry repayToken site.this (borrowed * 1000 / 997 + 1) other
            holder +
          entry repayToken site.this
            (output - (borrowed * 1000 / 997 + 1)) other holder =
        before.holdings other holder +
          entry borrowedToken router borrowed other holder +
          entry repayToken site.this output other holder +
          entry repayToken pool (borrowed * 1000 / 997 + 1) other holder +
          entry repayToken site.profitVault
            (output - (borrowed * 1000 / 997 + 1)) other holder

/-- The router can only take the token that was approved for it. -/
theorem settle_secondSwap
    {params : ArbParams}
    {borrowedToken : Address}
    (positive : 0 < amount)
    (unapproved : Unapproved ledger)
    (returned :
      (secondSwap site.this site.profitVault pool params amount
        borrowedToken state).settle market.answer ledger =
          some (after, settled)) :
    after = state ∧
      params.router2 ≠ site.this ∧
      ∃ output repayToken,
        params.path.getLast? = some repayToken ∧
          Arbitrages site pool params.router2 borrowedToken repayToken
            amount output params.minProfit ledger settled := by
  obtain ⟨-, answer, approved, world, answered, resumed⟩ :=
    settle_callOther returned
  obtain ⟨ok, same⟩ := market.approve_answers answered
  obtain ⟨rfl, rfl, rfl⟩ := same
  obtain ⟨isOther, answer, swapped, later, exchanged, finished⟩ :=
    settle_callOther resumed
  obtain ⟨amounts, paid, swaps, same⟩ := market.swap_answers exchanged
  obtain ⟨rfl, rfl, rfl⟩ := same
  obtain ⟨input, repayToken, output, spent, taken, -, isLast, isOutput,
    spending, taking, paying⟩ := swaps
  -- Any other token would need an allowance from before.
  obtain rfl : input = borrowedToken := by
    by_contra different
    have nothing :
        (ledger.approve borrowedToken params.router2 amount).allowance input
          params.router2 = 0 := by
      simp [approve, different, unapproved input params.router2]
    have covered :
        amount ≤
          (ledger.approve borrowedToken params.router2 amount).allowance
            input params.router2 := by
      unfold spend at spending
      split at spending
      next covered => exact covered
      next => cases spending
    omega
  obtain ⟨spentHoldings, spentAllowance⟩ := spend_approve spending
  obtain ⟨sameState, repays⟩ := settle_repay isOutput isLast finished
  refine ⟨sameState, isOther, output, repayToken, isLast, repays.enough, ?_,
    fun other holder => ?_⟩
  · intro token spender
    rw [repays.allowance, allowance_move paying, allowance_move taking,
      spentAllowance]
    by_cases sameToken : token = input
    · rw [sameToken, Function.update_self]
      by_cases sameSpender : spender = params.router2
      · rw [sameSpender, Function.update_self]
      · rw [Function.update_of_ne sameSpender]
        exact unapproved input spender
    · rw [Function.update_of_ne sameToken]
      exact unapproved token spender
  · have first := holdings_move taking other holder
    have second := holdings_move paying other holder
    have third := repays.holdings other holder
    rw [spentHoldings] at first
    omega

/-- What a callback in the name of the contract has done. -/
theorem settle_uniswapV2Call
    {initiator : Address}
    {amount0 amount1 : Nat}
    {params : ArbParams}
    (positive : ¬ (amount0 = 0 ∧ amount1 = 0))
    (unapproved : Unapproved ledger)
    (returned :
      (uniswapV2Call site.this site.profitVault pool initiator amount0
        amount1 (some params) state).settle market.answer ledger =
          some (after, settled)) :
    after = state ∧
      params.router2 ≠ site.this ∧
      ∃ output repayToken,
        params.path.getLast? = some repayToken ∧
          Arbitrages site pool params.router2
            (if 0 < amount0 then market.token0 pool else market.token1 pool)
            repayToken (if 0 < amount0 then amount0 else amount1) output
            params.minProfit ledger settled := by
  obtain ⟨-, returned⟩ := Program.settle_require.mp returned
  obtain ⟨-, answer, asked, world, answered, returned⟩ :=
    settle_callOther returned
  have same :
      (answer, asked, world) =
        (.address
          (if 0 < amount0 then market.token0 pool else market.token1 pool),
          state, ledger) := by
    split at answered
    next isToken0 =>
      rw [if_pos isToken0]
      exact market.token0_answers answered
    next isToken1 =>
      rw [if_neg isToken1]
      exact market.token1_answers answered
  obtain ⟨rfl, rfl, rfl⟩ := same
  exact settle_secondSwap (by split <;> omega) unapproved returned

end FlashMarket

namespace FlashOrder

open FlashArbitrage FlashMarket TokenLedger

variable
  {site : FlashSite}
  {market : FlashMarket site}
  {order : FlashOrder}
  {state after : FlashArbitrage}
  {ledger settled : TokenLedger}

/-- What is repaid for the borrow. -/
def repayment (order : FlashOrder) : Nat :=
  order.amount * 1000 / 997 + 1

/-- What a transaction that goes through has done. -/
structure Settles
    (site : FlashSite)
    (order : FlashOrder)
    (repayToken : Address)
    (output : Nat)
    (before after : TokenLedger) : Prop where
  isOwner : order.sender = site.owner
  isLast : order.path.getLast? = some repayToken
  enough : order.minProfit ≤ output - order.repayment
  unapproved : Unapproved after
  /-- The contract makes up for what the output is short of. -/
  contract :
    ∀ token,
      after.holdings token site.this +
          (if token = repayToken then order.repayment - output else 0) =
        before.holdings token site.this
  vault :
    ∀ token,
      after.holdings token site.profitVault =
        before.holdings token site.profitVault +
          (if token = repayToken then output - order.repayment else 0)

/-- The pair sends the borrow of the order, in the token it asks for. -/
theorem holdings_borrow
    {borrowToken0 : Bool}
    {pool token0 token1 target : Address}
    {amount : Nat}
    {first sent : TokenLedger}
    (moving :
      ledger.move token0 pool target (if borrowToken0 then amount else 0) =
        some first)
    (sending :
      first.move token1 pool target (if borrowToken0 then 0 else amount) =
        some sent)
    (other holder : Address) :
    sent.holdings other holder +
        entry (if borrowToken0 then token0 else token1) pool amount other
          holder =
      ledger.holdings other holder +
        entry (if borrowToken0 then token0 else token1) target amount other
          holder := by
  have first := holdings_move moving other holder
  have second := holdings_move sending other holder
  have nothing (token who : Address) : entry token who 0 other holder = 0 :=
    ite_self 0
  cases borrowToken0 with
  | false =>
      simp only [Bool.false_eq_true, if_false, nothing] at *
      omega
  | true =>
      simp only [if_true, nothing] at *
      omega

/-- A transaction goes through only as `Settles` says, and unlocks. -/
theorem transact_settles
    (vaultApart :
      site.profitVault ≠ site.this ∧ site.profitVault ≠ order.pool ∧
        site.profitVault ≠ order.router2)
    (unapproved : Unapproved ledger)
    (went :
      order.transact market state ledger = some (after, settled)) :
    after = state ∧
      ∃ repayToken output,
        order.Settles site repayToken output ledger settled := by
  obtain ⟨vaultThis, vaultPool, vaultRouter⟩ := vaultApart
  obtain ⟨-, went⟩ := Program.settle_require.mp went
  obtain ⟨isOwner, went⟩ := Program.settle_require.mp went
  obtain ⟨unlocked, went⟩ := Program.settle_require.mp went
  obtain ⟨poolOther, answer, lentState, lentLedger, answered, went⟩ :=
    settle_callOther went
  obtain ⟨positive, first, sent, inner, world, moving, sending, called, same⟩ :=
    market.lend_answers answered
  obtain ⟨rfl, rfl, rfl⟩ := same
  obtain ⟨rfl, rfl⟩ := Prod.mk.inj (Program.settle_done.mp went)
  obtain ⟨-, called⟩ := Program.settle_require.mp called
  have sentUnapproved : Unapproved sent := by
    intro token spender
    rw [allowance_move sending, allowance_move moving]
    exact unapproved token spender
  obtain ⟨rfl, routerOther, output, repayToken, isLast, arbitrages⟩ :=
    settle_uniswapV2Call positive sentUnapproved called
  have sentHoldings := holdings_borrow moving sending
  have chosen :
      (0 < if order.borrowToken0 then order.amount else 0) ↔
        order.borrowToken0 = true := by
    cases borrowed : order.borrowToken0 <;> simp [borrowed] at positive ⊢
    omega
  have borrowedAmount :
      (if order.borrowToken0 = true then
          if order.borrowToken0 = true then order.amount else 0
        else if order.borrowToken0 = true then 0 else order.amount) =
        order.amount := by
    split <;> rfl
  simp only [chosen, borrowedAmount] at arbitrages
  generalize (if order.borrowToken0 = true then market.token0 order.pool
    else market.token1 order.pool) = borrowedToken at arbitrages sentHoldings
  have restored : { state with locked := 0 } = state := by
    rw [← unlocked]
  refine ⟨restored, repayToken, output, isOwner, isLast, arbitrages.enough,
    arbitrages.unapproved, fun token => ?_, fun token => ?_⟩
  · have first := sentHoldings token site.this
    have second := arbitrages.holdings token site.this
    simp only [entry_of_ne routerOther.symm, entry_of_ne poolOther.symm,
      entry_of_ne vaultThis.symm, entry_self] at first second
    unfold repayment
    by_cases repaid : token = repayToken
    · simp only [if_pos repaid] at second ⊢
      omega
    · simp only [if_neg repaid] at second ⊢
      omega
  · have first := sentHoldings token site.profitVault
    have second := arbitrages.holdings token site.profitVault
    simp only [entry_of_ne vaultPool, entry_of_ne vaultThis,
      entry_of_ne vaultRouter, entry_self] at first second
    unfold repayment
    omega

end FlashOrder

/-- The contract between two transactions, with the tokens around it. -/
structure FlashWorld where
  contract : FlashArbitrage
  ledger : TokenLedger

/-- What happens to the contract. -/
inductive FlashEvent where
  | completed (order : FlashOrder)
  | reverted (order : FlashOrder)
  /-- Others trade, and may send tokens to the contract and the vault. -/
  | others

namespace FlashEvent

/-- The least profit in a token that an event brings. -/
def earned (token : Address) : FlashEvent → Nat
  | completed order =>
      if order.path.getLast? = some token then order.minProfit else 0
  | reverted _ => 0
  | others => 0

/-- A completed order asks for a profit, of accounts other than the vault. -/
def Profitable (site : FlashSite) : FlashEvent → Prop
  | completed order =>
      0 < order.minProfit ∧ site.profitVault ≠ site.this ∧
        site.profitVault ≠ order.pool ∧ site.profitVault ≠ order.router2
  | reverted _ => True
  | others => True

end FlashEvent

/-- One event; the prices may be new ones each time. -/
inductive FlashStep (site : FlashSite) :
    FlashWorld → FlashEvent → FlashWorld → Prop where
  | completed
      {before after : FlashWorld}
      (market : FlashMarket site)
      (order : FlashOrder)
      (went :
        order.transact market before.contract before.ledger =
          some (after.contract, after.ledger)) :
      FlashStep site before (.completed order) after
  | reverted
      {before : FlashWorld}
      (market : FlashMarket site)
      (order : FlashOrder)
      (failed :
        order.transact market before.contract before.ledger = none) :
      FlashStep site before (.reverted order) before
  | others
      {before : FlashWorld}
      {later : TokenLedger}
      (sameAllowance : later.allowance = before.ledger.allowance)
      (received :
        ∀ token holder, holder = site.this ∨ holder = site.profitVault →
          before.ledger.holdings token holder ≤ later.holdings token holder) :
      FlashStep site before .others ⟨before.contract, later⟩

/-- What holds once some events have happened. -/
structure FlashGains
    (site : FlashSite)
    (initial : FlashWorld)
    (events : List FlashEvent)
    (world : FlashWorld) : Prop where
  sameContract : world.contract = initial.contract
  unapproved : FlashMarket.Unapproved world.ledger
  owned :
    ∀ order, .completed order ∈ events → order.sender = site.owner
  kept :
    ∀ token,
      initial.ledger.holdings token site.this ≤
        world.ledger.holdings token site.this
  gained :
    ∀ token,
      initial.ledger.holdings token site.profitVault +
          (events.map (FlashEvent.earned token)).sum ≤
        world.ledger.holdings token site.profitVault

namespace FlashGains

variable
  {site : FlashSite}
  {initial before after : FlashWorld}
  {events : List FlashEvent}
  {event : FlashEvent}

/-- What an event that is no completed order leaves. -/
theorem snoc
    {world : FlashWorld}
    (gains : FlashGains site initial events before)
    (sameContract : world.contract = before.contract)
    (unapproved : FlashMarket.Unapproved world.ledger)
    (owned : ∀ order, event = .completed order → order.sender = site.owner)
    (kept :
      ∀ token,
        before.ledger.holdings token site.this ≤
          world.ledger.holdings token site.this)
    (gained :
      ∀ token,
        before.ledger.holdings token site.profitVault + event.earned token ≤
          world.ledger.holdings token site.profitVault) :
    FlashGains site initial (events ++ [event]) world where
  sameContract := sameContract.trans gains.sameContract
  unapproved := unapproved
  owned order member := by
    rcases List.mem_append.mp member with earlier | last
    · exact gains.owned order earlier
    · exact owned order (List.mem_singleton.mp last).symm
  kept token := (gains.kept token).trans (kept token)
  gained token := by
    have soFar := gains.gained token
    have now := gained token
    rw [List.map_append, List.sum_append, List.map_singleton,
      List.sum_singleton]
    omega

/-- Every event keeps what the contract has, and adds up for the vault. -/
theorem step
    (gains : FlashGains site initial events before)
    (profitable : event.Profitable site)
    (stepped : FlashStep site before event after) :
    FlashGains site initial (events ++ [event]) after := by
  cases stepped with
  | completed market order went =>
      obtain ⟨positive, vaultApart⟩ := profitable
      obtain ⟨restored, repayToken, output, settles⟩ :=
        FlashOrder.transact_settles vaultApart gains.unapproved went
      have enough := settles.enough
      refine gains.snoc restored settles.unapproved ?_ (fun token => ?_)
        (fun token => ?_)
      · intro other same
        obtain rfl := FlashEvent.completed.inj same
        exact settles.isOwner
      · -- A positive profit leaves nothing to make up for.
        have made := settles.contract token
        have noShortfall : order.repayment - output = 0 := by
          omega
        rw [noShortfall, ite_self] at made
        exact made.ge
      · rw [settles.vault token]
        simp only [FlashEvent.earned, settles.isLast]
        by_cases same : token = repayToken
        · rw [if_pos same, if_pos (congrArg some same.symm)]
          omega
        · have different : some repayToken ≠ some token :=
            fun equal => same (Option.some.inj equal).symm
          rw [if_neg same, if_neg different]
  | reverted market order failed =>
      exact gains.snoc rfl gains.unapproved nofun (fun _ => le_rfl)
        (fun _ => le_rfl)
  | others sameAllowance received =>
      refine gains.snoc rfl ?_ nofun
        (fun token => received token site.this (.inl rfl))
        (fun token => received token site.profitVault (.inr rfl))
      intro token spender
      rw [sameAllowance]
      exact gains.unapproved token spender

end FlashGains

namespace FlashMarket

variable
  (site : FlashSite)
  (token0 token1 : Address)
  (output : Nat)

/-- A router that pays one fixed amount. -/
def swapFor
    (router : Address)
    (amountIn amountOutMin : Nat)
    (path : List Address)
    (target : Address)
    (ledger : TokenLedger) : Option TokenLedger :=
  path.head?.bind fun input =>
    path.getLast?.bind fun last =>
      (ledger.spend input router amountIn).bind fun spent =>
        (spent.move input site.this router amountIn).bind fun taken =>
          if amountOutMin ≤ output then
            taken.move last router target output
          else
            none

/-- Tokens and routers as they should be. -/
def fixedAnswer : FlashHandler
  | .token0 _, state, ledger => some (.address token0, state, ledger)
  | .token1 _, state, ledger => some (.address token1, state, ledger)
  | .approve token spender amount, state, ledger =>
      some (.flag true, state, ledger.approve token spender amount)
  | .swapExactTokensForTokens router amountIn amountOutMin path target,
      state, ledger =>
      (swapFor site output router amountIn amountOutMin path target
        ledger).map fun settled =>
          (.amounts [amountIn, output], state, settled)
  | .transfer token target amount, state, ledger =>
      (ledger.move token site.this target amount).map
        fun moved => (.flag true, state, moved)
  | _, _, _ => none

/-- Pairs that lend and do not check what comes back. -/
def fixedLend : FlashHandler
  | .swap pool amount0Out amount1Out target data, state, ledger =>
      if amount0Out = 0 ∧ amount1Out = 0 then
        none
      else
        (ledger.move token0 pool target amount0Out).bind fun first =>
          (first.move token1 pool target amount1Out).bind fun sent =>
            ((FlashArbitrage.code site.owner site.this site.profitVault
              ⟨pool, 0,
                .uniswapV2Call site.this amount0Out amount1Out (some data)⟩
              state).settle (fixedAnswer site token0 token1 output)
              sent).map fun settled => (.nothing, settled)
  | _, _, _ => none

/-- Two tokens, one output amount, and lenders that trust the contract. -/
def fixed : FlashMarket site where
  token0 _ := token0
  token1 _ := token1
  answer := fixedAnswer site token0 token1 output
  lend := fixedLend site token0 token1 output
  token0_answers answered := (Option.some.inj answered).symm
  token1_answers answered := (Option.some.inj answered).symm
  approve_answers answered := ⟨true, (Option.some.inj answered).symm⟩
  transfer_answers answered := by
    obtain ⟨moved, moving, rfl⟩ := Option.map_eq_some_iff.mp answered
    exact ⟨true, moved, moving, rfl⟩
  swap_answers answered := by
    obtain ⟨settled, swapped, rfl⟩ := Option.map_eq_some_iff.mp answered
    unfold swapFor at swapped
    simp only [Option.bind_eq_some_iff] at swapped
    obtain ⟨input, isHead, last, isLast, spent, spending, taken, taking,
      paying⟩ := swapped
    split at paying
    · exact ⟨_, settled,
        ⟨input, last, output, spent, taken, isHead, isLast, rfl, spending,
          taking, paying⟩, rfl⟩
    · cases paying
  lend_answers answered := by
    dsimp only [fixedLend] at answered
    split at answered
    · cases answered
    next positive =>
      simp only [Option.bind_eq_some_iff, Option.map_eq_some_iff] at answered
      obtain ⟨first, moving, sent, sending, ⟨after, settled⟩, called, rfl⟩ :=
        answered
      exact ⟨positive, first, sent, after, settled, moving, sending, called,
        rfl⟩

end FlashMarket

namespace FlashOrder

/--
Whoever sends orders, and at whatever prices, only the owner's complete; the
contract never loses a token to them, its lock and allowances are back after
each, and the vault gets at least the minimum profit of each one completed.
-/
theorem orders_pay_the_vault
    {site : FlashSite}
    {initial final : FlashWorld}
    {events : List FlashEvent}
    (unapproved : FlashMarket.Unapproved initial.ledger)
    (profitable : ∀ event ∈ events, event.Profitable site)
    (run : Run (FlashStep site) initial events final) :
    FlashGains site initial events final := by
  have gains : FlashGains site initial [] initial := by
    refine ⟨rfl, unapproved, fun order member => ?_, fun _ => le_rfl,
      fun _ => le_rfl⟩
    exact absurd member List.not_mem_nil
  exact (run.restrict profitable).preserves_logged
    (FlashGains site initial)
    (fun soFar taken => soFar.step taken.1 taken.2)
    gains

/--
The owner, account 1, borrows 100 of token 3 from pool 5 and sells them on
router 6 for 150 of token 4; the 49 left go to the vault, account 9.
-/
theorem order_of_owner_pays_the_vault :
    let site : FlashSite := ⟨1, 7, 9⟩
    let ledger : TokenLedger :=
      ⟨fun token holder =>
        if token = 3 ∧ holder = 5 then 100
        else if token = 4 ∧ holder = 6 then 150
        else 0, fun _ _ => 0⟩
    ∃ final,
      FlashGains site ⟨⟨0, 0⟩, ledger⟩
        [.completed ⟨1, 5, true, 100, 6, [3, 4], 10⟩] final ∧
        final.ledger.holdings 4 9 = 49 := by
  let market : FlashMarket ⟨1, 7, 9⟩ := .fixed ⟨1, 7, 9⟩ 3 4 150
  let ledger : TokenLedger :=
    ⟨fun token holder =>
      if token = 3 ∧ holder = 5 then 100
      else if token = 4 ∧ holder = 6 then 150
      else 0, fun _ _ => 0⟩
  let order : FlashOrder := ⟨1, 5, true, 100, 6, [3, 4], 10⟩
  obtain ⟨⟨state, settled⟩, went, paid⟩ :
      ∃ result,
        order.transact market ⟨0, 0⟩ ledger = some result ∧
          result.2.holdings 4 9 = 49 := by
    have computed :
        (order.transact market ⟨0, 0⟩ ledger).map
          (fun result => result.2.holdings 4 9) = some 49 := by
      decide +kernel
    exact Option.map_eq_some_iff.mp computed
  have completed :
      FlashStep ⟨1, 7, 9⟩ ⟨⟨0, 0⟩, ledger⟩ (.completed order)
        ⟨state, settled⟩ :=
    .completed market order went
  exact ⟨⟨state, settled⟩,
    orders_pay_the_vault (fun _ _ => rfl)
      (by simp [FlashEvent.Profitable])
      (.cons completed (.nil _)),
    paid⟩

end FlashOrder

end YieldDaemon
