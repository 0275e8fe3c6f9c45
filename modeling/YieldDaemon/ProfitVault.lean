import YieldDaemon.ReentrantCalls

namespace YieldDaemon

open ReentrantCalls

/-!
# Profit vault

The vault takes ether from anybody and pays it out for its owner.  A payment
runs the code of its recipient, which may call the vault again; a payment to
the vault itself runs `receive`.  Checked arithmetic reverts where a uint256
would overflow.  Events, the views and the reason strings are left out.
-/

/-- An account of the chain. -/
abbrev Address := Nat

/-- The ether and the storage of the vault. -/
structure ProfitVault where
  balance : Nat
  totalDeposited : Nat
  totalWithdrawn : Nat
  depositCount : Nat
  withdrawCount : Nat
  locked : Nat
  /-- Ether that came in without a call; the contract does not see it. -/
  forced : Nat

/-- The functions that change the vault, with their arguments. -/
inductive VaultFunction where
  | receive
  | deposit
  | withdrawAll
  | withdrawTo (target : Address) (amount : Nat)
  | withdrawToken (token target : Address) (amount : Nat)

/-- A call of the vault: `msg.sender`, `msg.value` and the function. -/
structure VaultMessage where
  sender : Address
  value : Nat
  function : VaultFunction

/-- The calls that the vault makes. -/
inductive VaultQuery where
  | pay (target : Address) (amount : Nat)
  | transferToken (token target : Address) (amount : Nat)

/-- Code of the vault; a callee answers with success or failure. -/
abbrev VaultProgram := Program ProfitVault VaultQuery Bool

namespace ProfitVault

/-- The vault after its constructor, with ether sent there before. -/
def deployed (forced : Nat) : ProfitVault where
  balance := forced
  totalDeposited := 0
  totalWithdrawn := 0
  depositCount := 0
  withdrawCount := 0
  locked := 0
  forced := forced

/-- `left + right` on uint256 -/
def checkedAdd (left right : Nat) (next : Nat → VaultProgram) : VaultProgram :=
  .require (left + right < 2 ^ 256) (next (left + right))

/-- Count a deposit whose ether has arrived. -/
def creditDeposit
    (value : Nat)
    (vault : ProfitVault)
    (next : ProfitVault → VaultProgram) : VaultProgram :=
  checkedAdd vault.totalDeposited value fun totalDeposited =>
    checkedAdd vault.depositCount 1 fun depositCount =>
      next { vault with
        totalDeposited := totalDeposited
        depositCount := depositCount }

/-- Receive ETH profits from arbitrage bundles -/
def receive (value : Nat) (vault : ProfitVault) : VaultProgram :=
  creditDeposit value vault .done

/-- Explicit deposit function (also accepts ETH) -/
def deposit (value : Nat) (vault : ProfitVault) : VaultProgram :=
  .require (0 < value) (creditDeposit value vault .done)

/-- `require(msg.sender == owner)` before the body. -/
def onlyOwner
    (owner sender : Address)
    (body : VaultProgram) : VaultProgram :=
  .require (sender = owner) body

/-- The body between taking and releasing the lock. -/
def nonReentrant
    (vault : ProfitVault)
    (body : ProfitVault → (ProfitVault → VaultProgram) → VaultProgram) :
    VaultProgram :=
  .require (vault.locked = 0)
    (body { vault with locked := 1 }
      (fun after => .done { after with locked := 0 }))

/-- `(bool ok, ) = to.call{value: amount}(""); require(ok, ..)` -/
def pay
    (this target : Address)
    (amount : Nat)
    (vault : ProfitVault)
    (next : ProfitVault → VaultProgram) : VaultProgram :=
  .require (amount ≤ vault.balance)
    (if target = this then
      -- The ether comes back at once and `receive` counts it.
      creditDeposit amount vault next
    else
      .external (.pay target amount)
        { vault with balance := vault.balance - amount }
        (fun ok after => .require (ok = true) (next after)))

/-- Count a withdrawal and pay it. -/
def withdraw
    (this target : Address)
    (amount : Nat)
    (vault : ProfitVault)
    (next : ProfitVault → VaultProgram) : VaultProgram :=
  checkedAdd vault.totalWithdrawn amount fun totalWithdrawn =>
    checkedAdd vault.withdrawCount 1 fun withdrawCount =>
      pay this target amount
        { vault with
          totalWithdrawn := totalWithdrawn
          withdrawCount := withdrawCount }
        next

/-- Withdraw all ETH to owner (batch off-ramp trigger) -/
def withdrawAll
    (owner this sender : Address)
    (vault : ProfitVault) : VaultProgram :=
  onlyOwner owner sender
    (nonReentrant vault fun locked next =>
      .require (0 < locked.balance)
        (withdraw this owner locked.balance locked next))

/-- Withdraw specific amount to a target address -/
def withdrawTo
    (owner this sender target : Address)
    (amount : Nat)
    (vault : ProfitVault) : VaultProgram :=
  onlyOwner owner sender
    (nonReentrant vault fun locked next =>
      .require (0 < amount ∧ amount ≤ locked.balance)
        (withdraw this target amount locked next))

/-- Withdraw ERC20 tokens (for stablecoin extraction) -/
def withdrawToken
    (owner this sender token target : Address)
    (amount : Nat)
    (vault : ProfitVault) : VaultProgram :=
  onlyOwner owner sender
    (nonReentrant vault fun locked next =>
      .require (0 < amount)
        -- The vault itself has no function for the selector.
        (.require (token ≠ this)
          (.external (.transferToken token target amount) locked
            (fun ok after => .require (ok = true) (next after)))))

/-- The code of the vault; only `receive` and `deposit` are payable. -/
def code
    (owner this : Address)
    (message : VaultMessage)
    (vault : ProfitVault) : VaultProgram :=
  match message.function with
  | .receive =>
    receive message.value
      { vault with balance := vault.balance + message.value }
  | .deposit =>
    deposit message.value
      { vault with balance := vault.balance + message.value }
  | .withdrawAll =>
    .require (message.value = 0)
      (withdrawAll owner this message.sender vault)
  | .withdrawTo target amount =>
    .require (message.value = 0)
      (withdrawTo owner this message.sender target amount vault)
  | .withdrawToken token target amount =>
    .require (message.value = 0)
      (withdrawToken owner this message.sender token target amount vault)

/-- Ether that arrives without a call, as from a self-destruct. -/
def Forced (before after : ProfitVault) : Prop :=
  ∃ amount,
    after = { before with
      balance := before.balance + amount
      forced := before.forced + amount }

/-- The vault at an address, with its owner. -/
def contract (owner this : Address) :
    Contract ProfitVault VaultMessage VaultQuery Bool where
  code := code owner this
  environment := Forced

/-- What the ether and the counters changed by balances out. -/
def Balanced (before after : ProfitVault) : Prop :=
  after.balance + after.totalWithdrawn +
      (before.totalDeposited + before.forced) =
    after.totalDeposited + after.forced +
      (before.balance + before.totalWithdrawn)

/-- A call balances out and leaves the lock as it was. -/
structure Keeps (before after : ProfitVault) : Prop where
  balanced : Balanced before after
  locked : after.locked = before.locked

theorem Keeps.refl (vault : ProfitVault) : Keeps vault vault :=
  ⟨Nat.add_comm _ _, rfl⟩

theorem Keeps.trans
    {first middle last : ProfitVault}
    (earlier : Keeps first middle)
    (later : Keeps middle last) :
    Keeps first last := by
  have firstBalanced := earlier.balanced
  have lastBalanced := later.balanced
  refine ⟨?_, later.locked.trans earlier.locked⟩
  unfold Balanced at firstBalanced lastBalanced ⊢
  omega

theorem Keeps.of_forced
    {before after : ProfitVault}
    (forced : Forced before after) :
    Keeps before after := by
  obtain ⟨amount, rfl⟩ := forced
  refine ⟨?_, rfl⟩
  simp only [Balanced]
  omega

section Specifications

variable
  {rely : ProfitVault → ProfitVault → Prop}
  {issue : VaultQuery → ProfitVault → Prop}
  {post : ProfitVault → Prop}
  {before vault : ProfitVault}
  {next : ProfitVault → VaultProgram}

@[simp] theorem meets_checkedAdd
    {left right : Nat}
    {next : Nat → VaultProgram} :
    (checkedAdd left right next).Meets rely issue post ↔
      (left + right < 2 ^ 256 →
        (next (left + right)).Meets rely issue post) :=
  Program.meets_require

@[simp] theorem meets_creditDeposit {value : Nat} :
    (creditDeposit value vault next).Meets rely issue post ↔
      (vault.totalDeposited + value < 2 ^ 256 →
        vault.depositCount + 1 < 2 ^ 256 →
          (next { vault with
            totalDeposited := vault.totalDeposited + value
            depositCount := vault.depositCount + 1 }).Meets
              rely issue post) := by
  simp [creditDeposit]

/-- A payment balances out a withdrawal that has been counted. -/
theorem meets_pay
    {this target : Address}
    {amount : Nat}
    (owes :
      vault.balance + vault.totalWithdrawn +
          (before.totalDeposited + before.forced) =
        vault.totalDeposited + vault.forced +
          (before.balance + before.totalWithdrawn) + amount)
    (nextMeets :
      ∀ after, Balanced before after → after.locked = vault.locked →
        (next after).Meets Keeps (fun _ _ => True) post) :
    (pay this target amount vault next).Meets Keeps (fun _ _ => True)
      post := by
  unfold pay
  rw [Program.meets_require]
  intro enough
  split
  · rw [meets_creditDeposit]
    intro _ _
    refine nextMeets _ ?_ rfl
    simp only [Balanced]
    omega
  · refine ⟨trivial, fun ok after kept => ?_⟩
    rw [Program.meets_require]
    intro _
    have balanced := kept.balanced
    refine nextMeets _ ?_ kept.locked
    simp only [Balanced] at balanced ⊢
    omega

theorem meets_withdraw
    {this target : Address}
    {amount : Nat}
    (balanced : Balanced before vault)
    (nextMeets :
      ∀ after, Balanced before after → after.locked = vault.locked →
        (next after).Meets Keeps (fun _ _ => True) post) :
    (withdraw this target amount vault next).Meets Keeps
      (fun _ _ => True) post := by
  unfold withdraw
  rw [meets_checkedAdd]
  intro _
  rw [meets_checkedAdd]
  intro _
  refine meets_pay ?_ nextMeets
  simp only [Balanced] at balanced ⊢
  omega

/-- A body that balances out may run between taking and releasing the lock. -/
theorem meets_nonReentrant
    {body : ProfitVault → (ProfitVault → VaultProgram) → VaultProgram}
    (bodyMeets :
      ∀ next : ProfitVault → VaultProgram,
        (∀ after, Balanced vault after →
          (next after).Meets Keeps (fun _ _ => True) (Keeps vault)) →
        (body { vault with locked := 1 } next).Meets Keeps
          (fun _ _ => True) (Keeps vault)) :
    (nonReentrant vault body).Meets Keeps (fun _ _ => True)
      (Keeps vault) := by
  unfold nonReentrant
  rw [Program.meets_require]
  intro unlocked
  apply bodyMeets
  intro after balanced
  exact ⟨balanced, unlocked.symm⟩

end Specifications

variable {owner this : Address}

/-- Every function keeps the accounts, if reentrant calls do. -/
theorem code_keeps (message : VaultMessage) (vault : ProfitVault) :
    (code owner this message vault).Meets Keeps (fun _ _ => True)
      (Keeps vault) := by
  obtain ⟨sender, value, function⟩ := message
  cases function with
  | receive =>
      simp only [code, receive, meets_creditDeposit, Program.meets_done]
      intro _ _
      refine ⟨?_, rfl⟩
      simp only [Balanced]
      omega
  | deposit =>
      simp only [code, deposit, Program.meets_require, meets_creditDeposit,
        Program.meets_done]
      intro _ _ _
      refine ⟨?_, rfl⟩
      simp only [Balanced]
      omega
  | withdrawAll =>
      simp only [code, withdrawAll, onlyOwner, Program.meets_require]
      intro _ _
      apply meets_nonReentrant
      intro next nextMeets
      rw [Program.meets_require]
      intro _
      exact meets_withdraw (Nat.add_comm _ _)
        (fun after balanced _ => nextMeets after balanced)
  | withdrawTo target amount =>
      simp only [code, withdrawTo, onlyOwner, Program.meets_require]
      intro _ _
      apply meets_nonReentrant
      intro next nextMeets
      rw [Program.meets_require]
      intro _
      exact meets_withdraw (Nat.add_comm _ _)
        (fun after balanced _ => nextMeets after balanced)
  | withdrawToken token target amount =>
      simp only [code, withdrawToken, onlyOwner, Program.meets_require]
      intro _ _
      apply meets_nonReentrant
      intro next nextMeets
      rw [Program.meets_require]
      intro _
      rw [Program.meets_require]
      intro _
      refine ⟨trivial, fun ok after kept => ?_⟩
      rw [Program.meets_require]
      intro _
      exact nextMeets after kept.balanced

theorem contract_guarantees : (contract owner this).Guarantees Keeps where
  refl := Keeps.refl
  trans := Keeps.trans
  environment := Keeps.of_forced
  code := code_keeps

/-- Only a call of the owner can take ether out. -/
theorem code_pays_for_owner
    (message : VaultMessage)
    (vault : ProfitVault) :
    (code owner this message vault).Meets (fun _ _ => True)
      (fun _ _ => True)
      (fun after =>
        message.sender = owner ∨ vault.balance ≤ after.balance) := by
  obtain ⟨sender, value, function⟩ := message
  -- Behind `onlyOwner` the first alternative holds whatever happens.
  have ownerOnly (body : VaultProgram) :
      (onlyOwner owner sender body).Meets (fun _ _ => True)
        (fun _ _ => True)
        (fun after => sender = owner ∨ vault.balance ≤ after.balance) := by
    unfold onlyOwner
    rw [Program.meets_require]
    intro isOwner
    exact Program.meets_of_forall (fun _ _ => trivial)
      (fun _ => .inl isOwner) body
  cases function with
  | receive =>
      simp only [code, receive, meets_creditDeposit, Program.meets_done]
      intro _ _
      exact .inr (Nat.le_add_right _ _)
  | deposit =>
      simp only [code, deposit, Program.meets_require, meets_creditDeposit,
        Program.meets_done]
      intro _ _ _
      exact .inr (Nat.le_add_right _ _)
  | withdrawAll =>
      exact Program.meets_require.mpr (fun _ => ownerOnly _)
  | withdrawTo target amount =>
      exact Program.meets_require.mpr (fun _ => ownerOnly _)
  | withdrawToken token target amount =>
      exact Program.meets_require.mpr (fun _ => ownerOnly _)

/--
After any calls from outside all ether is accounted for, the lock is free, and
the next call takes ether out for the owner only.
-/
theorem ether_is_conserved
    {owner this : Address}
    {depth forced : Nat}
    {record : List (Entry ProfitVault VaultMessage VaultQuery)}
    {vault : ProfitVault}
    (reached :
      (contract owner this).Reaches depth [] (deployed forced) record
        vault) :
    vault.balance + vault.totalWithdrawn =
        vault.totalDeposited + vault.forced ∧
      vault.locked = 0 ∧
      ∀ {depth message record after},
        (contract owner this).Call depth [] message vault record after →
        after.balance < vault.balance → message.sender = owner := by
  have kept := contract_guarantees.reaches reached
  have balanced := kept.balanced
  simp only [Balanced, deployed] at balanced
  refine ⟨by omega, kept.locked, ?_⟩
  intro depth message record after called decreased
  cases depth with
  | zero =>
      exact absurd called not_false
  | succ depth =>
      obtain ⟨inner, -, run⟩ := called
      have paid :=
        run.post_of_meets (fun _ => trivial)
          (code_pays_for_owner message vault)
      exact paid.resolve_right (Nat.not_le.mpr decreased)

/--
The owner, account 1, withdraws 8 and deposits 2 of them again while the
payment is under way.
-/
theorem reentrant_deposit_is_conserved :
    ∃ record vault,
      (contract 1 7).Reaches 2 [] (deployed 3) record vault ∧
        vault.balance = 2 ∧ vault.totalWithdrawn = 8 ∧
        vault.balance + vault.totalWithdrawn =
          vault.totalDeposited + vault.forced := by
  have deposited :
      (contract 1 7).Call 2 [] ⟨2, 5, .deposit⟩ (deployed 3) _
        ⟨8, 5, 0, 1, 0, 0, 3⟩ := ⟨_, rfl, .done _⟩
  have depositedAgain (calls : List VaultMessage) :
      (contract 1 7).Call 1 calls ⟨1, 2, .receive⟩ ⟨0, 5, 8, 1, 1, 1, 3⟩ _
        ⟨2, 7, 8, 2, 1, 1, 3⟩ := ⟨_, rfl, .done _⟩
  have withdrawn :
      (contract 1 7).Call 2 [] ⟨1, 0, .withdrawAll⟩ ⟨8, 5, 0, 1, 0, 0, 3⟩ _
        ⟨2, 7, 8, 2, 1, 0, 3⟩ :=
    ⟨_, rfl,
      .external true (.call (depositedAgain _) (.stop _)) (.done _)⟩
  have reached :
      (contract 1 7).Reaches 2 [] (deployed 3) _ ⟨2, 7, 8, 2, 1, 0, 3⟩ :=
    .call deposited (.call withdrawn (.stop _))
  exact ⟨_, _, reached, rfl, rfl, (ether_is_conserved reached).1⟩

end ProfitVault

end YieldDaemon
