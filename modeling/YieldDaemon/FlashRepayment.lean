import YieldDaemon.FlashArbitrage

namespace YieldDaemon

open ReentrantCalls

/-!
# Repaying a flash swap

The callback repays a fixed multiple of what it borrowed, in the last token of
its path.  The pair is outside the contract: it keeps its reserves as balances,
and its swap checks the product of the balances less 0.3 percent of what came
in.  What is due in the borrowed token depends on the borrow alone, what is due
in the other token on the reserves as well.
-/

/-- One of the two tokens of a pair. -/
inductive PairToken where
  | token0
  | token1
deriving DecidableEq

/-- The other token of the pair. -/
def PairToken.other : PairToken → PairToken
  | token0 => token1
  | token1 => token0

/-- An amount of one token of the pair, and none of the other. -/
def PairToken.only (chosen : PairToken) (amount : Nat) (token : PairToken) :
    Nat :=
  if token = chosen then amount else 0

/-- The reserves of a pair, positive `uint112` values. -/
structure PairReserves where
  reserve : PairToken → Nat
  positive : ∀ token, 0 < reserve token
  fits : ∀ token, reserve token < 2 ^ 112

/-- `repayAmount` of the callback. -/
def FlashArbitrage.repayAmount (amount0 amount1 : Nat) : Nat :=
  let borrowedAmount := if 0 < amount0 then amount0 else amount1
  borrowedAmount * 1000 / 997 + 1

/--
An amount that covers what is due exceeds no other such amount by more than
the slack exactly if it covers less than one unit beyond the slack too much.
-/
theorem near_least_iff
    {due unit payment slack : Nat}
    (positive : 0 < unit) :
    (due ≤ unit * payment ∧
        ∀ smaller, due ≤ unit * smaller → payment ≤ smaller + slack) ↔
      due ≤ unit * payment ∧ unit * payment < due + (slack + 1) * unit := by
  refine and_congr_right (fun covers => ⟨fun near => ?_, fun narrow => ?_⟩)
  · -- The least amount is what is due, divided and rounded up.
    have divided := Nat.div_add_mod (due + unit - 1) unit
    have remainder := Nat.mod_lt (due + unit - 1) positive
    generalize (due + unit - 1) / unit = least at divided
    have leastNear := near least (by omega)
    calc
      unit * payment ≤ unit * (least + slack) :=
        Nat.mul_le_mul_left unit leastNear
      _ = unit * least + slack * unit := by ring
      _ < due + (slack + 1) * unit := by
        rw [Nat.succ_mul]
        omega
  · intro smaller smallerCovers
    by_contra far
    have multiplied : unit * (smaller + slack + 1) ≤ unit * payment :=
      Nat.mul_le_mul_left unit (by omega)
    have expanded :
        unit * (smaller + slack + 1) = unit * smaller + (slack + 1) * unit := by
      ring
    omega

namespace PairReserves

open FlashArbitrage

/-- `balance * 1000 - amountIn * 3`, as the pair computes it for one token. -/
def adjusted
    (reserves : PairReserves)
    (amountOut amountPaid : PairToken → Nat)
    (token : PairToken) : Nat :=
  let remaining := reserves.reserve token - amountOut token
  let balance := remaining + amountPaid token
  let amountIn := if remaining < balance then balance - remaining else 0
  balance * 1000 - amountIn * 3

/-- The pair accepts a payment in one token for a borrow of one token. -/
def Accepts
    (reserves : PairReserves)
    (borrowed : PairToken)
    (amount : Nat)
    (paid : PairToken)
    (payment : Nat) : Prop :=
  reserves.reserve .token0 * reserves.reserve .token1 * 1000 ^ 2 ≤
    reserves.adjusted (borrowed.only amount) (paid.only payment) .token0 *
      reserves.adjusted (borrowed.only amount) (paid.only payment) .token1

instance
    (reserves : PairReserves)
    (borrowed : PairToken)
    (amount : Nat)
    (paid : PairToken)
    (payment : Nat) :
    Decidable (reserves.Accepts borrowed amount paid payment) :=
  inferInstanceAs (Decidable (_ ≤ _))

/-- The pair accepts the payment and no payment smaller by more than two. -/
def Suits
    (reserves : PairReserves)
    (borrowed : PairToken)
    (amount : Nat)
    (paid : PairToken)
    (payment : Nat) : Prop :=
  reserves.Accepts borrowed amount paid payment ∧
    ∀ smaller, reserves.Accepts borrowed amount paid smaller →
      payment ≤ smaller + 2

/-- What the payment has to cover, in units of `paymentUnit`. -/
def due
    (reserves : PairReserves)
    (borrowed : PairToken)
    (amount : Nat)
    (paid : PairToken) : Nat :=
  if paid = borrowed then
    1000 * amount
  else
    1000 * amount * reserves.reserve borrowed.other

/-- What one unit of the payment contributes. -/
def paymentUnit
    (reserves : PairReserves)
    (borrowed : PairToken)
    (amount : Nat)
    (paid : PairToken) : Nat :=
  if paid = borrowed then
    997
  else
    997 * (reserves.reserve borrowed - amount)

variable
  {reserves : PairReserves}
  {borrowed paid : PairToken}
  {amount payment : Nat}

/-- Of what came in 0.3 percent do not count. -/
theorem adjusted_eq
    (amountOut amountPaid : PairToken → Nat)
    (token : PairToken) :
    reserves.adjusted amountOut amountPaid token =
      1000 * (reserves.reserve token - amountOut token) +
        997 * amountPaid token := by
  unfold adjusted
  dsimp only
  split <;> omega

/-- The order of the tokens does not matter to the check. -/
theorem accepts_iff_adjusted :
    reserves.Accepts borrowed amount paid payment ↔
      reserves.reserve borrowed * reserves.reserve borrowed.other * 1000 ^ 2 ≤
        reserves.adjusted (borrowed.only amount) (paid.only payment) borrowed *
          reserves.adjusted (borrowed.only amount) (paid.only payment)
            borrowed.other := by
  cases borrowed with
  | token0 =>
      exact Iff.rfl
  | token1 =>
      unfold Accepts PairToken.other
      rw [Nat.mul_comm (reserves.reserve .token0),
        Nat.mul_comm (reserves.adjusted _ _ .token0)]

theorem other_ne (token : PairToken) : token.other ≠ token := by
  cases token <;> decide

theorem eq_other_of_ne (different : paid ≠ borrowed) :
    paid = borrowed.other := by
  cases paid <;> cases borrowed <;> first | rfl | exact absurd rfl different

/-- The check is linear in the payment. -/
theorem accepts_iff (below : amount < reserves.reserve borrowed) :
    reserves.Accepts borrowed amount paid payment ↔
      reserves.due borrowed amount paid ≤
        reserves.paymentUnit borrowed amount paid * payment := by
  obtain ⟨rest, split⟩ := Nat.exists_eq_add_of_le below.le
  have otherPositive := reserves.positive borrowed.other
  have borrowedOnly : borrowed.only amount borrowed = amount := if_pos rfl
  have borrowedOther : borrowed.only amount borrowed.other = 0 :=
    if_neg (other_ne borrowed)
  rw [accepts_iff_adjusted, adjusted_eq, adjusted_eq, borrowedOnly,
    borrowedOther]
  unfold due paymentUnit
  by_cases same : paid = borrowed
  · subst same
    have paidOnly : paid.only payment paid = payment := if_pos rfl
    have paidOther : paid.only payment paid.other = 0 :=
      if_neg (other_ne paid)
    rw [paidOnly, paidOther, if_pos rfl, if_pos rfl]
    generalize reserves.reserve paid.other = other at *
    rw [split, Nat.add_sub_cancel_left]
    -- Both sides of the product check have the other reserve as a factor.
    have factored :
        (amount + rest) * other * 1000 ^ 2 ≤
            (1000 * rest + 997 * payment) * (1000 * (other - 0) + 997 * 0) ↔
          (1000 * other) * (1000 * (amount + rest)) ≤
            (1000 * other) * (1000 * rest + 997 * payment) := by
      rw [Nat.sub_zero]
      ring_nf
    rw [factored, Nat.mul_le_mul_left_iff (by omega)]
    omega
  · have isOther := eq_other_of_ne same
    have paidBorrowed : paid.only payment borrowed = 0 :=
      if_neg (fun equal => same equal.symm)
    have paidOther : paid.only payment borrowed.other = payment :=
      if_pos isOther.symm
    rw [paidBorrowed, paidOther, if_neg same, if_neg same]
    generalize reserves.reserve borrowed.other = other at *
    rw [split, Nat.add_sub_cancel_left]
    have expanded :
        (amount + rest) * other * 1000 ^ 2 ≤
            (1000 * rest + 997 * 0) * (1000 * (other - 0) + 997 * payment) ↔
          1000 * (1000 * rest * other) + 1000 * (1000 * amount * other) ≤
            1000 * (1000 * rest * other) + 1000 * (997 * rest * payment) := by
      rw [Nat.sub_zero]
      ring_nf
    rw [expanded, Nat.add_le_add_iff_left,
      Nat.mul_le_mul_left_iff (by decide)]

/--
The pair keeps as much of the borrowed token as it has of the other, but for
the fee units that the rounding of the repayment gives or takes.
-/
def Level
    (reserves : PairReserves)
    (borrowed : PairToken)
    (amount : Nat) : Prop :=
  let keeps := reserves.reserve borrowed - amount
  let other := reserves.reserve borrowed.other
  let rounded := 1000 * amount % 997
  1000 * amount * other + rounded * keeps ≤ (1000 * amount + 997) * keeps ∧
    1000 * amount * keeps < 1000 * amount * other + (1994 + rounded) * keeps

/-- The callback repays the same multiple of either token. -/
theorem repayAmount_only (borrowed : PairToken) (amount : Nat) :
    repayAmount (borrowed.only amount .token0) (borrowed.only amount .token1) =
      1000 * amount / 997 + 1 := by
  rw [Nat.mul_comm 1000]
  cases borrowed with
  | token0 =>
      by_cases positive : 0 < amount
      · simp [repayAmount, PairToken.only, positive]
      · simp [repayAmount, PairToken.only, Nat.eq_zero_of_not_pos positive]
  | token1 =>
      simp [repayAmount, PairToken.only]

/--
The repayment is accepted and at most two above the least accepted payment
exactly if the path ends in the borrowed token or the reserves are level.
-/
theorem repayment_suits_iff (below : amount < reserves.reserve borrowed) :
    reserves.Suits borrowed amount paid
        (repayAmount (borrowed.only amount .token0)
          (borrowed.only amount .token1)) ↔
      paid = borrowed ∨ reserves.Level borrowed amount := by
  have unitPositive : 0 < reserves.paymentUnit borrowed amount paid := by
    unfold paymentUnit
    split <;> omega
  rw [repayAmount_only]
  unfold Suits
  simp only [accepts_iff below]
  rw [near_least_iff unitPositive]
  unfold due paymentUnit
  by_cases same : paid = borrowed
  · rw [if_pos same, if_pos same]
    have divided := Nat.div_add_mod (1000 * amount) 997
    have small := Nat.mod_lt (1000 * amount) (by decide : 0 < 997)
    refine iff_of_true ⟨?_, ?_⟩ (.inl same)
    · omega
    · omega
  · rw [if_neg same, if_neg same, or_iff_right same]
    unfold Level
    dsimp only
    generalize reserves.reserve borrowed - amount = keeps
    generalize 1000 * amount * reserves.reserve borrowed.other = worth
    -- In both inequalities the quotient stands for its multiple of 997.
    have covered :
        997 * keeps * (1000 * amount / 997 + 1) +
            1000 * amount % 997 * keeps =
          1000 * amount * keeps + 997 * keeps := by
      conv_rhs => rw [← Nat.div_add_mod (1000 * amount) 997]
      ring
    rw [Nat.add_mul (1000 * amount), Nat.add_mul 1994]
    omega

/-- One unit of `token0` is worth one of `token1`. -/
def evenReserves : PairReserves where
  reserve _ := 1000
  positive _ := by decide
  fits _ := by decide

/-- One unit of `token0` is worth a thousand of `token1`. -/
def unevenReserves : PairReserves where
  reserve token := if token = .token0 then 1000 else 1000000
  positive token := by cases token <;> decide
  fits token := by cases token <;> decide

/-- Of 1000 and 1000 a borrow of 100 is repaid with 101 of the same token. -/
theorem even_repayment_suits :
    evenReserves.Suits .token0 100 .token0 (repayAmount 100 0) :=
  (@repayment_suits_iff evenReserves .token0 .token0 100 (by decide)).mpr
    (.inl rfl)

/--
Of 1000 and 1000000 a borrow of 100 of `token0` is repaid with 101 of `token1`,
which are worth less than one of `token0`.
-/
theorem uneven_repayment_does_not_suit :
    ¬ ∀ (reserves : PairReserves) (borrowed paid : PairToken) (amount : Nat),
        amount < reserves.reserve borrowed →
        reserves.Suits borrowed amount paid
          (repayAmount (borrowed.only amount .token0)
            (borrowed.only amount .token1)) := by
  intro claim
  have accepted := (claim unevenReserves .token0 .token1 100 (by decide)).1
  exact absurd accepted (by decide)

end PairReserves

namespace FlashArbitrage

/-- A borrow from a pair is small enough to compute its repayment. -/
theorem repayment_fits
    {reserves : PairReserves}
    {borrowed : PairToken}
    {amount : Nat}
    (below : amount < reserves.reserve borrowed) :
    amount * 1000 < 2 ^ 256 := by
  have fits := reserves.fits borrowed
  omega

/-- The last steps of a callback that returns transfer the repayment. -/
theorem repay_transfers
    {this profitVault pair : Address}
    {borrowedAmount : Nat}
    {amounts : List Nat}
    {params : ArbParams}
    {outside : Effect FlashArbitrage FlashMessage FlashQuery}
    {calls : List FlashMessage}
    {state final : FlashArbitrage}
    {record : List (Entry FlashArbitrage FlashMessage FlashQuery)}
    (run :
      Runs outside calls
        (repay this profitVault pair params borrowedAmount amounts state)
        record final) :
    ∃ repayToken middle,
      params.path.getLast? = some repayToken ∧
        .made calls
          (.transfer repayToken pair (borrowedAmount * 1000 / 997 + 1))
          middle ∈ record := by
  unfold repay at run
  split at run
  · next outputAmount repayToken _ lastToken =>
      have transfers :=
        run.of_require.2.of_require.2.of_require.2.of_external.1
      exact ⟨repayToken, state, lastToken, transfers⟩
  · exact absurd run Runs.not_revert

/-- A callback that returns has repaid the pair in the last token of its path. -/
theorem callback_repays
    {this profitVault pair initiator : Address}
    {amount0 amount1 : Nat}
    {params : ArbParams}
    {outside : Effect FlashArbitrage FlashMessage FlashQuery}
    {calls : List FlashMessage}
    {state final : FlashArbitrage}
    {record : List (Entry FlashArbitrage FlashMessage FlashQuery)}
    (run :
      Runs outside calls
        (uniswapV2Call this profitVault pair initiator amount0 amount1
          (some params) state)
        record final) :
    ∃ repayToken middle,
      params.path.getLast? = some repayToken ∧
        .made calls
          (.transfer repayToken pair (repayAmount amount0 amount1)) middle ∈
            record := by
  have asked := run.of_require.2.of_require.2.of_external
  obtain ⟨-, answer, after, asking, later, askingIncluded⟩ := asked
  cases answer with
  | nothing => exact absurd later Runs.not_revert
  | flag ok => exact absurd later Runs.not_revert
  | amounts values => exact absurd later Runs.not_revert
  | address borrowedToken =>
      have approves := later.of_require.2.of_external
      obtain ⟨-, answer, approved, approving, later, approvingIncluded⟩ :=
        approves
      cases answer with
      | nothing => exact absurd later Runs.not_revert
      | address value => exact absurd later Runs.not_revert
      | amounts values => exact absurd later Runs.not_revert
      | flag ok =>
          have swaps := later.of_require.2.of_external
          obtain ⟨-, answer, swapped, swapping, later, swappingIncluded⟩ :=
            swaps
          cases answer with
          | nothing => exact absurd later Runs.not_revert
          | flag ok => exact absurd later Runs.not_revert
          | address value => exact absurd later Runs.not_revert
          | amounts amounts =>
              obtain ⟨repayToken, middle, lastToken, transferred⟩ :=
                repay_transfers later
              exact ⟨repayToken, middle, lastToken,
                askingIncluded
                  (approvingIncluded (swappingIncluded transferred))⟩

end FlashArbitrage

end YieldDaemon
