import YieldDaemon.IntentFills

namespace YieldDaemon

open CheckedArithmetic TwoSidedMatching

/-!
# Limit prices

A signed intent carries the smallest amount that it accepts for all it sells.
The solver never reads that limit, and a match gives both sides the amount
that they give up, so a limit is met only if it asks for at most one unit of
the bought token for each unit sold.
-/

/-- A signed intent with the limit that the solver does not read. -/
structure SignedIntent extends Intent where
  buyAmountMin : Nat

namespace SignedIntent

/-- What is received for a part of an intent is worth the limit price. -/
def Accepts (order : SignedIntent) (given received : Nat) : Prop :=
  order.buyAmountMin * given ≤ received * order.sellAmount

instance (order : SignedIntent) (given received : Nat) :
    Decidable (order.Accepts given received) :=
  inferInstanceAs
    (Decidable (order.buyAmountMin * given ≤ received * order.sellAmount))

/-- An exchange of one unit for one is accepted up to a limit of one. -/
theorem accepts_same_iff
    {order : SignedIntent}
    {amount : Nat}
    (positive : 0 < amount) :
    order.Accepts amount amount ↔ order.buyAmountMin ≤ order.sellAmount := by
  rw [Accepts, Nat.mul_comm amount]
  exact Nat.mul_le_mul_right_iff positive

end SignedIntent

/-- The intents that the solver sees of some signed ones. -/
def intentsOf (orders : List SignedIntent) : List Intent :=
  orders.map SignedIntent.toIntent

@[simp] theorem length_intentsOf (orders : List SignedIntent) :
    (intentsOf orders).length = orders.length :=
  List.length_map _

/-- Each side of each match receives what its limit asks for its part. -/
def RespectsLimits
    (orders : List SignedIntent)
    (pairs : List TokenPair) : Prop :=
  ∀ fill ∈ batchFills (intentsOf orders) pairs, ∀ order,
    orders[fill.left]? = some order ∨ orders[fill.right]? = some order →
      order.Accepts fill.amount fill.amount

/--
An intent is matched if it sells something and the reverse pair sells more
than the earlier intents of its own pair.
-/
def IsMatched
    (intents before : List Intent)
    (intent : Intent) : Prop :=
  0 < intent.sellAmount ∧
    sellTotal before intent.pair < sellTotal intents intent.pair.swap

instance (intents before : List Intent) (intent : Intent) :
    Decidable (IsMatched intents before intent) :=
  inferInstanceAs (Decidable (_ ∧ _))

theorem share_pos_iff
    {intents before : List Intent}
    {intent : Intent} :
    0 < share intents before intent ↔ IsMatched intents before intent := by
  rw [share, lt_min_iff, Nat.sub_pos_iff_lt, IsMatched]

section Limits

variable
  {orders before after : List SignedIntent}
  {order : SignedIntent}
  {pairs : List TokenPair}

/-- The intents of a list of orders split as the orders do. -/
theorem intentsOf_split
    (split : orders = before ++ order :: after) :
    intentsOf orders =
      intentsOf before ++ order.toIntent :: intentsOf after := by
  rw [split, intentsOf, List.map_append, List.map_cons]
  rfl

/-- An order at a position has that many orders before it. -/
theorem split_at_position
    {position : Nat}
    (found : orders[position]? = some order) :
    ∃ before after,
      orders = before ++ order :: after ∧ before.length = position := by
  obtain ⟨bound, rfl⟩ := List.getElem?_eq_some_iff.mp found
  refine ⟨orders.take position, orders.drop (position + 1), ?_, ?_⟩
  · rw [← List.drop_eq_getElem_cons bound, List.take_append_drop]
  · exact List.length_take_of_le bound.le

/-- An order is matched exactly if it stands on the left of a positive fill. -/
theorem isMatched_iff_left
    (visits : VisitsBook (intentsOf orders) pairs)
    (split : orders = before ++ order :: after) :
    IsMatched (intentsOf orders) (intentsOf before) order.toIntent ↔
      ∃ fill ∈ batchFills (intentsOf orders) pairs,
        fill.left = before.length ∧ 0 < fill.amount := by
  rw [← share_pos_iff,
    ← leftFilled_batchFills visits (intentsOf_split split),
    leftFilled_pos_iff, length_intentsOf]

/-- An order is matched exactly if it stands on the right of a positive fill. -/
theorem isMatched_iff_right
    (visits : VisitsBook (intentsOf orders) pairs)
    (split : orders = before ++ order :: after) :
    IsMatched (intentsOf orders) (intentsOf before) order.toIntent ↔
      ∃ fill ∈ batchFills (intentsOf orders) pairs,
        fill.right = before.length ∧ 0 < fill.amount := by
  rw [← share_pos_iff,
    ← rightFilled_batchFills visits (intentsOf_split split),
    rightFilled_pos_iff, length_intentsOf]

/-- Limits are respected exactly if matched orders ask for at most one for one. -/
theorem respectsLimits_iff
    (visits : VisitsBook (intentsOf orders) pairs) :
    RespectsLimits orders pairs ↔
      ∀ before order after,
        orders = before ++ order :: after →
        IsMatched (intentsOf orders) (intentsOf before) order.toIntent →
        order.buyAmountMin ≤ order.sellAmount := by
  constructor
  · intro respects before order after split matched
    obtain ⟨fill, member, here, positive⟩ :=
      (isMatched_iff_left visits split).mp matched
    have found : orders[fill.left]? = some order := by
      simp [split, here]
    exact (SignedIntent.accepts_same_iff positive).mp
      (respects fill member order (.inl found))
  · intro limits fill member order found
    rcases Nat.eq_zero_or_pos fill.amount with nothing | positive
    · simp [SignedIntent.Accepts, nothing]
    · rw [SignedIntent.accepts_same_iff positive]
      rcases found with onLeft | onRight
      · obtain ⟨before, after, split, here⟩ := split_at_position onLeft
        exact limits before order after split
          ((isMatched_iff_left visits split).mpr
            ⟨fill, member, here.symm, positive⟩)
      · obtain ⟨before, after, split, here⟩ := split_at_position onRight
        exact limits before order after split
          ((isMatched_iff_right visits split).mpr
            ⟨fill, member, here.symm, positive⟩)

/--
The matches of a batch are its fills, and each gives both of its sides at
least their limit price exactly if every matched intent asks for at most as
much as it sells.
-/
theorem solveBatch_respects_limits_iff
    {profile : Profile}
    {solution : BatchSolution}
    (visited :
      pairs.Perm
        (IntentSolver.ofIntents (intentsOf orders)).orderBook.keys)
    (returned :
      (IntentSolver.ofIntents (intentsOf orders)).solveBatch profile pairs =
        .ok solution) :
    solution.intentMatches =
        (batchFills (intentsOf orders) pairs).map
          (toMatch (intentsOf orders)) ∧
      (RespectsLimits orders pairs ↔
        ∀ before order after,
          orders = before ++ order :: after →
          IsMatched (intentsOf orders) (intentsOf before) order.toIntent →
          order.buyAmountMin ≤ order.sellAmount) :=
  ⟨IntentSolver.solveBatch_matches returned,
    respectsLimits_iff (visitsBook_of_perm visited)⟩

end Limits

/-- Alice sells 100 of A for at least 60 of B, Bob 80 of B for 40 of A. -/
def modestOrders : List SignedIntent :=
  [⟨plainIntent 1 0xAA 0xBB 100, 60⟩, ⟨plainIntent 2 0xBB 0xAA 80, 40⟩]

/-- Alice asks for 200 of B, two for each of A that she sells. -/
def demandingOrders : List SignedIntent :=
  [⟨plainIntent 1 0xAA 0xBB 100, 200⟩, ⟨plainIntent 2 0xBB 0xAA 80, 40⟩]

/-- What a batch of Alice's and Bob's two intents returns. -/
def aliceAndBobSolution : BatchSolution :=
  ⟨[⟨Vector.replicate 32 2, Vector.replicate 32 1, 80⟩,
    ⟨Vector.replicate 32 1, Vector.replicate 32 2, 80⟩], [], 0, 0⟩

theorem modest_limits_are_respected :
    RespectsLimits modestOrders (bookKeys (intentsOf modestOrders)) := by
  have returned :
      (IntentSolver.ofIntents (intentsOf modestOrders)).solveBatch .debug
          (bookKeys (intentsOf modestOrders)) =
        .ok aliceAndBobSolution := by
    decide +kernel
  refine (solveBatch_respects_limits_iff (List.Perm.refl _)
    returned).2.mpr ?_
  intro before order after split _
  have member : order ∈ modestOrders := by
    simp [split]
  have modest : ∀ order ∈ modestOrders,
      order.buyAmountMin ≤ order.sellAmount := by
    decide
  exact modest order member

/-- Alice gives 80 of A and receives 80 of B where she signed for 160. -/
theorem demanding_limit_is_missed :
    ∃ solution,
      (IntentSolver.ofIntents (intentsOf demandingOrders)).solveBatch .debug
          (bookKeys (intentsOf demandingOrders)) = .ok solution ∧
        ⟨Vector.replicate 32 1, Vector.replicate 32 2, 80⟩ ∈
          solution.intentMatches ∧
        ¬ RespectsLimits demandingOrders
          (bookKeys (intentsOf demandingOrders)) := by
  refine ⟨aliceAndBobSolution, by decide +kernel, by decide +kernel, ?_⟩
  have visits :
      VisitsBook (intentsOf demandingOrders)
        (bookKeys (intentsOf demandingOrders)) :=
    visitsBook_of_perm (List.Perm.refl _)
  rw [respectsLimits_iff visits]
  intro limits
  have alice := limits [] ⟨plainIntent 1 0xAA 0xBB 100, 200⟩
    [⟨plainIntent 2 0xBB 0xAA 80, 40⟩] rfl (by decide +kernel)
  exact absurd alice (by decide)

end YieldDaemon
