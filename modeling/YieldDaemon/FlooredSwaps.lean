import Mathlib.Tactic

namespace FlooredSwaps

/-!
# Constant-product swaps in whole numbers

A swap keeps a fee of the amount, adds the rest to the incoming reserve and
divides the product of the reserves by the sum.  Both divisions round down.
Neither of them turns a larger amount into a smaller payment.
-/

/-- What a fee of `num / den` leaves of an amount. -/
def netInput (amount num den : Nat) : Nat :=
  amount - amount * num / den

/-- The outgoing reserve after a swap. -/
def newReserve (reserveIn reserveOut net : Nat) : Nat :=
  reserveIn * reserveOut / (reserveIn + net)

/-- What a swap pays out. -/
def payment (reserveIn reserveOut net : Nat) : Nat :=
  reserveOut - newReserve reserveIn reserveOut net

section Fees

variable {num den : Nat}

theorem netInput_zero (num den : Nat) : netInput 0 num den = 0 := by
  simp [netInput]

theorem netInput_le (amount num den : Nat) : netInput amount num den ≤ amount :=
  Nat.sub_le _ _

/-- A fee below the whole leaves something of every amount. -/
theorem netInput_pos
    {amount : Nat}
    (fee : num < den)
    (positive : 0 < amount) :
    0 < netInput amount num den := by
  have taken : amount * num / den < amount := by
    apply Nat.div_lt_of_lt_mul
    rw [Nat.mul_comm den amount]
    exact Nat.mul_lt_mul_of_pos_left fee positive
  exact Nat.sub_pos_of_lt taken

/-- The fee grows by no more than the amount. -/
theorem netInput_mono
    (fee : num ≤ den)
    {first second : Nat}
    (ordered : first ≤ second) :
    netInput first num den ≤ netInput second num den := by
  obtain ⟨more, rfl⟩ := Nat.exists_eq_add_of_le ordered
  rcases Nat.eq_zero_or_pos den with rfl | positive
  · simp [netInput]
  have grows : (first + more) * num / den ≤ first * num / den + more := by
    calc
      (first + more) * num / den ≤ (first * num + more * den) / den := by
        apply Nat.div_le_div_right
        rw [Nat.add_mul]
        exact Nat.add_le_add_left (Nat.mul_le_mul_left more fee) _
      _ = first * num / den + more :=
        Nat.add_mul_div_right _ _ positive
  unfold netInput
  omega

end Fees

section Payments

variable (reserveIn reserveOut : Nat)

theorem newReserve_le (net : Nat) :
    newReserve reserveIn reserveOut net ≤ reserveOut := by
  apply Nat.div_le_of_le_mul
  exact Nat.mul_le_mul_right reserveOut (Nat.le_add_right reserveIn net)

theorem payment_le (net : Nat) :
    payment reserveIn reserveOut net ≤ reserveOut :=
  Nat.sub_le _ _

/-- More input is never paid less. -/
theorem payment_mono
    {first second : Nat}
    (ordered : first ≤ second)
    (positive : 0 < reserveIn) :
    payment reserveIn reserveOut first ≤
      payment reserveIn reserveOut second := by
  apply Nat.sub_le_sub_left
  exact Nat.div_le_div_left (Nat.add_le_add_left ordered reserveIn)
    (Nat.add_pos_left positive first)

/-- Nothing is paid for nothing. -/
theorem payment_zero (positive : 0 < reserveIn) :
    payment reserveIn reserveOut 0 = 0 := by
  rw [payment, newReserve, Nat.add_zero,
    Nat.mul_div_cancel_left reserveOut positive, Nat.sub_self]

/-- An empty incoming reserve gives the whole outgoing one away. -/
theorem payment_of_empty (net : Nat) : payment 0 reserveOut net = reserveOut := by
  simp [payment, newReserve]

/-- An empty outgoing reserve pays nothing. -/
theorem payment_from_empty (net : Nat) : payment reserveIn 0 net = 0 := by
  simp [payment]

end Payments

/-- A chain of monotone steps is monotone. -/
theorem foldl_mono
    {Item : Type}
    {step : Nat → Item → Nat}
    {items : List Item}
    (mono :
      ∀ item ∈ items, ∀ first second,
        first ≤ second → step first item ≤ step second item)
    {first second : Nat}
    (ordered : first ≤ second) :
    items.foldl step first ≤ items.foldl step second := by
  induction items generalizing first second with
  | nil =>
      exact ordered
  | cons item items inductionHypothesis =>
      exact inductionHypothesis
        (fun other member => mono other (List.mem_cons_of_mem item member))
        (mono item List.mem_cons_self first second ordered)

/-- Nothing goes through a chain whose steps turn nothing into nothing. -/
theorem foldl_zero
    {Item : Type}
    {step : Nat → Item → Nat}
    {items : List Item}
    (nothing : ∀ item ∈ items, step 0 item = 0) :
    items.foldl step 0 = 0 := by
  induction items with
  | nil =>
      rfl
  | cons item items inductionHypothesis =>
      rw [List.foldl_cons, nothing item List.mem_cons_self]
      exact inductionHypothesis
        (fun other member => nothing other (List.mem_cons_of_mem item member))

end FlooredSwaps
