import Mathlib.Data.List.GetD
import YieldDaemon.MissedProfits
import YieldDaemon.SwapAgreement

namespace YieldDaemon

open CheckedArithmetic FlooredSwaps

/-!
# The shape of a simulated cycle

In exact arithmetic every hop of a cycle is a monotone function of the amount
that enters it, takes nothing to nothing and never pays more than the outgoing
reserve.  Where nothing overflows the simulation is the chain of these
functions, with or without its early exit.
-/

namespace StateShadow

variable
  {profile : Profile}
  {shadow : StateShadow}
  {pool : PoolIdx}
  {xToY : Bool}

/-- What a simulated swap pays in exact arithmetic. -/
def quote
    (shadow : StateShadow)
    (pool : PoolIdx)
    (amountIn : Nat)
    (xToY : Bool) : Nat :=
  if shadow.specIn pool xToY = 0 ∨ shadow.specOut pool xToY = 0 then
    0
  else
    shadow.specPayment pool amountIn xToY

/-- The fee of a pool is a fraction of at most one. -/
def Charges (shadow : StateShadow) (pool : PoolIdx) : Prop :=
  0 < shadow.feeDen pool ∧ shadow.feeNum pool ≤ shadow.feeDen pool

/-- Without an overflow the simulated swap pays its quote. -/
theorem simSwap_eq_quote
    {amountIn : Nat}
    (charges : shadow.Charges pool)
    (free :
      shadow.simSwap .debug pool.val amountIn xToY ≠
        .error .arithmeticOverflow) :
    shadow.simSwap profile pool.val amountIn xToY =
      .ok (shadow.quote pool amountIn xToY) := by
  rw [simSwap_eq] at free ⊢
  unfold quote
  split at free
  · next empty =>
      rw [if_pos empty, if_pos empty]
  · next funded =>
      have incoming : shadow.specIn pool xToY ≠ 0 := fun none =>
        funded (.inl none)
      have fits :=
        exchangeFits_of_noOverflow (Checked.ne_error_of_bind free)
          charges.1 charges.2
      rw [if_neg funded, if_neg funded, specExchange,
        exchange_of_fits fits charges.1 charges.2 (by omega)]
      rfl

/-- A larger amount is never quoted less. -/
theorem quote_mono
    (charges : shadow.Charges pool)
    {first second : Nat}
    (ordered : first ≤ second) :
    shadow.quote pool first xToY ≤ shadow.quote pool second xToY := by
  unfold quote
  split
  · exact Nat.le_refl 0
  · next funded =>
      have incoming : 0 < shadow.specIn pool xToY :=
        Nat.pos_of_ne_zero fun none => funded (.inl none)
      exact payment_mono _ _ (netInput_mono charges.2 ordered) incoming

theorem quote_zero : shadow.quote pool 0 xToY = 0 := by
  unfold quote
  split
  · rfl
  · next funded =>
      rw [specPayment, netInput_zero]
      exact payment_zero _ _
        (Nat.pos_of_ne_zero fun none => funded (.inl none))

/-- No quote exceeds the reserve that it is paid from. -/
theorem quote_le (amountIn : Nat) :
    shadow.quote pool amountIn xToY ≤ shadow.specOut pool xToY := by
  unfold quote
  split
  · exact Nat.zero_le _
  · exact payment_le _ _ _

end StateShadow

namespace SimdSolver

variable
  {profile : Profile}
  {shadow : StateShadow}
  {cycle : ArbCycle}

/-- The pool of a hop, as far as it is in range. -/
def hopPool (cycle : ArbCycle) (i : Nat) : PoolIdx :=
  ⟨cycle.poolIndices.getD i 0 % maxPools, Nat.mod_lt _ (by decide)⟩

theorem hopPool_eq
    {i : Nat}
    {pool : PoolIdx}
    (found : cycle.poolIndices[i]? = some pool.val) :
    hopPool cycle i = pool := by
  apply Fin.ext
  show cycle.poolIndices.getD i 0 % maxPools = pool.val
  rw [List.getD_eq_getElem?_getD, found]
  exact Nat.mod_eq_of_lt pool.isLt

/-- The direction of a hop. -/
def hopDirection (cycle : ArbCycle) (i : Nat) : Bool :=
  cycle.directions.getD i true

/-- What a hop pays in exact arithmetic. -/
def hopQuote
    (shadow : StateShadow)
    (cycle : ArbCycle)
    (amount i : Nat) : Nat :=
  shadow.quote (hopPool cycle i) amount (hopDirection cycle i)

/-- Run every hop, without the early exit. -/
def runHops
    (profile : Profile)
    (shadow : StateShadow)
    (cycle : ArbCycle)
    (input : Nat) : Checked Nat :=
  (List.range cycle.poolIndices.length).foldlM
    (fun amount i => hop profile shadow cycle i amount) input

/-- A cycle of at least one hop through pools of the shadow that charge fees. -/
structure Chargeable (shadow : StateShadow) (cycle : ArbCycle) : Prop where
  nonempty : cycle.poolIndices ≠ []
  directions : cycle.directions.length = cycle.poolIndices.length
  pools :
    ∀ idx ∈ cycle.poolIndices,
      ∃ pool : PoolIdx, idx = pool.val ∧ shadow.Charges pool

namespace Chargeable

variable {i : Nat}

/-- Both lists have an entry for each hop. -/
theorem hop_eq
    (chargeable : Chargeable shadow cycle)
    (inRange : i < cycle.poolIndices.length)
    (profile : Profile)
    (amount : Nat) :
    hop profile shadow cycle i amount =
        shadow.simSwap profile (hopPool cycle i).val amount
          (hopDirection cycle i) ∧
      shadow.Charges (hopPool cycle i) := by
  have inDirections : i < cycle.directions.length :=
    chargeable.directions.symm ▸ inRange
  obtain ⟨pool, isPool, charges⟩ :=
    chargeable.pools cycle.poolIndices[i] (List.getElem_mem inRange)
  rw [hopPool_eq (isPool ▸ List.getElem?_eq_getElem inRange)]
  refine ⟨?_, charges⟩
  rw [hop, index_of_lt inRange, Checked.ok_bind, index_of_lt inDirections,
    Checked.ok_bind, isPool, hopDirection,
    List.getD_eq_getElem _ _ inDirections]

/-- Without an overflow a hop pays its quote. -/
theorem hop_eq_quote
    (chargeable : Chargeable shadow cycle)
    (inRange : i < cycle.poolIndices.length)
    {amount : Nat}
    (free : hop .debug shadow cycle i amount ≠ .error .arithmeticOverflow) :
    hop profile shadow cycle i amount =
      .ok (hopQuote shadow cycle amount i) := by
  obtain ⟨swaps, charges⟩ := chargeable.hop_eq inRange .debug amount
  rw [swaps] at free
  rw [(chargeable.hop_eq inRange profile amount).1]
  exact StateShadow.simSwap_eq_quote charges free

/-- The simulation from a hop on is the chain of the quotes. -/
theorem simulateFrom_eq
    (chargeable : Chargeable shadow cycle)
    {hops : List Nat}
    (inRange : ∀ i ∈ hops, i < cycle.poolIndices.length)
    {amount : Nat}
    (free :
      simulateFrom .debug shadow cycle hops amount ≠
        .error .arithmeticOverflow) :
    simulateFrom profile shadow cycle hops amount =
      .ok (hops.foldl (hopQuote shadow cycle) amount) := by
  induction hops generalizing amount with
  | nil =>
      rfl
  | cons i hops inductionHypothesis =>
      rw [List.forall_mem_cons] at inRange
      rw [simulateFrom_cons] at free ⊢
      have hopFree := Checked.ne_error_of_bind free
      rw [chargeable.hop_eq_quote inRange.1 hopFree, Checked.ok_bind]
        at free ⊢
      rw [List.foldl_cons]
      split at free
      · next nothing =>
          have stays :
              hops.foldl (hopQuote shadow cycle) 0 = 0 :=
            foldl_zero (fun _ _ => StateShadow.quote_zero)
          rw [if_pos nothing, nothing, stays]
          rfl
      · next something =>
          rw [if_neg something]
          exact inductionHypothesis inRange.2 free

/-- So is the run of all hops. -/
theorem runHops_eq
    (chargeable : Chargeable shadow cycle)
    {hops : List Nat}
    (inRange : ∀ i ∈ hops, i < cycle.poolIndices.length)
    {amount : Nat}
    (free :
      hops.foldlM (fun amount i => hop .debug shadow cycle i amount) amount ≠
        .error .arithmeticOverflow) :
    hops.foldlM (fun amount i => hop profile shadow cycle i amount) amount =
      .ok (hops.foldl (hopQuote shadow cycle) amount) := by
  induction hops generalizing amount with
  | nil =>
      rfl
  | cons i hops inductionHypothesis =>
      rw [List.forall_mem_cons] at inRange
      rw [List.foldlM_cons] at free ⊢
      have hopFree := Checked.ne_error_of_bind free
      rw [chargeable.hop_eq_quote inRange.1 hopFree, Checked.ok_bind]
        at free ⊢
      exact inductionHypothesis inRange.2 free

/-- More input is never simulated to yield less. -/
theorem foldl_hopQuote_mono
    (chargeable : Chargeable shadow cycle)
    {first second : Nat}
    (ordered : first ≤ second) :
    (List.range cycle.poolIndices.length).foldl (hopQuote shadow cycle)
        first ≤
      (List.range cycle.poolIndices.length).foldl (hopQuote shadow cycle)
        second := by
  refine foldl_mono ?_ ordered
  intro i member smaller larger amounts
  have charges :=
    (chargeable.hop_eq (List.mem_range.mp member) .debug smaller).2
  exact StateShadow.quote_mono charges amounts

/-- The last hop pays no more than its outgoing reserve. -/
theorem foldl_hopQuote_le
    {last : PoolIdx}
    {xToY : Bool}
    (isLast : cycle.poolIndices.getLast? = some last.val)
    (direction : cycle.directions.getLast? = some xToY)
    (chargeable : Chargeable shadow cycle)
    (amount : Nat) :
    (List.range cycle.poolIndices.length).foldl (hopQuote shadow cycle)
        amount ≤ shadow.specOut last xToY := by
  obtain ⟨hops, length⟩ :=
    Nat.exists_eq_succ_of_ne_zero
      (List.length_pos_iff.mpr chargeable.nonempty).ne'
  rw [List.getLast?_eq_getElem?, length, Nat.succ_sub_one] at isLast
  rw [List.getLast?_eq_getElem?, chargeable.directions, length,
    Nat.succ_sub_one] at direction
  have sameDirection : hopDirection cycle hops = xToY := by
    rw [hopDirection, List.getD_eq_getElem?_getD, direction]
    rfl
  rw [length, List.range_succ, List.foldl_append, List.foldl_cons,
    List.foldl_nil, hopQuote, hopPool_eq isLast, sameDirection]
  exact StateShadow.quote_le _

end Chargeable

/--
A simulation without an overflow is monotone in its input, pays at most the
outgoing reserve of the last pool, and would pay the same without its early
exit.
-/
theorem simulateCycle_is_monotone
    (profile : Profile)
    (chargeable : Chargeable shadow cycle)
    {x y : Nat}
    (ordered : x ≤ y)
    (xFree :
      simulateCycle .debug shadow cycle x ≠ .error .arithmeticOverflow)
    (yFree :
      simulateCycle .debug shadow cycle y ≠ .error .arithmeticOverflow) :
    ∃ outX outY,
      simulateCycle profile shadow cycle x = .ok outX ∧
        simulateCycle profile shadow cycle y = .ok outY ∧
        outX ≤ outY ∧
        (∀ (last : PoolIdx) (xToY : Bool),
          cycle.poolIndices.getLast? = some last.val →
            cycle.directions.getLast? = some xToY →
            outX ≤ shadow.specOut last xToY ∧
              outY ≤ shadow.specOut last xToY) ∧
        (runHops .debug shadow cycle x ≠ .error .arithmeticOverflow →
          runHops profile shadow cycle x = .ok outX) ∧
        (runHops .debug shadow cycle y ≠ .error .arithmeticOverflow →
          runHops profile shadow cycle y = .ok outY) := by
  have inRange (i : Nat) (member : i ∈ List.range cycle.poolIndices.length) :
      i < cycle.poolIndices.length :=
    List.mem_range.mp member
  refine ⟨_, _, chargeable.simulateFrom_eq inRange xFree,
    chargeable.simulateFrom_eq inRange yFree,
    chargeable.foldl_hopQuote_mono ordered, ?_,
    fun free => chargeable.runHops_eq inRange free,
    fun free => chargeable.runHops_eq inRange free⟩
  intro last xToY isLast direction
  exact ⟨chargeable.foldl_hopQuote_le isLast direction x,
    chargeable.foldl_hopQuote_le isLast direction y⟩

/-- Inputs of 50 and 99 into two pools of opposite reserves, for instance. -/
theorem crossCycle_is_monotone :
    ∃ outX outY,
      simulateCycle .release Aste.crossShadow Aste.crossCycle 50 = .ok outX ∧
        simulateCycle .release Aste.crossShadow Aste.crossCycle 99 = .ok outY ∧
        outX ≤ outY := by
  have fees (pool : PoolIdx) (registered : pool.val < 2) :
      Aste.crossShadow.Charges pool := by
    obtain isFirst | isSecond : pool.val = 0 ∨ pool.val = 1 := by omega
    · obtain rfl : pool = ⟨0, by decide⟩ := Fin.ext isFirst
      exact ⟨by decide, by decide⟩
    · obtain rfl : pool = ⟨1, by decide⟩ := Fin.ext isSecond
      exact ⟨by decide, by decide⟩
  have chargeable : Chargeable Aste.crossShadow Aste.crossCycle :=
    { nonempty := by decide
      directions := rfl
      pools := by
        intro idx member
        have registered : ∀ idx ∈ Aste.crossCycle.poolIndices, idx < 2 := by
          decide
        exact ⟨⟨idx, (registered idx member).trans (by decide)⟩, rfl,
          fees _ (registered idx member)⟩ }
  have smaller :
      simulateCycle .debug Aste.crossShadow Aste.crossCycle 50 = .ok 176 := rfl
  have larger :
      simulateCycle .debug Aste.crossShadow Aste.crossCycle 99 = .ok 307 := rfl
  obtain ⟨outX, outY, first, second, ordered, -⟩ :=
    simulateCycle_is_monotone .release chargeable (by decide : 50 ≤ 99)
      (by rw [smaller]; nofun) (by rw [larger]; nofun)
  exact ⟨outX, outY, first, second, ordered⟩

end SimdSolver

end YieldDaemon
