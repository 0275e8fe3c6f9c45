import Mathlib.Tactic

namespace RungLadder

/-!
# Budgets on a ladder

Every rung of a ladder takes an input and gives an output.  A budget climbs the
ladder as long as something of it is left, and receives the whole output of
each rung that it enters.  Two budgets receive the same exactly if the rungs
that only the larger one enters give nothing.
-/

/-- What a rung takes and gives. -/
structure Rung where
  input : Nat
  output : Nat
  deriving Repr, DecidableEq

/-- The input that some rungs take together. -/
def inputTotal (rungs : List Rung) : Nat :=
  (rungs.map Rung.input).sum

/-- What a budget receives on a ladder. -/
def climb : List Rung → Nat → Nat
  | [], _ => 0
  | rung :: rungs, budget =>
    if budget = 0 then
      0
    else
      rung.output + climb rungs (budget - rung.input)

/-- The rungs that a large budget enters and a small one does not give nothing. -/
def GivesNothingBetween (rungs : List Rung) (small large : Nat) : Prop :=
  ∀ before rung after,
    rungs = before ++ rung :: after →
    small ≤ inputTotal before →
    inputTotal before < large →
    rung.output = 0

@[simp] theorem climb_zero (rungs : List Rung) : climb rungs 0 = 0 := by
  cases rungs <;> rfl

/-- A budget that is not exhausted enters the first rung. -/
theorem climb_cons
    {budget : Nat}
    (remains : budget ≠ 0)
    (rung : Rung)
    (rungs : List Rung) :
    climb (rung :: rungs) budget =
      rung.output + climb rungs (budget - rung.input) :=
  if_neg remains

/-- The first rung is entered by any budget, and the others by what it leaves. -/
theorem givesNothingBetween_cons
    {rung : Rung}
    {rungs : List Rung}
    {small large : Nat} :
    GivesNothingBetween (rung :: rungs) small large ↔
      (small = 0 → 0 < large → rung.output = 0) ∧
        GivesNothingBetween rungs (small - rung.input)
          (large - rung.input) := by
  constructor
  · intro nothing
    refine ⟨fun exhausted remains =>
      nothing [] rung rungs rfl exhausted.le remains, ?_⟩
    rintro before later after rfl notEntered entered
    refine nothing (rung :: before) later after rfl ?_ ?_ <;>
      simp only [inputTotal, List.map_cons, List.sum_cons] at * <;>
      omega
  · rintro ⟨first, rest⟩ before later after split notEntered entered
    rcases before with _ | ⟨head, before⟩
    · obtain ⟨rfl, -⟩ := List.cons.inj split
      exact first (Nat.le_zero.mp notEntered) entered
    · obtain ⟨rfl, rfl⟩ := List.cons.inj split
      refine rest before later after rfl ?_ ?_ <;>
        simp only [inputTotal, List.map_cons, List.sum_cons] at * <;>
        omega

/-- A larger budget receives no more exactly if what only it enters gives nothing. -/
theorem climb_le_iff
    (rungs : List Rung)
    {small large : Nat}
    (smaller : small ≤ large) :
    climb rungs large ≤ climb rungs small ↔
      GivesNothingBetween rungs small large := by
  induction rungs generalizing small large with
  | nil =>
      simp [climb, GivesNothingBetween]
  | cons rung rungs inductionHypothesis =>
      have rest :=
        inductionHypothesis (Nat.sub_le_sub_right smaller rung.input)
      rw [givesNothingBetween_cons, ← rest]
      rcases Nat.eq_zero_or_pos small with rfl | smallRemains
      · rcases Nat.eq_zero_or_pos large with rfl | largeRemains
        · simp
        · rw [climb_cons largeRemains.ne', climb_zero, Nat.zero_sub,
            climb_zero]
          simp [largeRemains]
      · rw [climb_cons (by omega), climb_cons (by omega),
          Nat.add_le_add_iff_left]
        exact (and_iff_right fun exhausted => by omega).symm

end RungLadder
