import Mathlib.Algebra.Order.BigOperators.Group.Finset
import Mathlib.GroupTheory.OrderOfElement
import YieldDaemon.JacobianCoordinates

namespace CurveTorsion

open JacobianCoordinates WeierstrassCurve

/-!
# Points whose order is the size of the field

A curve over a finite field has at most two points for each first coordinate.
If it has a point of order 3 as well, a point whose order is the prime number
of field elements would make the group too large.
-/

variable {F : Type} [Field F] {b : F}

/-- The first coordinate of a point, none for infinity. -/
def xOf : (shortCurve b).Point → Option F
  | .zero => none
  | .some x _ _ => some x

/-- Points with the same first coordinate are equal or opposite. -/
theorem eq_or_eq_neg
    {first second : (shortCurve b).Point}
    (sameX : xOf first = xOf second) :
    first = second ∨ first = -second := by
  cases first with
  | zero =>
      cases second with
      | zero =>
          exact .inl rfl
      | some x' y' nonsingular' =>
          exact absurd sameX nofun
  | some x y nonsingular =>
      cases second with
      | zero =>
          exact absurd sameX nofun
      | some x' y' nonsingular' =>
          exact Affine.Point.X_eq_iff.mp (Option.some.inj sameX)

variable [DecidableEq F]

/-- A curve has at most two points for each first coordinate. -/
theorem card_points_le
    [Fintype F]
    (points : Finset (shortCurve b).Point) :
    points.card ≤ 2 * (Fintype.card F + 1) := by
  have fibers :
      ∀ x ∈ points.image xOf,
        (points.filter (fun point => xOf point = x)).card ≤ 2 := by
    intro x member
    obtain ⟨base, -, rfl⟩ := Finset.mem_image.mp member
    have atMost :
        points.filter (fun point => xOf point = xOf base) ⊆ {base, -base} := by
      intro point inFiber
      have sameX := (Finset.mem_filter.mp inFiber).2
      rcases eq_or_eq_neg sameX with same | opposite
      · rw [same]
        exact Finset.mem_insert_self base _
      · rw [opposite]
        exact Finset.mem_insert_of_mem (Finset.mem_singleton_self _)
    exact (Finset.card_le_card atMost).trans Finset.card_le_two
  calc
    points.card ≤ 2 * (points.image xOf).card :=
      Finset.card_le_mul_card_image points 2 fibers
    _ ≤ 2 * (Fintype.card F + 1) := by
      rw [← Fintype.card_option]
      exact Nat.mul_le_mul_left 2 (Finset.card_le_univ _)

/-- So is the order of a point. -/
theorem addOrderOf_le
    [Fintype F]
    (point : (shortCurve b).Point) :
    addOrderOf point ≤ 2 * (Fintype.card F + 1) := by
  have distinct :
      Set.InjOn (fun multiple : Nat => multiple • point)
        (Finset.range (addOrderOf point)) := by
    intro first firstMember second secondMember
    rw [Finset.mem_coe, Finset.mem_range] at firstMember secondMember
    exact nsmul_injOn_Iio_addOrderOf firstMember secondMember
  have counted := Finset.card_image_of_injOn distinct
  rw [Finset.card_range] at counted
  rw [← counted]
  exact card_points_le _

/-- The points with first coordinate 0 have order 3. -/
theorem three_nsmul_eq_zero
    {y : F}
    (nonsingular : (shortCurve b).Nonsingular 0 y)
    (finite : 2 * y ≠ 0) :
    3 • Affine.Point.some 0 y nonsingular = 0 := by
  have notOpposite : y ≠ (shortCurve b).negY 0 y := by
    rw [negY_eq]
    intro opposite
    exact finite ((two_mul y).trans (add_eq_zero_iff_eq_neg.mpr opposite))
  have slope : (shortCurve b).slope 0 0 y y = 0 := by
    have tangent := slope_self_mul (b := b) 0 finite
    rw [zero_pow two_ne_zero, mul_zero] at tangent
    exact (mul_eq_zero.mp tangent).resolve_right finite
  have doubled :
      Affine.Point.some 0 y nonsingular + Affine.Point.some 0 y nonsingular =
        -Affine.Point.some 0 y nonsingular := by
    rw [Affine.Point.add_self_of_Y_ne notOpposite, Affine.Point.neg_some,
      Affine.Point.some.injEq, addX_eq, addY_eq, negY_eq, slope]
    constructor
    · ring
    · ring
  rw [succ_nsmul, two_nsmul, doubled, neg_add_cancel]

/-- With a point of order 3 no other order is the number of elements. -/
theorem card_nsmul_ne_zero
    [Fintype F]
    {point torsion : (shortCurve b).Point}
    (prime : (Fintype.card F).Prime)
    (large : 3 < Fintype.card F)
    (torsionFinite : torsion ≠ 0)
    (isTorsion : 3 • torsion = 0)
    (finite : point ≠ 0) :
    Fintype.card F • point ≠ 0 := by
  intro vanishes
  have : Fact (Fintype.card F).Prime := ⟨prime⟩
  have : Fact (Nat.Prime 3) := ⟨Nat.prime_three⟩
  have pointOrder := addOrderOf_eq_prime vanishes finite
  have torsionOrder := addOrderOf_eq_prime isTorsion torsionFinite
  have coprime : (addOrderOf point).Coprime (addOrderOf torsion) := by
    rw [pointOrder, torsionOrder]
    exact (Nat.coprime_primes prime Nat.prime_three).mpr (Nat.ne_of_gt large)
  have sumOrder :=
    (AddCommute.all point torsion).addOrderOf_add_eq_mul_addOrderOf_of_coprime
      coprime
  have bounded := addOrderOf_le (point + torsion)
  rw [sumOrder, pointOrder, torsionOrder] at bounded
  omega

end CurveTorsion
