import Mathlib.AlgebraicGeometry.EllipticCurve.Affine.Point
import Mathlib.Tactic

namespace JacobianCoordinates

open WeierstrassCurve

/-!
# Jacobian coordinates

A triple `(x, y, z)` represents the point `(x / z ^ 2, y / z ^ 3)` of a curve
`y ^ 2 = x ^ 3 + b`, or the point at infinity where `z = 0`.  The formula of
the tangent doubles every point.  The formula of the chord adds two different
points, and gives infinity for two equal ones.
-/

variable {F : Type} [Field F]

/-- The curve `y ^ 2 = x ^ 3 + b`. -/
def shortCurve (b : F) : Affine F where
  a₁ := 0
  a₂ := 0
  a₃ := 0
  a₄ := 0
  a₆ := b

structure Triple (F : Type) where
  x : F
  y : F
  z : F

/-- The triple has the coordinates of the point. -/
def Represents {b : F} (t : Triple F) : (shortCurve b).Point → Prop
  | .zero => t.z = 0
  | .some x y _ => t.z ≠ 0 ∧ t.x = x * t.z ^ 2 ∧ t.y = y * t.z ^ 3

/-- The third intersection of the tangent, reflected. -/
def tangent (t : Triple F) : Triple F where
  x := (3 * t.x ^ 2) ^ 2 - 8 * t.x * t.y ^ 2
  y := 3 * t.x ^ 2 * (12 * t.x * t.y ^ 2 - (3 * t.x ^ 2) ^ 2) - 8 * t.y ^ 4
  z := 2 * t.y * t.z

/-- The difference of the first coordinates, over a common denominator. -/
def run (t u : Triple F) : F :=
  u.x * t.z ^ 2 - t.x * u.z ^ 2

/-- The difference of the second coordinates, over a common denominator. -/
def rise (t u : Triple F) : F :=
  u.y * t.z ^ 3 - t.y * u.z ^ 3

/-- The third intersection of the chord, reflected. -/
def chord (t u : Triple F) : Triple F where
  x := rise t u ^ 2 - run t u ^ 3 - 2 * (t.x * u.z ^ 2) * run t u ^ 2
  y :=
    rise t u *
        (3 * (t.x * u.z ^ 2) * run t u ^ 2 + run t u ^ 3 - rise t u ^ 2) -
      t.y * u.z ^ 3 * run t u ^ 3
  z := t.z * u.z * run t u

section Representation

variable
  {b : F}
  {t u : Triple F}
  {first second : (shortCurve b).Point}

/-- Infinity is the only point that is represented with `z = 0`. -/
theorem Represents.eq_zero_iff (represents : Represents t first) :
    first = 0 ↔ t.z = 0 := by
  cases first with
  | zero =>
      exact ⟨fun _ => represents, fun _ => rfl⟩
  | some x y nonsingular =>
      exact ⟨fun isZero => absurd isZero (Affine.Point.some_ne_zero _),
        fun isZero => absurd isZero represents.1⟩

/-- A triple represents one point only. -/
theorem Represents.unique
    (represents : Represents t first)
    (representsToo : Represents t second) :
    first = second := by
  cases first with
  | zero =>
      exact (representsToo.eq_zero_iff.mpr represents).symm
  | some x y nonsingular =>
      cases second with
      | zero =>
          exact absurd representsToo represents.1
      | some x' y' nonsingular' =>
          obtain ⟨finite, isX, isY⟩ := represents
          obtain ⟨-, isX', isY'⟩ := representsToo
          exact (Affine.Point.some.injEq ..).mpr
            ⟨mul_right_cancel₀ (pow_ne_zero 2 finite) (isX.symm.trans isX'),
              mul_right_cancel₀ (pow_ne_zero 3 finite) (isY.symm.trans isY')⟩

theorem represents_zero (isZero : t.z = 0) :
    Represents t (0 : (shortCurve b).Point) :=
  isZero

/-- An affine point is represented with `z = 1`. -/
theorem represents_some
    {x y : F}
    (nonsingular : (shortCurve b).Nonsingular x y) :
    Represents ⟨x, y, 1⟩ (.some x y nonsingular) := by
  refine ⟨one_ne_zero, ?_, ?_⟩
  · rw [one_pow, mul_one]
  · rw [one_pow, mul_one]

theorem run_eq
    {x x' : F}
    (firstX : t.x = x * t.z ^ 2)
    (secondX : u.x = x' * u.z ^ 2) :
    run t u = (x' - x) * (t.z ^ 2 * u.z ^ 2) := by
  rw [run, firstX, secondX]
  ring

theorem rise_eq
    {y y' : F}
    (firstY : t.y = y * t.z ^ 3)
    (secondY : u.y = y' * u.z ^ 3) :
    rise t u = (y' - y) * (t.z ^ 3 * u.z ^ 3) := by
  rw [rise, firstY, secondY]
  ring

/-- Equal points have no differences over a common denominator. -/
theorem eq_iff
    (firstRepresents : Represents t first)
    (secondRepresents : Represents u second)
    (firstFinite : t.z ≠ 0)
    (secondFinite : u.z ≠ 0) :
    first = second ↔ run t u = 0 ∧ rise t u = 0 := by
  cases first with
  | zero =>
      exact absurd firstRepresents firstFinite
  | some x y nonsingular =>
      cases second with
      | zero =>
          exact absurd secondRepresents secondFinite
      | some x' y' nonsingular' =>
          obtain ⟨-, firstX, firstY⟩ := firstRepresents
          obtain ⟨-, secondX, secondY⟩ := secondRepresents
          have squares : t.z ^ 2 * u.z ^ 2 ≠ 0 :=
            mul_ne_zero (pow_ne_zero 2 firstFinite)
              (pow_ne_zero 2 secondFinite)
          have cubes : t.z ^ 3 * u.z ^ 3 ≠ 0 :=
            mul_ne_zero (pow_ne_zero 3 firstFinite)
              (pow_ne_zero 3 secondFinite)
          rw [run_eq firstX secondX, rise_eq firstY secondY,
            mul_eq_zero_iff_right squares, mul_eq_zero_iff_right cubes,
            sub_eq_zero, sub_eq_zero, Affine.Point.some.injEq]
          exact and_congr eq_comm eq_comm

end Representation

section Lines

variable {b : F}

theorem equation_iff (x y : F) :
    (shortCurve b).Equation x y ↔ y ^ 2 = x ^ 3 + b := by
  simp [Affine.equation_iff, shortCurve]

theorem negY_eq (x y : F) : (shortCurve b).negY x y = -y := by
  simp [Affine.negY, shortCurve]

theorem addX_eq (x x' slope : F) :
    (shortCurve b).addX x x' slope = slope ^ 2 - x - x' := by
  simp [Affine.addX, shortCurve]

theorem addY_eq (x x' y slope : F) :
    (shortCurve b).addY x x' y slope =
      slope * (2 * x + x' - slope ^ 2) - y := by
  rw [Affine.addY, Affine.negAddY, negY_eq, addX_eq]
  ring

variable [DecidableEq F]

/-- The line through two points with different first coordinates. -/
theorem slope_mul
    {x x' : F}
    (y y' : F)
    (different : x ≠ x') :
    (shortCurve b).slope x x' y y' * (x' - x) = y' - y := by
  rw [Affine.slope_of_X_ne different, ← neg_sub x x', ← neg_sub y y', mul_neg,
    div_mul_cancel₀ _ (sub_ne_zero.mpr different)]

/-- The tangent at a point that is not its own opposite. -/
theorem slope_self_mul
    {y : F}
    (x : F)
    (finite : 2 * y ≠ 0) :
    (shortCurve b).slope x x y y * (2 * y) = 3 * x ^ 2 := by
  have twice : y - -y = 2 * y := by
    ring
  have notNegated : y ≠ (shortCurve b).negY x y := by
    rw [negY_eq, ← sub_ne_zero, twice]
    exact finite
  rw [Affine.slope_of_Y_ne rfl notNegated, negY_eq, twice,
    div_mul_cancel₀ _ finite]
  simp [shortCurve]

end Lines

section Formulas

variable
  [DecidableEq F]
  {b : F}
  {t u : Triple F}
  {first second : (shortCurve b).Point}

/-- The tangent doubles a point. -/
theorem represents_tangent (represents : Represents t first) :
    Represents (tangent t) (first + first) := by
  cases first with
  | zero =>
      change t.z = 0 at represents
      change 2 * t.y * t.z = 0
      rw [represents, mul_zero]
  | some x y nonsingular =>
      obtain ⟨finite, isX, isY⟩ := represents
      have tangentZ : (tangent t).z = 2 * y * t.z ^ 4 := by
        rw [tangent, isY]
        ring
      by_cases vertical : 2 * y = 0
      · have opposite : y = (shortCurve b).negY x y := by
          rw [negY_eq]
          exact add_eq_zero_iff_eq_neg.mp ((two_mul y).symm.trans vertical)
        rw [Affine.Point.add_self_of_Y_eq opposite]
        apply represents_zero
        rw [tangentZ, vertical, zero_mul]
      · have notOpposite : y ≠ (shortCurve b).negY x y := by
          rw [negY_eq]
          intro opposite
          exact vertical ((two_mul y).trans
            (add_eq_zero_iff_eq_neg.mpr opposite))
        rw [Affine.Point.add_self_of_Y_ne notOpposite]
        have slope := slope_self_mul (b := b) x vertical
        refine ⟨?_, ?_, ?_⟩
        · rw [tangentZ]
          exact mul_ne_zero vertical (pow_ne_zero 4 finite)
        · rw [addX_eq, tangentZ, tangent, isX, isY]
          generalize (shortCurve b).slope x x y y = l at slope
          linear_combination -(3 * x ^ 2 + l * (2 * y)) * t.z ^ 8 * slope
        · rw [addY_eq, tangentZ, tangent, isX, isY]
          generalize (shortCurve b).slope x x y y = l at slope
          linear_combination
            ((l * (2 * y)) ^ 2 + l * (2 * y) * (3 * x ^ 2) +
              (3 * x ^ 2) ^ 2 - 12 * x * y ^ 2) * t.z ^ 12 * slope

/-- The chord adds different points, and loses the sum of equal ones. -/
theorem represents_chord
    [DecidableEq (shortCurve b).Point]
    (firstRepresents : Represents t first)
    (secondRepresents : Represents u second)
    (firstFinite : t.z ≠ 0)
    (secondFinite : u.z ≠ 0) :
    Represents (chord t u) (if first = second then 0 else first + second) := by
  have equal := eq_iff firstRepresents secondRepresents firstFinite secondFinite
  cases first with
  | zero =>
      exact absurd firstRepresents firstFinite
  | some x y nonsingular =>
      cases second with
      | zero =>
          exact absurd secondRepresents secondFinite
      | some x' y' nonsingular' =>
          obtain ⟨-, firstX, firstY⟩ := firstRepresents
          obtain ⟨-, secondX, secondY⟩ := secondRepresents
          have runs := run_eq firstX secondX
          have rises := rise_eq firstY secondY
          have infinity (noRun : run t u = 0) :
              Represents (chord t u) (0 : (shortCurve b).Point) := by
            apply represents_zero
            rw [chord, noRun, mul_zero]
          by_cases same : x = x'
          · have noRun : run t u = 0 := by
              rw [runs, same, sub_self, zero_mul]
            split
            · exact infinity noRun
            · rename_i different
              have opposite : y = (shortCurve b).negY x' y' := by
                rcases Affine.Y_eq_of_X_eq nonsingular.1 nonsingular'.1 same
                  with sameY | opposite
                · exact absurd ((Affine.Point.some.injEq ..).mpr
                    ⟨same, sameY⟩) different
                · exact opposite
              rw [Affine.Point.add_of_Y_eq same opposite]
              exact infinity noRun
          · have different :
                Affine.Point.some x y nonsingular ≠
                  Affine.Point.some x' y' nonsingular' := by
              intro samePoint
              exact same (Affine.Point.some.inj samePoint).1
            rw [if_neg different, Affine.Point.add_of_X_ne same]
            have slope := slope_mul (b := b) y y' same
            have finiteRun : run t u ≠ 0 := by
              rw [runs]
              exact mul_ne_zero (sub_ne_zero.mpr (Ne.symm same))
                (mul_ne_zero (pow_ne_zero 2 firstFinite)
                  (pow_ne_zero 2 secondFinite))
            refine ⟨?_, ?_, ?_⟩
            · exact mul_ne_zero (mul_ne_zero firstFinite secondFinite)
                finiteRun
            · rw [addX_eq, chord, firstX]
              generalize (shortCurve b).slope x x' y y' = l at slope
              have risen : rise t u = l * (t.z * u.z) * run t u := by
                rw [rises, runs, ← slope]
                ring
              rw [risen]
              linear_combination -run t u ^ 2 * runs
            · rw [addY_eq, chord, firstX, firstY]
              generalize (shortCurve b).slope x x' y y' = l at slope
              have risen : rise t u = l * (t.z * u.z) * run t u := by
                rw [rises, runs, ← slope]
                ring
              rw [risen]
              linear_combination l * (t.z * u.z) * run t u ^ 3 * runs

end Formulas

end JacobianCoordinates
