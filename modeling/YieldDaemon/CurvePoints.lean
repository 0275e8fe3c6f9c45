import YieldDaemon.JacobianCoordinates
import YieldDaemon.MontgomeryU256

namespace YieldDaemon

open CheckedArithmetic JacobianCoordinates

/-!
# Points of the curve

Points are kept in affine coordinates with a flag for infinity, or in Jacobian
coordinates, whose operations avoid inversions.  The plain addition doubles
where its arguments are equal.  The mixed addition has no such case, so it
loses the sum of a point with itself.
-/

/-- Affine point on BN254 G1 curve: y^2 = x^3 + 3 -/
structure AffinePoint where
  x : MontgomeryU256
  y : MontgomeryU256
  infinity : Bool
  deriving DecidableEq

/--
Projective point (Jacobian coordinates) for efficient group operations.
(X, Y, Z) represents affine (X/Z^2, Y/Z^3).
-/
structure ProjectivePoint where
  x : MontgomeryU256
  y : MontgomeryU256
  z : MontgomeryU256
  deriving DecidableEq

namespace ProjectivePoint

def identity : ProjectivePoint where
  x := .zero
  y := .one
  z := .zero

def isIdentity (self : ProjectivePoint) : Bool :=
  self.z.limbs == [0, 0, 0, 0]

/-- Point doubling in Jacobian coordinates. -/
def double (profile : Profile) (self : ProjectivePoint) :
    Checked ProjectivePoint :=
  if self.isIdentity then
    return self
  else do
    let xx ← self.x.montSqr profile
    let yy ← self.y.montSqr profile
    let yyyy ← yy.montSqr profile
    let zz ← self.z.montSqr profile
    -- S = 2 * ((X+YY)^2 - XX - YYYY)
    let s ← (self.x.montAdd yy).montSqr profile
    let s := (s.montSub xx).montSub yyyy
    let s := s.montAdd s
    -- M = 3*XX + a*ZZ^2 (a=0 for BN254, so M = 3*XX)
    let m := (xx.montAdd xx).montAdd xx
    -- T = M^2 - 2*S
    let t ← m.montSqr profile
    let t := (t.montSub s).montSub s
    -- Y3 = M*(S-T) - 8*YYYY
    let yyyy8 := yyyy.montAdd yyyy
    let yyyy8 := yyyy8.montAdd yyyy8
    let yyyy8 := yyyy8.montAdd yyyy8
    let y3 ← m.montMul profile (s.montSub t)
    let y3 := y3.montSub yyyy8
    -- Z3 = (Y+Z)^2 - YY - ZZ
    let z3 ← (self.y.montAdd self.z).montSqr profile
    let z3 := (z3.montSub yy).montSub zz
    return { x := t, y := y3, z := z3 }

/--
Convert projective point to affine coordinates.
Computes (X/Z^2, Y/Z^3) via modular inverse of Z.
-/
def toAffine (profile : Profile) (self : ProjectivePoint) :
    Checked AffinePoint :=
  if self.isIdentity then
    return { x := .zero, y := .zero, infinity := true }
  else do
    let zInv ← self.z.montInv profile
    let zInv2 ← zInv.montSqr profile
    let zInv3 ← zInv2.montMul profile zInv
    let x ← self.x.montMul profile zInv2
    let y ← self.y.montMul profile zInv3
    return { x, y, infinity := false }

/-- Projective point addition: self + rhs (both Jacobian). -/
def add (profile : Profile) (self rhs : ProjectivePoint) :
    Checked ProjectivePoint :=
  if self.isIdentity then
    return rhs
  else if rhs.isIdentity then
    return self
  else do
    let z1z1 ← self.z.montSqr profile
    let z2z2 ← rhs.z.montSqr profile
    let u1 ← self.x.montMul profile z2z2
    let u2 ← rhs.x.montMul profile z1z1
    let s1 ← self.y.montMul profile rhs.z
    let s1 ← s1.montMul profile z2z2
    let s2 ← rhs.y.montMul profile self.z
    let s2 ← s2.montMul profile z1z1
    let h := u2.montSub u1
    let r := s2.montSub s1
    -- If h == 0 and r == 0, points are equal → use doubling
    if h.limbs == [0, 0, 0, 0] && r.limbs == [0, 0, 0, 0] then
      self.double profile
    else
      let hh ← h.montSqr profile
      let hhh ← h.montMul profile hh
      let v ← u1.montMul profile hh
      let x3 ← r.montSqr profile
      let x3 := ((x3.montSub hhh).montSub v).montSub v
      let y3 ← r.montMul profile (v.montSub x3)
      let y3' ← s1.montMul profile hhh
      let z3 ← self.z.montMul profile rhs.z
      let z3 ← z3.montMul profile h
      return { x := x3, y := y3.montSub y3', z := z3 }

/-- Mixed addition: self + affine point (Z2=1, saves 4 multiplications). -/
def addAffine
    (profile : Profile)
    (self : ProjectivePoint)
    (rhs : AffinePoint) : Checked ProjectivePoint :=
  if rhs.infinity then
    return self
  else if self.isIdentity then
    return { x := rhs.x, y := rhs.y, z := .one }
  else do
    let z1z1 ← self.z.montSqr profile
    let u2 ← rhs.x.montMul profile z1z1
    let s2 ← rhs.y.montMul profile self.z
    let s2 ← s2.montMul profile z1z1
    let h := u2.montSub self.x
    let hh ← h.montSqr profile
    let hhh ← h.montMul profile hh
    let r := s2.montSub self.y
    let v ← self.x.montMul profile hh
    -- X3 = r^2 - HHH - 2*V
    let x3 ← r.montSqr profile
    let x3 := ((x3.montSub hhh).montSub v).montSub v
    -- Y3 = r*(V - X3) - Y1*HHH
    let y3 ← r.montMul profile (v.montSub x3)
    let y3' ← self.y.montMul profile hhh
    -- Z3 = Z1 * H
    let z3 ← self.z.montMul profile h
    return { x := x3, y := y3.montSub y3', z := z3 }

end ProjectivePoint

/-- The curve over the field of the code. -/
abbrev bn254Curve : WeierstrassCurve.Affine (ZMod Bn254.order) :=
  shortCurve (3 : Nat)

/-- Coordinates of field elements. -/
def encodedTriple (t : Triple (ZMod Bn254.order)) : ProjectivePoint where
  x := .encode t.x
  y := .encode t.y
  z := .encode t.z

namespace ProjectivePoint

/-- The field elements of the coordinates. -/
def triple (self : ProjectivePoint) : Triple (ZMod Bn254.order) where
  x := self.x.decode
  y := self.y.decode
  z := self.z.decode

/-- The coordinates are canonical and represent the point. -/
structure Represents
    (coordinates : ProjectivePoint)
    (point : bn254Curve.Point) : Prop where
  xCanonical : coordinates.x.IsCanonical
  yCanonical : coordinates.y.IsCanonical
  zCanonical : coordinates.z.IsCanonical
  represents : JacobianCoordinates.Represents coordinates.triple point

variable {profile : Profile} {t u : Triple (ZMod Bn254.order)}

theorem triple_encodedTriple (t : Triple (ZMod Bn254.order)) :
    (encodedTriple t).triple = t := by
  simp [triple, encodedTriple]

/-- The coordinates of a represented point encode a triple that represents it. -/
theorem represents_iff
    {self : ProjectivePoint}
    {point : bn254Curve.Point} :
    self.Represents point ↔
      ∃ t, self = encodedTriple t ∧
        JacobianCoordinates.Represents t point := by
  constructor
  · intro represents
    refine ⟨self.triple, ?_, represents.represents⟩
    simp only [encodedTriple, triple,
      MontgomeryU256.encode_decode represents.xCanonical,
      MontgomeryU256.encode_decode represents.yCanonical,
      MontgomeryU256.encode_decode represents.zCanonical]
  · rintro ⟨t, rfl, represents⟩
    exact {
      xCanonical := MontgomeryU256.encode_canonical t.x
      yCanonical := MontgomeryU256.encode_canonical t.y
      zCanonical := MontgomeryU256.encode_canonical t.z
      represents := by rwa [triple_encodedTriple] }

/-- The limbs of an encoding are all 0 only for 0. -/
theorem limbs_eq_zeros {element : ZMod Bn254.order} :
    ((MontgomeryU256.encode element).limbs == [0, 0, 0, 0]) =
      decide (element = 0) := by
  have zeros : [0, 0, 0, 0] = (MontgomeryU256.encode 0).limbs := by
    rw [← MontgomeryU256.zero_eq]
    rfl
  rw [Bool.eq_iff_iff, beq_iff_eq, decide_eq_true_iff, zeros]
  constructor
  · intro same
    apply MontgomeryU256.encode_inj.mp
    apply MontgomeryU256.ext_value
    rw [same]
  · rintro rfl
    rfl

theorem isIdentity_encodedTriple :
    (encodedTriple t).isIdentity = decide (t.z = 0) :=
  limbs_eq_zeros

theorem identity_eq : identity = encodedTriple ⟨0, 1, 0⟩ := by
  rw [identity, MontgomeryU256.zero_eq, MontgomeryU256.one_eq]
  rfl

/-- Coordinates of equal field elements are returned alike. -/
theorem return_eq
    {x y z : ZMod Bn254.order}
    (sameX : x = t.x)
    (sameY : y = t.y)
    (sameZ : z = t.z) :
    (pure ⟨.encode x, .encode y, .encode z⟩ : Checked ProjectivePoint) =
      .ok (encodedTriple t) := by
  subst sameX sameY sameZ
  rfl

/-- A doubling takes the tangent. -/
theorem double_encodedTriple :
    (encodedTriple t).double profile =
      .ok (encodedTriple (if t.z = 0 then t else tangent t)) := by
  by_cases isZero : t.z = 0
  · rw [double, isIdentity_encodedTriple, decide_eq_true isZero, if_pos rfl,
      if_pos isZero]
    rfl
  · rw [double, isIdentity_encodedTriple, decide_eq_false isZero,
      if_neg Bool.false_ne_true, if_neg isZero]
    dsimp only [encodedTriple]
    simp only [MontgomeryU256.montAdd_encode, MontgomeryU256.montSub_encode,
      Checked.bind_of_eq_ok MontgomeryU256.montSqr_encode,
      Checked.bind_of_eq_ok MontgomeryU256.montMul_encode]
    apply return_eq
    · rw [tangent]
      ring
    · rw [tangent]
      ring
    · rw [tangent]
      ring

/-- An addition takes the chord, or the tangent for equal points. -/
theorem add_encodedTriple :
    (encodedTriple t).add profile (encodedTriple u) =
      .ok (encodedTriple
        (if t.z = 0 then u
        else if u.z = 0 then t
        else if run t u = 0 ∧ rise t u = 0 then tangent t
        else chord t u)) := by
  by_cases firstZero : t.z = 0
  · rw [add, isIdentity_encodedTriple, decide_eq_true firstZero, if_pos rfl,
      if_pos firstZero]
    rfl
  by_cases secondZero : u.z = 0
  · rw [add, isIdentity_encodedTriple, isIdentity_encodedTriple,
      decide_eq_false firstZero, decide_eq_true secondZero,
      if_neg Bool.false_ne_true, if_pos rfl, if_neg firstZero,
      if_pos secondZero]
    rfl
  have runs :
      u.x * (t.z * t.z) - t.x * (u.z * u.z) = run t u := by
    rw [run]
    ring
  have rises :
      u.y * t.z * (t.z * t.z) - t.y * u.z * (u.z * u.z) = rise t u := by
    rw [rise]
    ring
  have doubled : (encodedTriple t).double profile = _ :=
    double_encodedTriple
  rw [add, isIdentity_encodedTriple, isIdentity_encodedTriple,
    decide_eq_false firstZero, decide_eq_false secondZero,
    if_neg Bool.false_ne_true, if_neg Bool.false_ne_true, if_neg firstZero,
    if_neg secondZero]
  rw [if_neg firstZero] at doubled
  dsimp only [encodedTriple]
  simp only [MontgomeryU256.montSub_encode,
    Checked.bind_of_eq_ok MontgomeryU256.montSqr_encode,
    Checked.bind_of_eq_ok MontgomeryU256.montMul_encode, limbs_eq_zeros,
    runs, rises]
  by_cases equal : run t u = 0 ∧ rise t u = 0
  · rw [if_pos equal, decide_eq_true equal.1, decide_eq_true equal.2,
      Bool.and_self, if_pos rfl]
    exact doubled
  · rw [if_neg equal]
    have notBoth :
        (decide (run t u = 0) && decide (rise t u = 0)) = false := by
      simpa using equal
    rw [notBoth, if_neg Bool.false_ne_true]
    apply return_eq
    · rw [chord]
      ring
    · rw [chord]
      ring
    · rw [chord]

/-- A mixed addition takes the chord. -/
theorem addAffine_encodedTriple (x y : ZMod Bn254.order) :
    (encodedTriple t).addAffine profile
        { x := .encode x, y := .encode y, infinity := false } =
      .ok (encodedTriple
        (if t.z = 0 then ⟨x, y, 1⟩ else chord t ⟨x, y, 1⟩)) := by
  by_cases isZero : t.z = 0
  · rw [addAffine, if_neg Bool.false_ne_true, isIdentity_encodedTriple,
      decide_eq_true isZero, if_pos rfl, if_pos isZero,
      MontgomeryU256.one_eq]
    rfl
  · rw [addAffine, if_neg Bool.false_ne_true, isIdentity_encodedTriple,
      decide_eq_false isZero, if_neg Bool.false_ne_true, if_neg isZero]
    dsimp only [encodedTriple]
    simp only [MontgomeryU256.montSub_encode,
      Checked.bind_of_eq_ok MontgomeryU256.montSqr_encode,
      Checked.bind_of_eq_ok MontgomeryU256.montMul_encode]
    apply return_eq
    · rw [chord, run, rise]
      ring
    · rw [chord, run, rise]
      ring
    · rw [chord, run]
      ring

end ProjectivePoint

/-! The group operations. -/

/-- No point of the curve is singular. -/
theorem nonsingular_of_equation
    {x y : ZMod Bn254.order}
    (equation : y ^ 2 = x ^ 3 + 3) :
    bn254Curve.Nonsingular x y := by
  have two : (2 : ZMod Bn254.order) ≠ 0 := by
    decide +kernel
  have three : (3 : ZMod Bn254.order) ≠ 0 := by
    decide +kernel
  rw [WeierstrassCurve.Affine.nonsingular_iff', equation_iff]
  refine ⟨equation, ?_⟩
  by_contra singular
  simp only [shortCurve, zero_mul, mul_zero, add_zero, zero_sub, not_or,
    not_not, neg_eq_zero, mul_eq_zero, two, three, false_or] at singular
  obtain ⟨xZero, yZero⟩ := singular
  rw [yZero, pow_eq_zero_iff two_ne_zero |>.mp xZero,
    zero_pow two_ne_zero, zero_pow three_ne_zero, zero_add] at equation
  exact three equation.symm

namespace AffinePoint

/-- Flagged infinity, or canonical coordinates of a point of the curve. -/
def IsOnCurve (self : AffinePoint) : Prop :=
  self.infinity = true ∨
    self.x.IsCanonical ∧ self.y.IsCanonical ∧
      self.y.decode ^ 2 = self.x.decode ^ 3 + (3 : Nat)

/-- The point that the coordinates stand for. -/
def point (self : AffinePoint) : bn254Curve.Point :=
  if finite :
      self.infinity = false ∧
        self.y.decode ^ 2 = self.x.decode ^ 3 + (3 : Nat) then
    .some self.x.decode self.y.decode (nonsingular_of_equation finite.2)
  else
    0

theorem point_of_infinity
    {self : AffinePoint}
    (isInfinity : self.infinity = true) :
    self.point = 0 := by
  rw [point, dif_neg]
  rw [isInfinity]
  exact fun finite => absurd finite.1 Bool.noConfusion

theorem point_of_equation
    {x y : ZMod Bn254.order}
    (equation : y ^ 2 = x ^ 3 + 3) :
    point { x := .encode x, y := .encode y, infinity := false } =
      .some x y (nonsingular_of_equation equation) := by
  have finite :
      false = false ∧
        (MontgomeryU256.encode y).decode ^ 2 =
          (MontgomeryU256.encode x).decode ^ 3 + (3 : Nat) := by
    rw [MontgomeryU256.decode_encode, MontgomeryU256.decode_encode]
    exact ⟨rfl, equation⟩
  rw [point, dif_pos finite]
  simp only [MontgomeryU256.decode_encode]

/-- A finite point of the curve has the encodings of its coordinates. -/
theorem IsOnCurve.finite
    {self : AffinePoint}
    (onCurve : self.IsOnCurve)
    (finite : self.infinity = false) :
    ∃ x y, y ^ 2 = x ^ 3 + 3 ∧
      self = { x := .encode x, y := .encode y, infinity := false } := by
  rcases onCurve with isInfinity | ⟨xCanonical, yCanonical, equation⟩
  · rw [finite] at isInfinity
    exact absurd isInfinity Bool.noConfusion
  · refine ⟨self.x.decode, self.y.decode, equation, ?_⟩
    rw [MontgomeryU256.encode_decode xCanonical,
      MontgomeryU256.encode_decode yCanonical, ← finite]

end AffinePoint

namespace ProjectivePoint

variable
  {self rhs : ProjectivePoint}
  {first second : bn254Curve.Point}

theorem identity_represents : identity.Represents 0 := by
  rw [identity_eq, represents_iff]
  exact ⟨_, rfl, represents_zero rfl⟩

theorem Represents.unique
    (represents : self.Represents first)
    (representsToo : self.Represents second) :
    first = second :=
  represents.represents.unique representsToo.represents

/-- The canonical affine coordinates of a point. -/
def affineOf : bn254Curve.Point → AffinePoint
  | .zero => { x := .zero, y := .zero, infinity := true }
  | .some x y _ => { x := .encode x, y := .encode y, infinity := false }

theorem affineOf_inj
    {first second : bn254Curve.Point} :
    affineOf first = affineOf second ↔ first = second := by
  constructor
  · intro same
    cases first with
    | zero =>
        cases second with
        | zero =>
            rfl
        | some x' y' nonsingular' =>
            exact absurd (congrArg AffinePoint.infinity same) nofun
    | some x y nonsingular =>
        cases second with
        | zero =>
            exact absurd (congrArg AffinePoint.infinity same) nofun
        | some x' y' nonsingular' =>
            have sameX := congrArg AffinePoint.x same
            have sameY := congrArg AffinePoint.y same
            exact (WeierstrassCurve.Affine.Point.some.injEq ..).mpr
              ⟨MontgomeryU256.encode_inj.mp sameX,
                MontgomeryU256.encode_inj.mp sameY⟩
  · rintro rfl
    rfl

/-- The conversion gives the affine coordinates of the represented point. -/
theorem Represents.toAffine
    (represents : self.Represents first)
    (profile : Profile) :
    self.toAffine profile = .ok (affineOf first) := by
  obtain ⟨t, rfl, standsFor⟩ := represents_iff.mp represents
  cases first with
  | zero =>
      have isZero : t.z = 0 := standsFor
      rw [ProjectivePoint.toAffine, isIdentity_encodedTriple,
        decide_eq_true isZero, if_pos rfl]
      rfl
  | some x y nonsingular =>
      obtain ⟨finite, isX, isY⟩ := standsFor
      have xBack : t.x * (t.z⁻¹ * t.z⁻¹) = x := by
        rw [isX]
        field_simp
      have yBack : t.y * (t.z⁻¹ * t.z⁻¹ * t.z⁻¹) = y := by
        rw [isY]
        field_simp
      rw [ProjectivePoint.toAffine, isIdentity_encodedTriple,
        decide_eq_false finite, if_neg Bool.false_ne_true]
      dsimp only [encodedTriple]
      simp only [Checked.bind_of_eq_ok MontgomeryU256.montInv_encode,
        Checked.bind_of_eq_ok MontgomeryU256.montSqr_encode,
        Checked.bind_of_eq_ok MontgomeryU256.montMul_encode, xBack, yBack]
      rfl

/-- A doubling represents the double of every point. -/
theorem Represents.double
    (doubled : self.Represents first)
    (profile : Profile) :
    ∃ result,
      self.double profile = .ok result ∧
        result.Represents (first + first) := by
  obtain ⟨t, rfl, represents⟩ := represents_iff.mp doubled
  refine ⟨_, double_encodedTriple, represents_iff.mpr ⟨_, rfl, ?_⟩⟩
  by_cases isZero : t.z = 0
  · rw [if_pos isZero, represents.eq_zero_iff.mpr isZero, add_zero]
    exact represents_zero isZero
  · rw [if_neg isZero]
    exact represents_tangent represents

/-- An addition represents the sum of any two points. -/
theorem Represents.add
    (left : self.Represents first)
    (profile : Profile)
    (right : rhs.Represents second) :
    ∃ result,
      self.add profile rhs = .ok result ∧
        result.Represents (first + second) := by
  obtain ⟨t, rfl, firstRepresents⟩ := represents_iff.mp left
  obtain ⟨u, rfl, secondRepresents⟩ := represents_iff.mp right
  refine ⟨_, add_encodedTriple, represents_iff.mpr ⟨_, rfl, ?_⟩⟩
  by_cases firstZero : t.z = 0
  · rw [if_pos firstZero, firstRepresents.eq_zero_iff.mpr firstZero, zero_add]
    exact secondRepresents
  by_cases secondZero : u.z = 0
  · rw [if_neg firstZero, if_pos secondZero,
      secondRepresents.eq_zero_iff.mpr secondZero, add_zero]
    exact firstRepresents
  have equal :=
    JacobianCoordinates.eq_iff firstRepresents secondRepresents firstZero
      secondZero
  rw [if_neg firstZero, if_neg secondZero]
  by_cases same : first = second
  · rw [if_pos (equal.mp same), ← same]
    exact represents_tangent firstRepresents
  · have added :=
      represents_chord firstRepresents secondRepresents firstZero secondZero
    rw [if_neg same] at added
    rw [if_neg (fun zeros => same (equal.mpr zeros))]
    exact added

/-- A mixed addition represents the sum of two different points only. -/
theorem Represents.addAffine
    {rhs : AffinePoint}
    (left : self.Represents first)
    (profile : Profile)
    (onCurve : rhs.IsOnCurve) :
    ∃ result,
      self.addAffine profile rhs = .ok result ∧
        result.Represents
          (if first = rhs.point then 0 else first + rhs.point) := by
  cases flag : rhs.infinity with
  | true =>
      refine ⟨self, ?_, ?_⟩
      · rw [ProjectivePoint.addAffine, if_pos flag]
        rfl
      · rw [AffinePoint.point_of_infinity flag, add_zero]
        split
        · rename_i isZero
          rwa [← isZero]
        · exact left
  | false =>
      obtain ⟨x, y, equation, rfl⟩ := onCurve.finite flag
      obtain ⟨t, rfl, represents⟩ := represents_iff.mp left
      have lifted := represents_some (nonsingular_of_equation equation)
      refine ⟨_, addAffine_encodedTriple x y, represents_iff.mpr ⟨_, rfl, ?_⟩⟩
      rw [AffinePoint.point_of_equation equation]
      by_cases isZero : t.z = 0
      · rw [if_pos isZero, represents.eq_zero_iff.mpr isZero, zero_add,
          if_neg (WeierstrassCurve.Affine.Point.some_ne_zero _).symm]
        exact lifted
      · rw [if_neg isZero]
        exact represents_chord represents lifted isZero one_ne_zero

/-- The affine coordinates of a point stand for it. -/
structure AffineFor
    (affine : AffinePoint)
    (point : bn254Curve.Point) : Prop where
  onCurve : affine.IsOnCurve
  standsFor : affine.point = point
  infinity_iff : affine.infinity = true ↔ point = 0

theorem affineFor_affineOf (point : bn254Curve.Point) :
    AffineFor (affineOf point) point := by
  cases point with
  | zero =>
      exact
        { onCurve := .inl rfl
          standsFor := AffinePoint.point_of_infinity rfl
          infinity_iff := iff_of_true rfl rfl }
  | some x y nonsingular =>
      have equation : y ^ 2 = x ^ 3 + 3 :=
        (equation_iff x y).mp nonsingular.1
      refine
        { onCurve := .inr ⟨MontgomeryU256.encode_canonical x,
            MontgomeryU256.encode_canonical y, ?_⟩
          standsFor := AffinePoint.point_of_equation equation
          infinity_iff := ?_ }
      · dsimp only [affineOf]
        rw [MontgomeryU256.decode_encode, MontgomeryU256.decode_encode]
        exact equation
      · exact iff_of_false Bool.false_ne_true
          (WeierstrassCurve.Affine.Point.some_ne_zero _)

/--
Whatever coordinates represent two points, equal, opposite or at infinity, the
operations represent their sum and their double, and the conversion returns
their affine coordinates.
-/
theorem operations_are_complete
    (profile : Profile)
    (left : self.Represents first)
    (right : rhs.Represents second) :
    (∃ sum,
        self.add profile rhs = .ok sum ∧
          sum.Represents (first + second)) ∧
      (∃ twice,
        self.double profile = .ok twice ∧
          twice.Represents (2 • first)) ∧
      ∃ affine,
        self.toAffine profile = .ok affine ∧ AffineFor affine first := by
  refine ⟨left.add profile right, ?_,
    _, left.toAffine profile, affineFor_affineOf first⟩
  rw [two_nsmul]
  exact left.double profile

theorem one_two_represents :
    (encodedTriple ⟨1, 2, 1⟩).Represents
      (.some 1 2 (nonsingular_of_equation (by norm_num))) :=
  represents_iff.mpr ⟨_, rfl, represents_some _⟩

theorem twice_one_two_equation :
    (-11 / 64 : ZMod Bn254.order) ^ 2 = (-23 / 16) ^ 3 + 3 := by
  have two : (2 : ZMod Bn254.order) ≠ 0 := by
    decide +kernel
  rw [show (16 : ZMod Bn254.order) = 2 ^ 4 by norm_num,
    show (64 : ZMod Bn254.order) = 2 ^ 6 by norm_num]
  field_simp
  norm_num

/-- The point (-23/16, -11/64), over the third coordinate 4. -/
theorem twice_one_two_represents :
    (encodedTriple ⟨-23, -11, 4⟩).Represents
      (.some (-23 / 16) (-11 / 64)
        (nonsingular_of_equation twice_one_two_equation)) := by
  have two : (2 : ZMod Bn254.order) ≠ 0 := by
    decide +kernel
  have four : (4 : ZMod Bn254.order) = 2 ^ 2 := by
    norm_num
  refine represents_iff.mpr ⟨_, rfl, ?_, ?_, ?_⟩
  · dsimp only
    rw [four]
    exact pow_ne_zero 2 two
  · rw [four, show (16 : ZMod Bn254.order) = 2 ^ 4 by norm_num]
    field_simp
  · rw [four, show (64 : ZMod Bn254.order) = 2 ^ 6 by norm_num]
    field_simp

/-- The point (1, 2) is added to another finite one, for instance. -/
theorem one_two_is_added :
    ∃ sum,
      (encodedTriple ⟨1, 2, 1⟩).add .debug (encodedTriple ⟨-23, -11, 4⟩) =
          .ok sum ∧
        sum.Represents
          (.some 1 2 (nonsingular_of_equation (by norm_num)) +
            .some (-23 / 16) (-11 / 64)
              (nonsingular_of_equation twice_one_two_equation)) :=
  (operations_are_complete .debug one_two_represents
    twice_one_two_represents).1

/-- A finite point is lifted to `Z = 1`. -/
def lift (rhs : AffinePoint) : ProjectivePoint :=
  if rhs.infinity then
    identity
  else
    { x := rhs.x, y := rhs.y, z := .one }

theorem lift_represents
    {rhs : AffinePoint}
    (onCurve : rhs.IsOnCurve) :
    (lift rhs).Represents rhs.point := by
  cases flag : rhs.infinity with
  | true =>
      rw [lift, if_pos flag, AffinePoint.point_of_infinity flag]
      exact identity_represents
  | false =>
      obtain ⟨x, y, equation, rfl⟩ := onCurve.finite flag
      rw [lift, if_neg Bool.false_ne_true, MontgomeryU256.one_eq,
        AffinePoint.point_of_equation equation]
      exact represents_iff.mpr ⟨⟨x, y, 1⟩, rfl, represents_some _⟩

/-- The double of a point is zero only at infinity or at a vertical tangent. -/
theorem double_eq_zero_iff
    {rhs : AffinePoint}
    (onCurve : rhs.IsOnCurve) :
    rhs.point + rhs.point = 0 ↔
      rhs.infinity = true ∨ rhs.y.decode = 0 := by
  cases flag : rhs.infinity with
  | true =>
      rw [AffinePoint.point_of_infinity flag]
      simp
  | false =>
      obtain ⟨x, y, equation, rfl⟩ := onCurve.finite flag
      have two : (2 : ZMod Bn254.order) ≠ 0 := by
        decide +kernel
      have vertical : y = bn254Curve.negY x y ↔ y = 0 := by
        rw [negY_eq, eq_neg_iff_add_eq_zero, ← two_mul, mul_eq_zero,
          or_iff_right two]
      rw [AffinePoint.point_of_equation equation,
        MontgomeryU256.decode_encode, or_iff_right Bool.false_ne_true,
        ← vertical]
      constructor
      · intro isZero
        by_contra notVertical
        rw [WeierstrassCurve.Affine.Point.add_self_of_Y_ne notVertical]
          at isZero
        exact WeierstrassCurve.Affine.Point.some_ne_zero _ isZero
      · exact WeierstrassCurve.Affine.Point.add_self_of_Y_eq

/-- Both additions return coordinates of one point. -/
def AdditionsAgree
    (profile : Profile)
    (self : ProjectivePoint)
    (rhs : AffinePoint) : Prop :=
  ∃ mixed plain point,
    self.addAffine profile rhs = .ok mixed ∧
      self.add profile (lift rhs) = .ok plain ∧
      mixed.Represents point ∧
      plain.Represents point

/-- The additions differ only where the double of a point is lost. -/
theorem additionsAgree_iff_double
    {rhs : AffinePoint}
    (profile : Profile)
    (left : self.Represents first)
    (onCurve : rhs.IsOnCurve) :
    AdditionsAgree profile self rhs ↔
      first ≠ rhs.point ∨ rhs.point + rhs.point = 0 := by
  obtain ⟨mixed, mixedEq, mixedPoint⟩ := left.addAffine profile onCurve
  obtain ⟨plain, plainEq, plainPoint⟩ :=
    left.add profile (lift_represents onCurve)
  constructor
  · rintro ⟨otherMixed, otherPlain, point, isMixed, isPlain, mixedIs,
      plainIs⟩
    obtain rfl := Except.ok.inj (mixedEq.symm.trans isMixed)
    obtain rfl := Except.ok.inj (plainEq.symm.trans isPlain)
    by_cases same : first = rhs.point
    · rw [if_pos same] at mixedPoint
      rw [same] at plainPoint
      rw [plainPoint.unique plainIs, ← mixedPoint.unique mixedIs]
      exact .inr rfl
    · exact .inl same
  · intro agrees
    have samePoint :
        (if first = rhs.point then 0 else first + rhs.point) =
          first + rhs.point := by
      split
      · next same =>
        rw [same]
        exact (agrees.resolve_left (not_not.mpr same)).symm
      · rfl
    rw [samePoint] at mixedPoint
    exact ⟨mixed, plain, _, mixedEq, plainEq, mixedPoint, plainPoint⟩

/--
The mixed addition agrees with the plain one unless it adds a finite point to
itself that is not its own opposite.
-/
theorem addAffine_agrees_iff
    {rhs : AffinePoint}
    (profile : Profile)
    (left : self.Represents first)
    (onCurve : rhs.IsOnCurve) :
    AdditionsAgree profile self rhs ↔
      first ≠ rhs.point ∨ rhs.infinity = true ∨ rhs.y.decode = 0 := by
  rw [additionsAgree_iff_double profile left onCurve,
    double_eq_zero_iff onCurve]

/-- The affine point (1, 2). -/
def affineOneTwo : AffinePoint where
  x := .encode 1
  y := .encode (2 : Nat)
  infinity := false

theorem affineOneTwo_onCurve : affineOneTwo.IsOnCurve := by
  refine .inr ⟨MontgomeryU256.encode_canonical 1,
    MontgomeryU256.encode_canonical 2, ?_⟩
  rw [affineOneTwo, MontgomeryU256.decode_encode,
    MontgomeryU256.decode_encode]
  norm_num

/-- Both additions add (1, 2) to infinity, for instance. -/
theorem additions_to_infinity_agree :
    AdditionsAgree .debug identity affineOneTwo := by
  refine (addAffine_agrees_iff .debug identity_represents
    affineOneTwo_onCurve).mpr (.inl ?_)
  have isPoint :=
    AffinePoint.point_of_equation
      (show (2 : ZMod Bn254.order) ^ 2 = 1 ^ 3 + 3 by norm_num)
  rw [affineOneTwo, Nat.cast_ofNat, isPoint]
  exact (WeierstrassCurve.Affine.Point.some_ne_zero _).symm

/-- The mixed addition of (1, 2) to itself is not its double. -/
theorem additions_of_one_two_disagree :
    ¬ AdditionsAgree .debug (encodedTriple ⟨1, 2, 1⟩) affineOneTwo := by
  have two : (2 : ZMod Bn254.order) ≠ 0 := by
    decide +kernel
  have isPoint :=
    AffinePoint.point_of_equation
      (show (2 : ZMod Bn254.order) ^ 2 = 1 ^ 3 + 3 by norm_num)
  rw [additionsAgree_iff_double .debug one_two_represents
    affineOneTwo_onCurve, double_eq_zero_iff affineOneTwo_onCurve]
  rintro (different | atInfinity | vertical)
  · exact different isPoint.symm
  · exact absurd atInfinity Bool.false_ne_true
  · rw [affineOneTwo, MontgomeryU256.decode_encode] at vertical
    exact two vertical

end ProjectivePoint

end YieldDaemon
