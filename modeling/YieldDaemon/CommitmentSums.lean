import YieldDaemon.CurveTorsion
import YieldDaemon.PippengerMsm

namespace YieldDaemon

open CheckedArithmetic LimbArithmetic CurveTorsion JacobianCoordinates

/-!
# Sums of commitments

A commitment to one scalar is its multiple of a point.  Scalars are added
modulo the order of the scalar field, and the coordinates are elements of the
same field, so the group of the points has another order: a sum of scalars
that wraps is never the sum of the commitments.
-/

/-- A root of 3, the second coordinate of a point of order 3. -/
def rootOfThree : ZMod Bn254.order :=
  4407920970296243842837207485651524041918764549557254210647

theorem rootOfThree_equation : rootOfThree ^ 2 = 0 ^ 3 + 3 := by
  decide +kernel

theorem twice_rootOfThree_ne_zero : 2 * rootOfThree ≠ 0 := by
  decide +kernel

/-- The point `(0, √3)`. -/
def torsionPoint : bn254Curve.Point :=
  .some 0 rootOfThree (nonsingular_of_equation rootOfThree_equation)

theorem three_nsmul_torsionPoint : 3 • torsionPoint = 0 :=
  three_nsmul_eq_zero _ twice_rootOfThree_ne_zero

/-- No finite point has the order of the scalar field. -/
theorem order_nsmul_ne_zero
    {point : bn254Curve.Point}
    (finite : point ≠ 0) :
    Bn254.order • point ≠ 0 := by
  have elements : Fintype.card (ZMod Bn254.order) = Bn254.order :=
    ZMod.card Bn254.order
  have prime : (Fintype.card (ZMod Bn254.order)).Prime := by
    rw [elements]
    exact Bn254.order_prime
  have large : 3 < Fintype.card (ZMod Bn254.order) := by
    rw [elements]
    norm_num
  have nonzero :=
    card_nsmul_ne_zero prime large
      (WeierstrassCurve.Affine.Point.some_ne_zero _)
      three_nsmul_torsionPoint finite
  rwa [elements] at nonzero

section Commitments

variable
  {profile : Profile}
  {s t : MontgomeryU256}
  {point : AffinePoint}
  {windowBits : Nat}

/-- The sum of canonical scalars is reduced by the order of the field. -/
theorem value_montAdd
    (sCanonical : s.IsCanonical)
    (tCanonical : t.IsCanonical) :
    value (s.montAdd t).limbs =
      (value s.limbs + value t.limbs) % Bn254.order := by
  have sEncoded := MontgomeryU256.encode_decode sCanonical
  have tEncoded := MontgomeryU256.encode_decode tCanonical
  have sum : s.montAdd t = .encode (s.decode + t.decode) := by
    rw [← MontgomeryU256.montAdd_encode, sEncoded, tEncoded]
  have canonical : value (s.montAdd t).limbs < Bn254.order := by
    rw [sum]
    exact MontgomeryU256.encode_canonical _
  have sameResidue :
      ((value (s.montAdd t).limbs : Nat) : ZMod Bn254.order) =
        ((value s.limbs + value t.limbs : Nat) : ZMod Bn254.order) := by
    rw [sum, MontgomeryU256.cast_encode, add_mul,
      ← MontgomeryU256.cast_encode s.decode,
      ← MontgomeryU256.cast_encode t.decode, sEncoded, tEncoded,
      Nat.cast_add]
  have residues :=
    (ZMod.natCast_eq_natCast_iff' _ _ _).mp sameResidue
  rwa [Nat.mod_eq_of_lt canonical] at residues

/-- With a single point no bucket loses anything. -/
theorem pippengerMsm_single
    (profile : Profile)
    (scalar : MontgomeryU256)
    (onCurve : point.IsOnCurve)
    (positive : 1 ≤ windowBits)
    (allocated : windowBits ≤ 56) :
    ∃ result,
      pippengerMsm profile [scalar] [point] windowBits = .ok result ∧
        result.Represents (value scalar.limbs • point.point) := by
  have allOnCurve : ∀ other ∈ [point], other.IsOnCurve := by
    intro other member
    rwa [List.mem_singleton.mp member]
  have nonempty : [scalar].length ≠ 0 := Nat.succ_ne_zero 0
  have few : (terms [scalar] [point]).length ≤ 1 := Nat.le_refl 1
  have single :
      BucketMethod.multiples (terms [scalar] [point]) =
        value scalar.limbs • point.point :=
    add_zero _
  rw [← single]
  exact (represents_multiples_iff profile rfl allOnCurve nonempty positive
    allocated).mpr
    (BucketMethod.lostSum_of_length_le_one few _ _)

/--
The commitment to a sum of scalars and the sum of their commitments are
computed, and are the same affine point.
-/
def CommitmentsAdd
    (profile : Profile)
    (s t : MontgomeryU256)
    (point : AffinePoint)
    (windowBits : Nat) : Prop :=
  ∃ whole first second sum affine,
    pippengerMsm profile [s.montAdd t] [point] windowBits = .ok whole ∧
      pippengerMsm profile [s] [point] windowBits = .ok first ∧
      pippengerMsm profile [t] [point] windowBits = .ok second ∧
      first.add profile second = .ok sum ∧
      whole.toAffine profile = .ok affine ∧
      sum.toAffine profile = .ok affine

/-- Multiples by a reduced number are the same only if it was not reduced. -/
theorem reduced_nsmul_iff
    {finitePoint : bn254Curve.Point}
    (finite : finitePoint ≠ 0)
    {number : Nat}
    (small : number < Bn254.order + Bn254.order) :
    (number % Bn254.order) • finitePoint = number • finitePoint ↔
      number < Bn254.order := by
  constructor
  · intro same
    by_contra wraps
    have large := Nat.not_lt.mp wraps
    have reduced : number % Bn254.order = number - Bn254.order := by
      rw [Nat.mod_eq_sub_mod large,
        Nat.mod_eq_of_lt (Nat.sub_lt_left_of_lt_add large small)]
    have split : number = number - Bn254.order + Bn254.order :=
      (Nat.sub_add_cancel large).symm
    have lost :
        (number - Bn254.order) • finitePoint + Bn254.order • finitePoint =
          (number - Bn254.order) • finitePoint := by
      rw [← add_nsmul, ← split, ← same, reduced]
    exact order_nsmul_ne_zero finite (add_eq_left.mp lost)
  · intro exact
    rw [Nat.mod_eq_of_lt exact]

/-- Where the buckets can be allocated the scalars decide. -/
theorem commitments_add_iff_not_wraps
    (profile : Profile)
    (sCanonical : s.IsCanonical)
    (tCanonical : t.IsCanonical)
    (onCurve : point.IsOnCurve)
    (finite : point.infinity = false)
    (positive : 1 ≤ windowBits)
    (allocated : windowBits ≤ 56) :
    CommitmentsAdd profile s t point windowBits ↔
      value s.limbs + value t.limbs < Bn254.order := by
  obtain ⟨whole, wholeComputed, wholeRepresents⟩ :=
    pippengerMsm_single profile (s.montAdd t) onCurve positive allocated
  obtain ⟨first, firstComputed, firstRepresents⟩ :=
    pippengerMsm_single profile s onCurve positive allocated
  obtain ⟨second, secondComputed, secondRepresents⟩ :=
    pippengerMsm_single profile t onCurve positive allocated
  obtain ⟨sum, added, sumRepresents⟩ :=
    firstRepresents.add profile secondRepresents
  have finitePoint : point.point ≠ 0 := by
    obtain ⟨x, y, equation, rfl⟩ := onCurve.finite finite
    rw [AffinePoint.point_of_equation equation]
    exact WeierstrassCurve.Affine.Point.some_ne_zero _
  rw [value_montAdd sCanonical tCanonical] at wholeRepresents
  rw [← add_nsmul] at sumRepresents
  have wholeAffine := wholeRepresents.toAffine profile
  have sumAffine := sumRepresents.toAffine profile
  rw [← reduced_nsmul_iff finitePoint (Nat.add_lt_add sCanonical tCanonical)]
  constructor
  · rintro ⟨whole', first', second', sum', affine, wholeComputed',
      firstComputed', secondComputed', added', wholeAffine', sumAffine'⟩
    obtain rfl : whole = whole' :=
      Except.ok.inj (wholeComputed.symm.trans wholeComputed')
    obtain rfl : first = first' :=
      Except.ok.inj (firstComputed.symm.trans firstComputed')
    obtain rfl : second = second' :=
      Except.ok.inj (secondComputed.symm.trans secondComputed')
    obtain rfl : sum = sum' := Except.ok.inj (added.symm.trans added')
    have sameWhole := Except.ok.inj (wholeAffine.symm.trans wholeAffine')
    have sameSum := Except.ok.inj (sumAffine.symm.trans sumAffine')
    exact ProjectivePoint.affineOf_inj.mp (sameWhole.trans sameSum.symm)
  · intro same
    rw [same] at wholeAffine
    exact ⟨whole, first, second, sum, _, wholeComputed, firstComputed,
      secondComputed, added, wholeAffine, sumAffine⟩

/--
Commitments are additive exactly if the buckets can be allocated and the sum
of the scalars does not wrap.
-/
theorem commitments_add_iff
    (profile : Profile)
    (sCanonical : s.IsCanonical)
    (tCanonical : t.IsCanonical)
    (onCurve : point.IsOnCurve)
    (finite : point.infinity = false)
    (positive : 1 ≤ windowBits)
    (narrow : windowBits ≤ 63) :
    CommitmentsAdd profile s t point windowBits ↔
      windowBits ≤ 56 ∧ value s.limbs + value t.limbs < Bn254.order := by
  by_cases allocated : windowBits ≤ 56
  · rw [commitments_add_iff_not_wraps profile sCanonical tCanonical onCurve
      finite positive allocated, and_iff_right allocated]
  · have nonempty : [s.montAdd t].length ≠ 0 := Nat.succ_ne_zero 0
    constructor
    · rintro ⟨whole, -, -, -, -, computed, -⟩
      exact absurd computed
        (pippengerMsm_overflows profile rfl nonempty
          (Nat.not_le.mp allocated) (Nat.lt_succ_of_le narrow) whole)
    · rintro ⟨fits, -⟩
      exact absurd fits allocated

theorem scalarOne_canonical : scalarOne.IsCanonical := by
  have isOne : value scalarOne.limbs = 1 := rfl
  rw [MontgomeryU256.IsCanonical, isOne]
  norm_num

/-- One and one are two, for instance. -/
theorem one_and_one_add :
    CommitmentsAdd .debug scalarOne scalarOne generatorPoint 15 :=
  (commitments_add_iff .debug scalarOne_canonical scalarOne_canonical
    generatorPoint_onCurve rfl (by decide) (by decide)).mpr
    ⟨by decide, show 1 + 1 < Bn254.order by norm_num⟩

/-- The largest scalar and one wrap to a commitment to nothing. -/
theorem largest_and_one_do_not_add :
    ¬ CommitmentsAdd .debug (.ofNumber (Bn254.order - 1)) scalarOne
      generatorPoint 15 := by
  have isOne : value scalarOne.limbs = 1 := rfl
  have isLargest :
      value (MontgomeryU256.ofNumber (Bn254.order - 1)).limbs =
        Bn254.order - 1 :=
    MontgomeryU256.value_ofNumber (by norm_num)
  have canonical :
      (MontgomeryU256.ofNumber (Bn254.order - 1)).IsCanonical := by
    rw [MontgomeryU256.IsCanonical, isLargest]
    norm_num
  rw [commitments_add_iff_not_wraps .debug canonical scalarOne_canonical
    generatorPoint_onCurve rfl (by decide) (by decide), isLargest, isOne]
  norm_num

end Commitments

end YieldDaemon
