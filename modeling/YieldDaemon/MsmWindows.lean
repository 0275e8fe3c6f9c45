import Mathlib.Algebra.BigOperators.Intervals
import YieldDaemon.PippengerMsm

namespace YieldDaemon

open CheckedArithmetic LimbArithmetic

/-!
# Windows and buckets

The windows of a scalar lose and duplicate none of its bits.  Whatever the
buckets of the windows hold, the running sums weigh them, and the doublings move
every window to its place.
-/

/-- The shifts of a window that is extracted from a limb. -/
def windowShifts (windowIdx windowBits : Nat) : List Nat :=
  let bitOffset := windowIdx * windowBits
  let limbIdx := bitOffset / 64
  let bitInLimb := bitOffset % 64
  if 4 ≤ limbIdx then
    [windowBits]
  else if 64 < bitInLimb + windowBits ∧ limbIdx + 1 < 4 then
    [windowBits, bitInLimb, bitInLimb + windowBits - 64, 64 - bitInLimb]
  else
    [windowBits, bitInLimb]

theorem windowShifts_lt
    {windowBits : Nat}
    (narrow : windowBits ≤ 63)
    (windowIdx : Nat) :
    ∀ shift ∈ windowShifts windowIdx windowBits, shift < 64 := by
  have inLimb : windowIdx * windowBits % 64 < 64 :=
    Nat.mod_lt _ (by decide)
  rw [windowShifts]
  generalize windowIdx * windowBits % 64 = bitInLimb at inLimb
  split_ifs with beyond across
  · simp only [List.forall_mem_singleton]
    omega
  · simp only [List.forall_mem_cons, List.not_mem_nil, false_implies,
      implies_true, and_true]
    omega
  · simp only [List.forall_mem_cons, List.not_mem_nil, false_implies,
      implies_true, and_true]
    omega

/-- The windows of a scalar sum up to it, and none of their shifts overflows. -/
theorem windows_sum_to_scalar
    (profile : Profile)
    (scalar : MontgomeryU256)
    {windowBits : Nat}
    (positive : 1 ≤ windowBits)
    (narrow : windowBits ≤ 63) :
    ∃ windows : Nat → Nat,
      (∀ k < windowCount windowBits,
        extractWindow profile scalar k windowBits = .ok (windows k) ∧
          windows k < 2 ^ windowBits ∧
          ∀ shift ∈ windowShifts k windowBits, shift < 64) ∧
      ∑ k ∈ Finset.range (windowCount windowBits),
          windows k * 2 ^ (windowBits * k) =
        value scalar.limbs := by
  refine ⟨fun k => BucketMethod.digit windowBits k (value scalar.limbs),
    fun k inRange => ⟨?_, BucketMethod.digit_lt _ _ _,
      windowShifts_lt narrow k⟩, ?_⟩
  · have wide : windowBits < 64 := Nat.lt_succ_of_le narrow
    exact extractWindow_eq profile scalar wide (offset_lt wide inRange)
  · have enough :
        value scalar.limbs < 2 ^ (windowBits * windowCount windowBits) :=
      (value_limbs_lt scalar).trans_le
        (Nat.pow_le_pow_right Nat.two_pos (scalar_bits_le positive))
    simp only [Nat.mul_comm (BucketMethod.digit _ _ _)]
    rw [BucketMethod.sum_digits, Nat.mod_eq_of_lt enough]

/-- The scalar 1 in windows of 15 bits, for instance. -/
theorem windows_of_scalarOne :
    ∃ windows : Nat → Nat,
      (∀ k < windowCount 15,
        extractWindow .debug scalarOne k 15 = .ok (windows k) ∧
          windows k < 2 ^ 15 ∧
          ∀ shift ∈ windowShifts k 15, shift < 64) ∧
      ∑ k ∈ Finset.range (windowCount 15), windows k * 2 ^ (15 * k) =
        value scalarOne.limbs :=
  windows_sum_to_scalar .debug scalarOne (by decide) (by decide)

section Reduction

variable
  {fill : Nat → List ProjectivePoint → Checked (List ProjectivePoint)}
  {windowBits : Nat}
  {contents : Nat → Nat → bn254Curve.Point}

/-- The windows are combined to the weighted sum of all buckets. -/
theorem reduceWindows_represents
    (profile : Profile)
    (positive : 1 ≤ windowBits)
    (allocated : windowBits ≤ 56)
    (filled :
      ∀ k < windowCount windowBits,
        ∃ buckets,
          fill k (List.replicate (2 ^ windowBits - 1) .identity) =
              .ok buckets ∧
            HoldsBuckets (2 ^ windowBits - 1) buckets
              (fun j => contents k (j + 1))) :
    ∃ result,
      reduceWindows profile windowBits fill = .ok result ∧
        result.Represents
          (∑ k ∈ Finset.range (windowCount windowBits),
            ∑ j ∈ Finset.Icc 1 (2 ^ windowBits - 1),
              2 ^ (windowBits * k) • j • contents k j) := by
  obtain ⟨result, computed, represents⟩ :=
    reduceWindows_combine profile positive allocated filled
  refine ⟨result, computed, ?_⟩
  have weighted (k : Nat) :
      (BucketMethod.aggregate (2 ^ windowBits - 1)
          (fun j => contents k (j + 1))).2 =
        ∑ j ∈ Finset.Icc 1 (2 ^ windowBits - 1), j • contents k j := by
    rw [BucketMethod.aggregate_eq, Finset.range_eq_Ico,
      Finset.sum_Ico_add' (fun j => j • contents k j)]
    rfl
  simp only [BucketMethod.combine_eq, weighted, Finset.smul_sum]
    at represents
  exact represents

/-- The generator with a third coordinate. -/
def generatorTriple : ProjectivePoint where
  x := .encode 1
  y := .encode (2 : Nat)
  z := .encode 1

theorem generatorTriple_represents :
    generatorTriple.Represents generatorPoint.point := by
  rw [ProjectivePoint.represents_iff]
  refine ⟨⟨1, 2, 1⟩, rfl, ?_⟩
  rw [generatorPoint_point]
  exact ⟨one_ne_zero, by ring, by ring⟩

/-- Windows of two bits whose three buckets all hold the generator. -/
theorem windows_of_generator :
    ∃ result,
      reduceWindows .debug 2
          (fun _ _ => .ok (List.replicate 3 generatorTriple)) = .ok result ∧
        result.Represents
          (∑ k ∈ Finset.range (windowCount 2),
            ∑ j ∈ Finset.Icc 1 (2 ^ 2 - 1),
              2 ^ (2 * k) • j • generatorPoint.point) := by
  refine reduceWindows_represents .debug (by decide) (by decide)
    (fun k _ => ⟨_, rfl, ⟨rfl, ?_⟩⟩)
  intro j inRange
  rw [List.getElem_replicate]
  exact generatorTriple_represents

/-- Windows of 57 bits are not reduced, also where all buckets are empty. -/
theorem wide_windows_are_not_reduced :
    (∀ k < windowCount 57,
        ∃ buckets,
          (fun (_ : Nat) (empty : List ProjectivePoint) =>
              (.ok empty : Checked (List ProjectivePoint)))
              k (List.replicate (2 ^ 57 - 1) .identity) = .ok buckets ∧
            HoldsBuckets (2 ^ 57 - 1) buckets (fun _ => 0)) ∧
      ∀ result,
        reduceWindows .release 57 (fun _ empty => .ok empty) ≠ .ok result :=
  ⟨fun _ _ => ⟨_, rfl, emptyBuckets_hold (2 ^ 57 - 1)⟩,
    reduceWindows_overflows .release _ (by decide) (by decide)⟩

end Reduction

end YieldDaemon
