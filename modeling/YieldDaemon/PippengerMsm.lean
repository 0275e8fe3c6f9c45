import YieldDaemon.BucketMethod
import YieldDaemon.CurvePoints

namespace YieldDaemon

open CheckedArithmetic LimbArithmetic

/-!
# Multi-scalar multiplication

Pippenger's bucket method over the points of the curve.  Its windows are the
digits of the scalars, and all of its additions are exact but the mixed ones
that fill the buckets.  The result is the sum of the multiples less what these
lose, so it is right exactly where the losses cancel.
-/

/-- Extract a `window_bits`-wide window from a scalar at position `window_idx`. -/
def extractWindow
    (profile : Profile)
    (scalar : MontgomeryU256)
    (windowIdx windowBits : Nat) : Checked Nat := do
  let bitOffset ← mul profile 64 windowIdx windowBits
  let limbIdx := bitOffset / 64
  let bitInLimb := bitOffset % 64
  let mask ← shl profile 64 1 windowBits
  let mask ← sub profile 64 mask 1
  if 4 ≤ limbIdx then
    return 0
  else
    let limb ← index scalar.limbs limbIdx
    let val := limb >>> bitInLimb
    let windowEnd ← add profile 64 bitInLimb windowBits
    -- Handle window spanning two limbs
    if 64 < windowEnd ∧ limbIdx + 1 < 4 then
      let overflowBits ← sub profile 64 windowEnd 64
      let high ← index scalar.limbs (limbIdx + 1)
      let highMask ← shl profile 64 1 overflowBits
      let highMask ← sub profile 64 highMask 1
      let high ← shl profile 64 (high &&& highMask) (64 - bitInLimb)
      return (val ||| high) &&& mask
    else
      return val &&& mask

/-- `vec![IDENTITY; num_buckets]`, whose bytes have to fit an `isize`. -/
def emptyBuckets (numBuckets : Nat) : Checked (List ProjectivePoint) :=
  if numBuckets * 96 ≤ 2 ^ 63 - 32 then
    .ok (List.replicate numBuckets .identity)
  else
    .error .arithmeticOverflow

/-- Distribute a point into a bucket based on its scalar window. -/
def distributePoint
    (profile : Profile)
    (scalars : List MontgomeryU256)
    (points : List AffinePoint)
    (windowIdx windowBits : Nat)
    (buckets : List ProjectivePoint)
    (i : Nat) : Checked (List ProjectivePoint) := do
  let scalar ← index scalars i
  let bucketIdx ← extractWindow profile scalar windowIdx windowBits
  if 0 < bucketIdx then
    let bucket ← index buckets (bucketIdx - 1)
    let point ← index points i
    let bucket ← bucket.addAffine profile point
    store buckets (bucketIdx - 1) bucket
  else
    return buckets

/-- Add a bucket to the running sum, and this to the window sum. -/
def aggregateBucket
    (profile : Profile)
    (buckets : List ProjectivePoint)
    (sums : ProjectivePoint × ProjectivePoint)
    (j : Nat) : Checked (ProjectivePoint × ProjectivePoint) := do
  let bucket ← index buckets j
  let runningSum ← sums.1.add profile bucket
  let windowSum ← sums.2.add profile runningSum
  return (runningSum, windowSum)

/-- Shift result by window_bits (repeated doubling), except for the first window. -/
def shiftResult
    (profile : Profile)
    (windowBits numWindows windowIdx : Nat)
    (result : ProjectivePoint) : Checked ProjectivePoint := do
  let last ← sub profile 64 numWindows 1
  if windowIdx < last then
    (List.range windowBits).foldlM (fun result _ => result.double profile)
      result
  else
    return result

/-- Shift the result by a window and add the next one. -/
def processWindow
    (profile : Profile)
    (scalars : List MontgomeryU256)
    (points : List AffinePoint)
    (windowBits numWindows numBuckets : Nat)
    (result : ProjectivePoint)
    (windowIdx : Nat) : Checked ProjectivePoint := do
  let result ← shiftResult profile windowBits numWindows windowIdx result
  let buckets ← emptyBuckets numBuckets
  let buckets ←
    (List.range scalars.length).foldlM
      (distributePoint profile scalars points windowIdx windowBits) buckets
  let sums ←
    (List.range numBuckets).reverse.foldlM (aggregateBucket profile buckets)
      (.identity, .identity)
  result.add profile sums.2

/-- Pippenger's bucket MSM: computes sum(scalars[i] * points[i]). -/
def pippengerMsm
    (profile : Profile)
    (scalars : List MontgomeryU256)
    (points : List AffinePoint)
    (windowBits : Nat) : Checked ProjectivePoint :=
  if scalars.length ≠ points.length then
    .error .assertionFailed
  else if scalars.length = 0 then
    return .identity
  else do
    let padded ← add profile 64 256 windowBits
    let padded ← sub profile 64 padded 1
    let numWindows ← div padded windowBits
    let numBuckets ← shl profile 64 1 windowBits
    -- buckets 1..2^w-1
    let numBuckets ← sub profile 64 numBuckets 1
    -- Process windows from most significant to least significant
    (List.range numWindows).reverse.foldlM
      (processWindow profile scalars points windowBits numWindows numBuckets)
      .identity

/-- Shift the result by a window and add the sum of its filled buckets. -/
def reduceWindow
    (profile : Profile)
    (fill : Nat → List ProjectivePoint → Checked (List ProjectivePoint))
    (windowBits numWindows numBuckets : Nat)
    (result : ProjectivePoint)
    (windowIdx : Nat) : Checked ProjectivePoint := do
  let result ← shiftResult profile windowBits numWindows windowIdx result
  -- Initialize empty buckets
  let buckets ← emptyBuckets numBuckets
  let buckets ← fill windowIdx buckets
  let sums ←
    (List.range numBuckets).reverse.foldlM (aggregateBucket profile buckets)
      (.identity, .identity)
  result.add profile sums.2

/-- The windows from the top one down, for any way to fill their buckets. -/
def reduceWindows
    (profile : Profile)
    (windowBits : Nat)
    (fill : Nat → List ProjectivePoint → Checked (List ProjectivePoint)) :
    Checked ProjectivePoint := do
  let padded ← add profile 64 256 windowBits
  let padded ← sub profile 64 padded 1
  let numWindows ← div padded windowBits
  let numBuckets ← shl profile 64 1 windowBits
  -- buckets 1..2^w-1
  let numBuckets ← sub profile 64 numBuckets 1
  -- Process windows from most significant to least significant
  (List.range numWindows).reverse.foldlM
    (reduceWindow profile fill windowBits numWindows numBuckets) .identity

/-- The multiplication reduces the buckets that its points fill. -/
theorem pippengerMsm_eq_reduceWindows
    {scalars : List MontgomeryU256}
    {points : List AffinePoint}
    (profile : Profile)
    (sameLength : scalars.length = points.length)
    (nonempty : scalars.length ≠ 0)
    (windowBits : Nat) :
    pippengerMsm profile scalars points windowBits =
      reduceWindows profile windowBits
        (fun windowIdx =>
          (List.range scalars.length).foldlM
            (distributePoint profile scalars points windowIdx windowBits)) := by
  rw [pippengerMsm, if_neg (not_not.mpr sameLength), if_neg nonempty]
  rfl

theorem value_limbs_lt (scalar : MontgomeryU256) :
    value scalar.limbs < 2 ^ 256 := by
  have small := value_lt scalar.areLimbs
  rwa [scalar.fourLimbs, ← Nat.pow_mul] at small

/-- A window that crosses two limbs, bit by bit. -/
theorem window_across
    (number : Nat)
    {limbIdx bitInLimb windowBits : Nat}
    (low : bitInLimb < 64)
    (across : 64 < bitInLimb + windowBits)
    (narrow : windowBits < 64) :
    ((number / 2 ^ (64 * limbIdx) % 2 ^ 64) >>> bitInLimb |||
        ((number / 2 ^ (64 * (limbIdx + 1)) % 2 ^ 64 %
          2 ^ (bitInLimb + windowBits - 64)) <<< (64 - bitInLimb)) %
            2 ^ 64) % 2 ^ windowBits =
      number / 2 ^ (64 * limbIdx + bitInLimb) % 2 ^ windowBits := by
  apply Nat.eq_of_testBit_eq
  intro k
  simp only [Nat.testBit_mod_two_pow, Nat.testBit_or,
    Nat.testBit_shiftRight, Nat.testBit_shiftLeft, Nat.testBit_div_two_pow]
  by_cases inWindow : k < windowBits
  · by_cases inLimb : bitInLimb + k < 64
    · have notHigh : ¬ 64 - bitInLimb ≤ k := by omega
      have sameBit :
          bitInLimb + k + 64 * limbIdx = k + (64 * limbIdx + bitInLimb) := by
        omega
      simp [inWindow, inLimb, notHigh, sameBit]
    · have isHigh : 64 - bitInLimb ≤ k := by omega
      have inOverflow :
          k - (64 - bitInLimb) < bitInLimb + windowBits - 64 := by
        omega
      have inNext : k - (64 - bitInLimb) < 64 := by omega
      have inWord : k < 64 := by omega
      have sameBit :
          k - (64 - bitInLimb) + 64 * (limbIdx + 1) =
            k + (64 * limbIdx + bitInLimb) := by
        omega
      simp [inWindow, inLimb, isHigh, inOverflow, inNext, inWord, sameBit]
  · simp [inWindow]

/-- A window inside of a limb, or of the highest one. -/
theorem window_within
    {number limbIdx bitInLimb windowBits : Nat}
    (within :
      bitInLimb + windowBits ≤ 64 ∨ number < 2 ^ (64 * limbIdx + 64)) :
    (number / 2 ^ (64 * limbIdx) % 2 ^ 64) >>> bitInLimb % 2 ^ windowBits =
      number / 2 ^ (64 * limbIdx + bitInLimb) % 2 ^ windowBits := by
  apply Nat.eq_of_testBit_eq
  intro k
  simp only [Nat.testBit_mod_two_pow, Nat.testBit_shiftRight,
    Nat.testBit_div_two_pow]
  by_cases inWindow : k < windowBits
  · have sameBit :
        bitInLimb + k + 64 * limbIdx = k + (64 * limbIdx + bitInLimb) := by
      omega
    by_cases inLimb : bitInLimb + k < 64
    · simp [inWindow, inLimb, sameBit]
    · have small : number < 2 ^ (64 * limbIdx + 64) := by
        rcases within with fits | small
        · omega
        · exact small
      have noBit :
          number.testBit (k + (64 * limbIdx + bitInLimb)) = false :=
        Nat.testBit_lt_two_pow
          (small.trans_le (Nat.pow_le_pow_right Nat.two_pos (by omega)))
      simp [inWindow, inLimb, noBit]
  · simp [inWindow]

/-- A window is the digit of the scalar at its index. -/
theorem extractWindow_eq
    (profile : Profile)
    (scalar : MontgomeryU256)
    {windowIdx windowBits : Nat}
    (narrow : windowBits < 64)
    (offset : windowIdx * windowBits < 2 ^ 64) :
    extractWindow profile scalar windowIdx windowBits =
      .ok (BucketMethod.digit windowBits windowIdx (value scalar.limbs)) := by
  have small := value_limbs_lt scalar
  have split : 64 * (windowIdx * windowBits / 64) +
      windowIdx * windowBits % 64 = windowIdx * windowBits :=
    Nat.div_add_mod _ 64
  have low : windowIdx * windowBits % 64 < 64 := Nat.mod_lt _ (by norm_num)
  have multiplied :
      mul profile 64 windowIdx windowBits = .ok (windowIdx * windowBits) :=
    fit_of_lt offset
  have limb {i : Nat} (inRange : i < 4) :
      index scalar.limbs i =
        .ok (value scalar.limbs / 2 ^ (64 * i) % 2 ^ 64) := by
    have inLimbs : i < scalar.limbs.length := by
      rwa [scalar.fourLimbs]
    rw [index_of_lt inLimbs, limb_eq scalar.areLimbs]
  rw [extractWindow, multiplied, Checked.ok_bind, BucketMethod.digit,
    Nat.mul_comm windowBits, ← split]
  dsimp only
  rw [split]
  generalize windowIdx * windowBits / 64 = limbIdx at split
  generalize windowIdx * windowBits % 64 = bitInLimb at low split
  rw [← split, shl_one narrow, Checked.ok_bind,
    sub_of_le (Nat.one_le_two_pow), Checked.ok_bind]
  by_cases beyond : 4 ≤ limbIdx
  · have high : 2 ^ 256 ≤ 2 ^ (64 * limbIdx + bitInLimb) :=
      Nat.pow_le_pow_right Nat.two_pos (by omega)
    rw [if_pos beyond, Nat.div_eq_of_lt (small.trans_le high), Nat.zero_mod]
    rfl
  · have inLimbs : limbIdx < 4 := Nat.not_le.mp beyond
    have ended :
        add profile 64 bitInLimb windowBits = .ok (bitInLimb + windowBits) :=
      fit_of_lt (by omega)
    rw [if_neg beyond, limb inLimbs, Checked.ok_bind, ended, Checked.ok_bind]
    by_cases across : 64 < bitInLimb + windowBits ∧ limbIdx + 1 < 4
    · have overflow : bitInLimb + windowBits - 64 < 64 := by omega
      have shift : 64 - bitInLimb < 64 := by omega
      rw [if_pos across, sub_of_le across.1.le, Checked.ok_bind,
        limb across.2, Checked.ok_bind, shl_one overflow, Checked.ok_bind,
        sub_of_le (Nat.one_le_two_pow), Checked.ok_bind, shl_of_lt shift,
        Checked.ok_bind, Checked.pure_eq_ok, Nat.and_two_pow_sub_one_eq_mod,
        Nat.and_two_pow_sub_one_eq_mod,
        window_across _ low across.1 narrow]
    · have within :
          bitInLimb + windowBits ≤ 64 ∨
            value scalar.limbs < 2 ^ (64 * limbIdx + 64) := by
        by_cases fits : bitInLimb + windowBits ≤ 64
        · exact .inl fits
        · have isLast : limbIdx = 3 := by omega
          rw [isLast]
          exact .inr small
      rw [if_neg across, Checked.pure_eq_ok, Nat.and_two_pow_sub_one_eq_mod,
        window_within within]

/-! The group sums that the loops represent. -/

/-- The multiples that are summed up: of every point by its scalar. -/
def terms
    (scalars : List MontgomeryU256)
    (points : List AffinePoint) : List (Nat × bn254Curve.Point) :=
  (scalars.zip points).map
    (fun pair => (value pair.1.limbs, pair.2.point))

/-- The buckets represent group elements. -/
structure HoldsBuckets
    (numBuckets : Nat)
    (buckets : List ProjectivePoint)
    (sums : Nat → bn254Curve.Point) : Prop where
  size : buckets.length = numBuckets
  represents :
    ∀ k, (inRange : k < buckets.length) → buckets[k].Represents (sums k)

section Loops

variable
  {profile : Profile}
  {scalars : List MontgomeryU256}
  {points : List AffinePoint}
  {windowBits numWindows : Nat}

theorem terms_length (sameLength : scalars.length = points.length) :
    (terms scalars points).length = scalars.length := by
  rw [terms, List.length_map, List.length_zip, ← sameLength, Nat.min_self]

theorem terms_getD
    {i : Nat}
    (scalarInRange : i < scalars.length)
    (pointInRange : i < points.length) :
    (terms scalars points).getD i (0, 0) =
      (value scalars[i].limbs, points[i].point) := by
  have inTerms : i < (terms scalars points).length := by
    rw [terms, List.length_map, List.length_zip]
    exact lt_min scalarInRange pointInRange
  rw [List.getD_eq_getElem _ _ inTerms]
  simp only [terms, List.getElem_map, List.getElem_zip]

theorem terms_small :
    ∀ term ∈ terms scalars points, term.1 < 2 ^ 256 := by
  intro term member
  obtain ⟨pair, -, rfl⟩ := List.mem_map.mp member
  exact value_limbs_lt pair.1

/-- A loop over the indices of a list is a loop over its items. -/
theorem foldl_range_getD
    {Item State : Type}
    (items : List Item)
    (default : Item)
    (step : State → Item → State)
    (state : State) :
    (List.range items.length).foldl
        (fun state i => step state (items.getD i default)) state =
      items.foldl step state := by
  have tabulated :
      (List.range items.length).map (fun i => items.getD i default) =
        items := by
    apply List.ext_getElem
    · simp
    · intro i _ inRange
      simp [inRange]
  conv_rhs => rw [← tabulated, List.foldl_map]

theorem emptyBuckets_hold (numBuckets : Nat) :
    HoldsBuckets numBuckets (List.replicate numBuckets .identity)
      (fun _ => 0) where
  size := List.length_replicate
  represents k inRange := by
    rw [List.getElem_replicate]
    exact ProjectivePoint.identity_represents

/-- A point is added to the bucket of the digit of its scalar. -/
theorem distributePoint_holds
    {windowIdx : Nat}
    {buckets : List ProjectivePoint}
    {sums : Nat → bn254Curve.Point}
    {i : Nat}
    (profile : Profile)
    (sameLength : scalars.length = points.length)
    (onCurve : ∀ point ∈ points, point.IsOnCurve)
    (narrow : windowBits < 64)
    (offset : windowIdx * windowBits < 2 ^ 64)
    (inRange : i < scalars.length)
    (holds : HoldsBuckets (2 ^ windowBits - 1) buckets sums) :
    ∃ next,
      distributePoint profile scalars points windowIdx windowBits buckets i =
          .ok next ∧
        HoldsBuckets (2 ^ windowBits - 1) next
          (BucketMethod.distributeItem windowBits windowIdx sums
            ((terms scalars points).getD i (0, 0))) := by
  have pointInRange : i < points.length := by
    rwa [← sameLength]
  have small :=
    BucketMethod.digit_lt windowBits windowIdx (value scalars[i].limbs)
  rw [terms_getD inRange pointInRange, distributePoint, index_of_lt inRange,
    Checked.ok_bind, extractWindow_eq profile _ narrow offset,
    Checked.ok_bind, BucketMethod.distributeItem]
  dsimp only
  generalize
    BucketMethod.digit windowBits windowIdx (value scalars[i].limbs) = digit
    at small
  by_cases positive : 0 < digit
  · have inBuckets : digit - 1 < buckets.length := by
      rw [holds.size]
      omega
    obtain ⟨added, computed, addedRepresents⟩ :=
      (holds.represents _ inBuckets).addAffine profile
        (onCurve _ (List.getElem_mem pointInRange))
    rw [if_pos positive, if_pos positive, index_of_lt inBuckets,
      Checked.ok_bind, index_of_lt pointInRange, Checked.ok_bind, computed,
      Checked.ok_bind, store_of_lt inBuckets]
    refine ⟨_, rfl, ?_, ?_⟩
    · rw [List.length_set, holds.size]
    · intro k kInRange
      rw [List.getElem_set]
      by_cases isBucket : digit - 1 = k
      · rw [if_pos isBucket, ← isBucket, Function.update_self]
        exact addedRepresents
      · rw [if_neg isBucket, Function.update_of_ne (Ne.symm isBucket)]
        rw [List.length_set] at kInRange
        exact holds.represents k kInRange
  · rw [if_neg positive, if_neg positive]
    exact ⟨buckets, rfl, holds⟩

/-- All points together fill the buckets of a window. -/
theorem distribute_holds
    {windowIdx : Nat}
    (profile : Profile)
    (sameLength : scalars.length = points.length)
    (onCurve : ∀ point ∈ points, point.IsOnCurve)
    (narrow : windowBits < 64)
    (offset : windowIdx * windowBits < 2 ^ 64) :
    ∃ buckets,
      (List.range scalars.length).foldlM
          (distributePoint profile scalars points windowIdx windowBits)
          (List.replicate (2 ^ windowBits - 1) .identity) = .ok buckets ∧
        HoldsBuckets (2 ^ windowBits - 1) buckets
          (BucketMethod.distribute windowBits windowIdx
            (terms scalars points)) := by
  obtain ⟨buckets, computed, holds⟩ :=
    Checked.foldlM_relates (HoldsBuckets (2 ^ windowBits - 1))
      (fun sums i =>
        BucketMethod.distributeItem windowBits windowIdx sums
          ((terms scalars points).getD i (0, 0)))
      (fun i member _ _ held =>
        distributePoint_holds profile sameLength onCurve narrow offset
          (List.mem_range.mp member) held)
      (emptyBuckets_hold (2 ^ windowBits - 1))
  refine ⟨buckets, computed, ?_⟩
  rwa [← terms_length sameLength, foldl_range_getD] at holds

/-- Both sums of the aggregation represent group elements. -/
structure RepresentsSums
    (sums : ProjectivePoint × ProjectivePoint)
    (values : bn254Curve.Point × bn254Curve.Point) : Prop where
  running : sums.1.Represents values.1
  total : sums.2.Represents values.2

/-- The aggregation of represented buckets represents their weighted sum. -/
theorem aggregate_represents
    {numBuckets : Nat}
    {buckets : List ProjectivePoint}
    {values : Nat → bn254Curve.Point}
    (profile : Profile)
    (holds : HoldsBuckets numBuckets buckets values) :
    ∃ sums,
      (List.range numBuckets).reverse.foldlM
          (aggregateBucket profile buckets) (.identity, .identity) =
          .ok sums ∧
        RepresentsSums sums (BucketMethod.aggregate numBuckets values) := by
  have step :
      ∀ j ∈ (List.range numBuckets).reverse, ∀ sums weighed,
        RepresentsSums sums weighed →
        ∃ following,
          aggregateBucket profile buckets sums j = .ok following ∧
            RepresentsSums following
              (BucketMethod.aggregateBucket values weighed j) := by
    intro j member sums weighed represents
    have inBuckets : j < buckets.length := by
      rw [holds.size]
      exact List.mem_range.mp (List.mem_reverse.mp member)
    obtain ⟨running, runningAdded, runningRepresents⟩ :=
      represents.running.add profile (holds.represents j inBuckets)
    obtain ⟨total, totalAdded, totalRepresents⟩ :=
      represents.total.add profile runningRepresents
    refine ⟨(running, total), ?_, runningRepresents, totalRepresents⟩
    rw [aggregateBucket, index_of_lt inBuckets, Checked.ok_bind,
      runningAdded, Checked.ok_bind, totalAdded, Checked.ok_bind,
      Checked.pure_eq_ok]
  exact Checked.foldlM_relates RepresentsSums
    (BucketMethod.aggregateBucket values) step
    ⟨ProjectivePoint.identity_represents, ProjectivePoint.identity_represents⟩

/-- The doublings of a shift represent the multiple by a power of two. -/
theorem shiftResult_represents
    {windowIdx : Nat}
    {result : ProjectivePoint}
    {total : bn254Curve.Point}
    (windowBits : Nat)
    (profile : Profile)
    (inRange : windowIdx < numWindows)
    (represents : result.Represents total) :
    ∃ shifted,
      shiftResult profile windowBits numWindows windowIdx result =
          .ok shifted ∧
        shifted.Represents
          (if windowIdx < numWindows - 1 then 2 ^ windowBits • total
            else total) := by
  rw [shiftResult, sub_of_le (Nat.one_le_of_lt inRange), Checked.ok_bind]
  by_cases isLower : windowIdx < numWindows - 1
  · rw [if_pos isLower, if_pos isLower, ← BucketMethod.foldl_double]
    exact Checked.foldlM_relates ProjectivePoint.Represents
      (fun total _ => total + total)
      (fun _ _ _ _ represented => represented.double profile) represents
  · rw [if_neg isLower, if_neg isLower]
    exact ⟨result, rfl, represents⟩

/-- A window adds the weighted sum of its buckets. -/
theorem reduceWindow_represents
    {fill : Nat → List ProjectivePoint → Checked (List ProjectivePoint)}
    {windowIdx : Nat}
    {buckets : List ProjectivePoint}
    {sums : Nat → Nat → bn254Curve.Point}
    {result : ProjectivePoint}
    {total : bn254Curve.Point}
    (profile : Profile)
    (allocated : windowBits ≤ 56)
    (filled :
      fill windowIdx (List.replicate (2 ^ windowBits - 1) .identity) =
        .ok buckets)
    (holds :
      HoldsBuckets (2 ^ windowBits - 1) buckets (sums windowIdx))
    (inRange : windowIdx < numWindows)
    (represents : result.Represents total) :
    ∃ next,
      reduceWindow profile fill windowBits numWindows (2 ^ windowBits - 1)
          result windowIdx = .ok next ∧
        next.Represents
          (BucketMethod.addWindow windowBits (numWindows - 1)
            (fun k =>
              (BucketMethod.aggregate (2 ^ windowBits - 1) (sums k)).2)
            total windowIdx) := by
  have size : (2 ^ windowBits - 1) * 96 ≤ 2 ^ 63 - 32 := by
    have power := Nat.pow_le_pow_right Nat.two_pos allocated
    omega
  obtain ⟨shifted, computed, shiftedRepresents⟩ :=
    shiftResult_represents windowBits profile inRange represents
  obtain ⟨weighed, aggregated, weighedRepresent⟩ :=
    aggregate_represents profile holds
  obtain ⟨next, added, nextRepresents⟩ :=
    shiftedRepresents.add profile weighedRepresent.total
  refine ⟨next, ?_, nextRepresents⟩
  rw [reduceWindow, computed, Checked.ok_bind, emptyBuckets, if_pos size,
    Checked.ok_bind, filled, Checked.ok_bind, aggregated, Checked.ok_bind,
    added]

/-- The number of windows that hold all bits of a scalar. -/
def windowCount (windowBits : Nat) : Nat :=
  (256 + windowBits - 1) / windowBits

theorem scalar_bits_le
    (positive : 1 ≤ windowBits) :
    256 ≤ windowBits * windowCount windowBits := by
  have above := Nat.lt_mul_div_succ (255 + windowBits) positive
  have padded : 256 + windowBits - 1 = 255 + windowBits := by
    omega
  rw [windowCount, padded]
  rw [Nat.mul_succ] at above
  omega

theorem offset_lt
    {windowIdx : Nat}
    (narrow : windowBits < 64)
    (inRange : windowIdx < windowCount windowBits) :
    windowIdx * windowBits < 2 ^ 64 := by
  have bounded : windowCount windowBits * windowBits ≤ 256 + windowBits - 1 :=
    Nat.div_mul_le_self _ _
  have below := Nat.mul_le_mul_right windowBits inRange.le
  omega

end Loops

/-! The whole sum. -/

section Whole

variable
  {profile : Profile}
  {scalars : List MontgomeryU256}
  {points : List AffinePoint}
  {windowBits : Nat}

/-- The windows that are left to reduce, in a build that reaches them. -/
theorem reduceWindows_eq
    (profile : Profile)
    (fill : Nat → List ProjectivePoint → Checked (List ProjectivePoint))
    (positive : 1 ≤ windowBits)
    (narrow : windowBits < 64) :
    reduceWindows profile windowBits fill =
      (List.range (windowCount windowBits)).reverse.foldlM
        (reduceWindow profile fill windowBits (windowCount windowBits)
          (2 ^ windowBits - 1))
        .identity := by
  have padded :
      add profile 64 256 windowBits = .ok (256 + windowBits) :=
    fit_of_lt (by omega)
  have divided :
      div (256 + windowBits - 1) windowBits =
        .ok (windowCount windowBits) :=
    if_neg (Nat.ne_of_gt positive)
  rw [reduceWindows, padded, Checked.ok_bind, sub_of_le (by omega),
    Checked.ok_bind, divided, Checked.ok_bind, shl_one narrow,
    Checked.ok_bind, sub_of_le Nat.one_le_two_pow, Checked.ok_bind]

/-- The result represents the windows of the buckets, combined. -/
theorem reduceWindows_combine
    {fill : Nat → List ProjectivePoint → Checked (List ProjectivePoint)}
    {sums : Nat → Nat → bn254Curve.Point}
    (profile : Profile)
    (positive : 1 ≤ windowBits)
    (allocated : windowBits ≤ 56)
    (filled :
      ∀ k < windowCount windowBits,
        ∃ buckets,
          fill k (List.replicate (2 ^ windowBits - 1) .identity) =
              .ok buckets ∧
            HoldsBuckets (2 ^ windowBits - 1) buckets (sums k)) :
    ∃ result,
      reduceWindows profile windowBits fill = .ok result ∧
        result.Represents
          (BucketMethod.combine windowBits (windowCount windowBits)
            (fun k =>
              (BucketMethod.aggregate (2 ^ windowBits - 1) (sums k)).2)) := by
  rw [reduceWindows_eq profile fill positive
    (allocated.trans_lt (by norm_num))]
  refine Checked.foldlM_relates ProjectivePoint.Represents
    (BucketMethod.addWindow windowBits (windowCount windowBits - 1) _)
    (fun k member _ _ represents => ?_) ProjectivePoint.identity_represents
  have inRange : k < windowCount windowBits :=
    List.mem_range.mp (List.mem_reverse.mp member)
  obtain ⟨buckets, isFilled, holds⟩ := filled k inRange
  exact reduceWindow_represents profile allocated isFilled holds inRange
    represents

/-- A window of 57 bits or more has too many buckets for an allocation. -/
theorem reduceWindows_overflows
    (profile : Profile)
    (fill : Nat → List ProjectivePoint → Checked (List ProjectivePoint))
    (tooWide : 56 < windowBits)
    (narrow : windowBits < 64)
    (result : ProjectivePoint) :
    reduceWindows profile windowBits fill ≠ .ok result := by
  have positive : 1 ≤ windowBits := by
    omega
  have power := Nat.pow_le_pow_right Nat.two_pos tooWide
  have tooLarge : ¬ (2 ^ windowBits - 1) * 96 ≤ 2 ^ 63 - 32 := by
    omega
  intro returned
  rw [reduceWindows_eq profile fill positive narrow] at returned
  cases windows : windowCount windowBits with
  | zero =>
      have enough := scalar_bits_le positive
      rw [windows, Nat.mul_zero] at enough
      exact absurd enough (by norm_num)
  | succ last =>
      rw [windows, List.range_succ, List.reverse_append,
        List.reverse_singleton, List.singleton_append, List.foldlM_cons,
        Checked.bind_eq_ok] at returned
      obtain ⟨next, processed, -⟩ := returned
      rw [reduceWindow, Checked.bind_eq_ok] at processed
      obtain ⟨shifted, -, processed⟩ := processed
      rw [emptyBuckets, if_neg tooLarge] at processed
      exact absurd processed nofun

/-- The result represents what the bucket method sums up. -/
theorem pippengerMsm_represents
    (profile : Profile)
    (sameLength : scalars.length = points.length)
    (onCurve : ∀ point ∈ points, point.IsOnCurve)
    (nonempty : scalars.length ≠ 0)
    (positive : 1 ≤ windowBits)
    (allocated : windowBits ≤ 56) :
    ∃ result,
      pippengerMsm profile scalars points windowBits = .ok result ∧
        result.Represents
          (BucketMethod.bucketSum windowBits (windowCount windowBits)
            (terms scalars points)) := by
  have narrow : windowBits < 64 := by
    omega
  rw [pippengerMsm_eq_reduceWindows profile sameLength nonempty]
  exact reduceWindows_combine profile positive allocated
    fun k inRange =>
      distribute_holds profile sameLength onCurve narrow
        (offset_lt narrow inRange)

/-- Buckets that cannot be allocated end the multiplication. -/
theorem pippengerMsm_overflows
    (profile : Profile)
    (sameLength : scalars.length = points.length)
    (nonempty : scalars.length ≠ 0)
    (tooWide : 56 < windowBits)
    (narrow : windowBits < 64)
    (result : ProjectivePoint) :
    pippengerMsm profile scalars points windowBits ≠ .ok result := by
  rw [pippengerMsm_eq_reduceWindows profile sameLength nonempty]
  exact reduceWindows_overflows profile _ tooWide narrow result

/-- The result is the sum of the multiples where the losses cancel. -/
theorem represents_multiples_iff
    (profile : Profile)
    (sameLength : scalars.length = points.length)
    (onCurve : ∀ point ∈ points, point.IsOnCurve)
    (nonempty : scalars.length ≠ 0)
    (positive : 1 ≤ windowBits)
    (allocated : windowBits ≤ 56) :
    (∃ result,
      pippengerMsm profile scalars points windowBits = .ok result ∧
        result.Represents
          (BucketMethod.multiples (terms scalars points))) ↔
      BucketMethod.lostSum windowBits (windowCount windowBits)
        (terms scalars points) = 0 := by
  obtain ⟨sum, computed, represents⟩ :=
    pippengerMsm_represents profile sameLength onCurve nonempty positive
      allocated
  have enough :
      ∀ term ∈ terms scalars points,
        term.1 < 2 ^ (windowBits * windowCount windowBits) :=
    fun term member =>
      (terms_small term member).trans_le
        (Nat.pow_le_pow_right Nat.two_pos (scalar_bits_le positive))
  rw [← BucketMethod.bucketSum_eq_iff enough]
  constructor
  · rintro ⟨result, returned, representsMultiples⟩
    rw [computed] at returned
    obtain rfl := Except.ok.inj returned
    exact represents.unique representsMultiples
  · intro exact
    rw [exact] at represents
    exact ⟨sum, computed, represents⟩

/--
The multi-scalar multiplication returns a representative of the sum exactly if
its buckets can be allocated and the doublings that the mixed additions lose
cancel.
-/
theorem pippengerMsm_represents_sum_iff
    (profile : Profile)
    (sameLength : scalars.length = points.length)
    (onCurve : ∀ point ∈ points, point.IsOnCurve)
    (positive : 1 ≤ windowBits)
    (narrow : windowBits ≤ 63) :
    (∃ result,
      pippengerMsm profile scalars points windowBits = .ok result ∧
        result.Represents
          (BucketMethod.multiples (terms scalars points))) ↔
      (scalars = [] ∨ windowBits ≤ 56) ∧
        BucketMethod.lostSum windowBits (windowCount windowBits)
          (terms scalars points) = 0 := by
  cases scalars with
  | nil =>
      have noPoints : points = [] :=
        List.length_eq_zero_iff.mp sameLength.symm
      subst noPoints
      have few : (terms [] []).length ≤ 1 := Nat.zero_le 1
      constructor
      · rintro -
        exact ⟨.inl rfl, BucketMethod.lostSum_of_length_le_one few _ _⟩
      · rintro -
        exact ⟨.identity, rfl, ProjectivePoint.identity_represents⟩
  | cons scalar scalars =>
      have nonempty : (scalar :: scalars).length ≠ 0 :=
        Nat.succ_ne_zero scalars.length
      by_cases allocated : windowBits ≤ 56
      · rw [represents_multiples_iff profile sameLength onCurve nonempty
          positive allocated]
        exact ⟨fun noLoss => ⟨.inr allocated, noLoss⟩, And.right⟩
      · constructor
        · rintro ⟨result, returned, -⟩
          exact absurd returned
            (pippengerMsm_overflows profile sameLength nonempty
              (Nat.not_le.mp allocated) (Nat.lt_succ_of_le narrow) result)
        · rintro ⟨isEmpty | fits, -⟩
          · exact absurd isEmpty (List.cons_ne_nil _ _)
          · exact absurd fits allocated

/-- The point (1, 2) of the curve. -/
def generatorPoint : AffinePoint where
  x := .encode 1
  y := .encode (2 : Nat)
  infinity := false

def scalarOne : MontgomeryU256 :=
  .ofWords [1, 0, 0, 0]

theorem generator_equation :
    (2 : ZMod Bn254.order) ^ 2 = 1 ^ 3 + 3 := by
  norm_num

theorem generatorPoint_point :
    generatorPoint.point =
      .some 1 2 (nonsingular_of_equation generator_equation) :=
  AffinePoint.point_of_equation generator_equation

theorem generatorPoint_onCurve : generatorPoint.IsOnCurve := by
  refine .inr ⟨MontgomeryU256.encode_canonical _,
    MontgomeryU256.encode_canonical _, ?_⟩
  rw [generatorPoint, MontgomeryU256.decode_encode,
    MontgomeryU256.decode_encode]
  exact generator_equation

/-- Once the generator is summed up rightly. -/
theorem generator_once_is_right :
    ∃ result,
      pippengerMsm .debug [scalarOne] [generatorPoint] 15 = .ok result ∧
        result.Represents
          (BucketMethod.multiples (terms [scalarOne] [generatorPoint])) :=
  (pippengerMsm_represents_sum_iff .debug rfl
    (fun _ member => List.mem_singleton.mp member ▸ generatorPoint_onCurve)
    (by decide) (by decide)).mpr
    ⟨.inr (by decide),
      BucketMethod.lostSum_of_length_le_one
        (show (terms [scalarOne] [generatorPoint]).length ≤ 1 from
          Nat.le_refl 1) _ _⟩

/-- Twice the generator falls into the same bucket, and is lost. -/
theorem generator_twice_is_lost :
    ¬ ∃ result,
      pippengerMsm .debug [scalarOne, scalarOne]
          [generatorPoint, generatorPoint] 15 = .ok result ∧
        result.Represents
          (BucketMethod.multiples
            (terms [scalarOne, scalarOne] [generatorPoint, generatorPoint])) := by
  have onCurve :
      ∀ point ∈ [generatorPoint, generatorPoint], point.IsOnCurve := by
    simpa using generatorPoint_onCurve
  have value_one : value scalarOne.limbs = 1 := rfl
  rw [represents_multiples_iff .debug rfl onCurve (by decide) (by decide)
    (by decide)]
  have sameTerms :
      terms [scalarOne, scalarOne] [generatorPoint, generatorPoint] =
        [(1, generatorPoint.point), (1, generatorPoint.point)] := by
    rw [terms, List.zip_cons_cons, List.zip_cons_cons, List.zip_nil_right,
      List.map_cons, List.map_cons, List.map_nil, value_one]
  have notOpposite :
      (2 : ZMod Bn254.order) ≠ bn254Curve.negY 1 2 := by
    rw [JacobianCoordinates.negY_eq]
    decide +kernel
  rw [sameTerms, BucketMethod.lostSum_twice (by decide) (by decide),
    generatorPoint_point,
    WeierstrassCurve.Affine.Point.add_self_of_Y_ne notOpposite]
  exact WeierstrassCurve.Affine.Point.some_ne_zero _

end Whole

end YieldDaemon
