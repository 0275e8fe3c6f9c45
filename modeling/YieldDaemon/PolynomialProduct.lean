import YieldDaemon.NttDomain

namespace YieldDaemon

open CheckedArithmetic LimbArithmetic RadixTwoTransform

/-!
# Products of polynomials

The two transforms of a domain undo each other whatever its root is.  Their
pointwise products are products of polynomials only if the highest power of
the root in the network is the sign of its butterflies, which the exponent of
the source does not give.
-/

namespace NttDomain

/-- The power of the generator that `compute_root_of_unity` returns. -/
def rootOfUnity (logN : Nat) : ZMod Bn254.order :=
  5 ^ (value expP1Div228 * 2 ^ (28 - logN))

/-- The domain with the tables of this root. -/
def built (logN : Nat) : NttDomain where
  roots := encoded (2 ^ logN) (rootOfUnity logN ^ ·)
  invRoots := encoded (2 ^ logN) ((rootOfUnity logN)⁻¹ ^ ·)
  logN := logN
  n := 2 ^ logN
  nInv := MontgomeryU256.encode ((2 ^ logN : Nat) : ZMod Bn254.order)⁻¹

variable {profile : Profile} {logN : Nat}

theorem generator_ne_zero : (5 : ZMod Bn254.order) ≠ 0 := by
  decide +kernel

theorem rootOfUnity_ne_zero (logN : Nat) : rootOfUnity logN ≠ 0 :=
  pow_ne_zero _ generator_ne_zero

theorem computeRootOfUnity_eq (inRange : logN ≤ 28) :
    computeRootOfUnity profile logN =
      .ok (MontgomeryU256.encode (rootOfUnity logN)) := by
  have squarings (root : ZMod Bn254.order) (count : Nat) :
      (List.range count).foldlM
          (fun omega _ => MontgomeryU256.montSqr profile omega)
          (MontgomeryU256.encode root) =
        .ok (MontgomeryU256.encode (root ^ 2 ^ count)) := by
    induction count with
    | zero =>
        rw [pow_zero, pow_one]
        rfl
    | succ count inductionHypothesis =>
        rw [List.range_succ, List.foldlM_append, inductionHypothesis,
          Checked.ok_bind, List.foldlM_cons, MontgomeryU256.montSqr_encode,
          Checked.ok_bind, List.foldlM_nil, Checked.pure_eq_ok, ← pow_add,
          ← Nat.mul_two, ← Nat.pow_succ]
  rw [computeRootOfUnity, if_pos inRange,
    MontgomeryU256.fromU64_eq (by norm_num), Checked.ok_bind,
    MontgomeryU256.montPow_encode (by unfold AreLimbs; decide),
    Checked.ok_bind, squarings, ← pow_mul, rootOfUnity, Nat.cast_ofNat]

/-- The domain of every admitted size is built. -/
theorem new_eq (inRange : logN ≤ 28) : new profile logN = .ok (built logN) := by
  have positive := Nat.two_pow_pos logN
  have word : 2 ^ logN < 2 ^ 64 :=
    Nat.pow_lt_pow_right (by norm_num) (by omega)
  rw [new, computeRootOfUnity_eq inRange, Checked.ok_bind,
    MontgomeryU256.montInv_encode, Checked.ok_bind,
    powerTable_encoded _ positive, Checked.ok_bind,
    powerTable_encoded _ positive, Checked.ok_bind,
    MontgomeryU256.fromU64_eq word, Checked.ok_bind,
    MontgomeryU256.montInv_encode, Checked.ok_bind]
  rfl

/-- The values of the forward transform. -/
abbrev evaluate (logN : Nat) (f : Nat → ZMod Bn254.order) :
    Nat → ZMod Bn254.order :=
  transform (twiddle (rootOfUnity logN) logN) logN f

/-- The values of the inverse transform. -/
def interpolate (logN : Nat) (f : Nat → ZMod Bn254.order) (k : Nat) :
    ZMod Bn254.order :=
  transform (twiddle (rootOfUnity logN)⁻¹ logN) logN f k *
    ((2 ^ logN : Nat) : ZMod Bn254.order)⁻¹

theorem forward_built
    (inRange : logN ≤ 28)
    (f : Nat → ZMod Bn254.order) :
    (built logN).forward profile (encoded (2 ^ logN) f) =
      .ok (encoded (2 ^ logN) (evaluate logN f)) :=
  network_encoded (built logN) (rootOfUnity logN)
    (inRange.trans (by norm_num)) rfl f

theorem inverse_built
    (inRange : logN ≤ 28)
    (f : Nat → ZMod Bn254.order) :
    (built logN).inverse profile (encoded (2 ^ logN) f) =
      .ok (encoded (2 ^ logN) (interpolate logN f)) := by
  have transformed :
      (built logN).network profile (built logN).invRoots
          (encoded (2 ^ logN) f) =
        .ok (encoded (2 ^ logN)
          (transform (twiddle (rootOfUnity logN)⁻¹ logN) logN f)) :=
    network_encoded (built logN) (rootOfUnity logN)⁻¹
      (inRange.trans (by norm_num)) rfl f
  rw [inverse, transformed, Checked.ok_bind]
  apply mapM_encoded
  intro i _
  exact MontgomeryU256.montMul_encode

/-- The roots of the two tables cancel. -/
theorem roots_inverse (logN : Nat) :
    Inverse (twiddle (rootOfUnity logN) logN)
      (twiddle (rootOfUnity logN)⁻¹ logN) logN :=
  twiddle_inverse (mul_inv_cancel₀ (rootOfUnity_ne_zero logN)) logN

theorem size_ne_zero (logN : Nat) :
    ((2 ^ logN : Nat) : ZMod Bn254.order) ≠ 0 := by
  have two : (2 : ZMod Bn254.order) ≠ 0 := by
    decide +kernel
  rw [Nat.cast_pow, Nat.cast_ofNat]
  exact pow_ne_zero logN two

theorem mul_inv_size
    {sum element : ZMod Bn254.order}
    (multiple : sum = ((2 ^ logN : Nat) : ZMod Bn254.order) * element) :
    sum * ((2 ^ logN : Nat) : ZMod Bn254.order)⁻¹ = element := by
  rw [multiple, mul_right_comm, mul_inv_cancel₀ (size_ne_zero logN), one_mul]

/-- Without its scaling an interpolation is undone up to the size. -/
theorem transforms_cancel
    (logN : Nat)
    (f : Nat → ZMod Bn254.order)
    {k : Nat}
    (inRange : k < 2 ^ logN) :
    transform (twiddle (rootOfUnity logN) logN) logN
        (transform (twiddle (rootOfUnity logN)⁻¹ logN) logN f) k =
      ((2 ^ logN : Nat) : ZMod Bn254.order) * f k := by
  rw [(roots_inverse logN).symm.transform_transform f inRange,
    Nat.cast_pow, Nat.cast_ofNat]

/-- The scaling of an interpolation comes out of the evaluation. -/
theorem evaluate_interpolate_eq
    (logN : Nat)
    (f : Nat → ZMod Bn254.order)
    (k : Nat) :
    evaluate logN (interpolate logN f) k =
      transform (twiddle (rootOfUnity logN) logN) logN
          (transform (twiddle (rootOfUnity logN)⁻¹ logN) logN f) k *
        ((2 ^ logN : Nat) : ZMod Bn254.order)⁻¹ :=
  transform_mul_right _ _ _ _ _

/-- The forward transform undoes the inverse one. -/
theorem evaluate_interpolate
    (logN : Nat)
    (f : Nat → ZMod Bn254.order)
    {k : Nat}
    (inRange : k < 2 ^ logN) :
    evaluate logN (interpolate logN f) k = f k := by
  rw [evaluate_interpolate_eq,
    mul_inv_size (transforms_cancel logN f inRange)]

/-- The interpolation of a pointwise product of evaluations. -/
def product (logN : Nat) (f g : Nat → ZMod Bn254.order) :
    Nat → ZMod Bn254.order :=
  interpolate logN (fun i => evaluate logN f i * evaluate logN g i)

/-- The pointwise product of two tables. -/
theorem zip_encoded
    (profile : Profile)
    (n : Nat)
    (f g : Nat → ZMod Bn254.order) :
    ((encoded n f).zip (encoded n g)).mapM
        (fun pair => pair.1.montMul profile pair.2) =
      .ok (encoded n (fun i => f i * g i)) := by
  rw [encoded, encoded, List.zip_map']
  apply Checked.mapM_map_eq_ok
  intro i _
  exact MontgomeryU256.montMul_encode

/-- `poly_mul` transforms both arguments and returns this product. -/
theorem polyMul_built
    (profile : Profile)
    (inRange : logN ≤ 28)
    (f g : Nat → ZMod Bn254.order) :
    (built logN).polyMul profile (encoded (2 ^ logN) f)
        (encoded (2 ^ logN) g) =
      .ok (encoded (2 ^ logN) (evaluate logN f),
        encoded (2 ^ logN) (evaluate logN g),
        encoded (2 ^ logN) (product logN f g)) := by
  have sizes :
      (encoded (2 ^ logN) f).length = (built logN).n ∧
        (encoded (2 ^ logN) g).length = (built logN).n :=
    ⟨length_encoded, length_encoded⟩
  rw [polyMul, if_pos sizes, forward_built inRange, Checked.ok_bind,
    forward_built inRange, Checked.ok_bind, zip_encoded, Checked.ok_bind,
    inverse_built inRange, Checked.ok_bind, Checked.pure_eq_ok, product]

/-- The field element at an index of a vector, or 0 outside of it. -/
def decodedAt (values : List MontgomeryU256) (i : Nat) : ZMod Bn254.order :=
  match values[i]? with
  | some value => value.decode
  | none => 0

/-- The vector has one canonical value for every index. -/
structure IsCanonicalVector (n : Nat) (values : List MontgomeryU256) : Prop where
  size : values.length = n
  canonical : ∀ value ∈ values, value.IsCanonical

/-- The product of two polynomials modulo `x ^ n - 1`. -/
def cyclicProduct (n : Nat) (f g : Nat → ZMod Bn254.order) (k : Nat) :
    ZMod Bn254.order :=
  ∑ i ∈ Finset.range n, ∑ j ∈ Finset.range n,
    if (i + j) % n = k then f i * g j else 0

/--
Building the domain and multiplying in it returns canonical values, and these
stand for the product of the polynomials.
-/
def ReturnsProduct
    (profile : Profile)
    (logN : Nat)
    (a b : List MontgomeryU256) : Prop :=
  ∃ domain a' b' c,
    new profile logN = .ok domain ∧
      domain.polyMul profile a b = .ok (a', b', c) ∧
      IsCanonicalVector (2 ^ logN) c ∧
      ∀ k, k < 2 ^ logN →
        decodedAt c k =
          cyclicProduct (2 ^ logN) (decodedAt a) (decodedAt b) k

theorem decodedAt_encoded
    {n k : Nat}
    {f : Nat → ZMod Bn254.order}
    (inRange : k < n) :
    decodedAt (encoded n f) k = f k := by
  have found : (encoded n f)[k]? = some (MontgomeryU256.encode (f k)) := by
    rw [encoded, List.getElem?_map, List.getElem?_range inRange]
    rfl
  rw [decodedAt, found]
  exact MontgomeryU256.decode_encode (f k)

theorem isCanonicalVector_encoded (n : Nat) (f : Nat → ZMod Bn254.order) :
    IsCanonicalVector n (encoded n f) where
  size := length_encoded
  canonical value member := by
    obtain ⟨i, -, rfl⟩ := List.mem_map.mp member
    exact MontgomeryU256.encode_canonical (f i)

/-- A canonical vector is the table of its field elements. -/
theorem IsCanonicalVector.eq_encoded
    {n : Nat}
    {values : List MontgomeryU256}
    (vector : IsCanonicalVector n values) :
    values = encoded n (decodedAt values) := by
  apply List.ext_getElem
  · rw [vector.size, length_encoded]
  · intro i inValues inEncoded
    have decoded : decodedAt values i = values[i].decode := by
      rw [decodedAt, List.getElem?_eq_getElem inValues]
    simp only [encoded, List.getElem_map, List.getElem_range, decoded]
    exact (MontgomeryU256.encode_decode
      (vector.canonical _ (List.getElem_mem inValues))).symm

theorem cyclicProduct_congr
    {n : Nat}
    {f f' g g' : Nat → ZMod Bn254.order}
    (sameFirst : ∀ i, i < n → f i = f' i)
    (sameSecond : ∀ i, i < n → g i = g' i)
    (k : Nat) :
    cyclicProduct n f g k = cyclicProduct n f' g' k := by
  apply Finset.sum_congr rfl
  intro i iMember
  apply Finset.sum_congr rfl
  intro j jMember
  rw [sameFirst i (Finset.mem_range.mp iMember),
    sameSecond j (Finset.mem_range.mp jMember)]

/-- What is left to compare are the two products. -/
theorem returnsProduct_iff
    (inRange : logN ≤ 28)
    (f g : Nat → ZMod Bn254.order) :
    ReturnsProduct profile logN (encoded (2 ^ logN) f)
        (encoded (2 ^ logN) g) ↔
      ∀ k, k < 2 ^ logN →
        product logN f g k = cyclicProduct (2 ^ logN) f g k := by
  have decoded (k : Nat) :
      cyclicProduct (2 ^ logN) (decodedAt (encoded (2 ^ logN) f))
          (decodedAt (encoded (2 ^ logN) g)) k =
        cyclicProduct (2 ^ logN) f g k :=
    cyclicProduct_congr (fun _ => decodedAt_encoded)
      (fun _ => decodedAt_encoded) k
  have multiplied := polyMul_built profile inRange f g
  constructor
  · rintro ⟨domain, a', b', c, isNew, returned, -, isProduct⟩ k small
    rw [new_eq inRange] at isNew
    obtain rfl := Except.ok.inj isNew
    rw [multiplied] at returned
    obtain ⟨-, -, rfl⟩ := Except.ok.inj returned
    rw [← decoded, ← isProduct k small, decodedAt_encoded small]
  · intro sameProducts
    refine ⟨_, _, _, _, new_eq inRange, multiplied,
      isCanonicalVector_encoded _ _, fun k small => ?_⟩
    rw [decodedAt_encoded small, decoded, sameProducts k small]

/-- The polynomial `x`. -/
def linear (i : Nat) : ZMod Bn254.order :=
  if i = 1 then 1 else 0

/-- Its square, where there are more than two coefficients. -/
theorem cyclicProduct_linear
    {n k : Nat}
    (large : 2 < n) :
    cyclicProduct n linear linear k = if k = 2 then 1 else 0 := by
  have inner :
      ∀ i ∈ Finset.range n,
        (∑ j ∈ Finset.range n,
          if (i + j) % n = k then linear i * linear j else 0) =
          if i = 1 then if k = 2 then 1 else 0 else 0 := by
    intro i _
    rw [Finset.sum_eq_single 1]
    · by_cases isOne : i = 1
      · subst isOne
        rw [if_pos rfl, Nat.mod_eq_of_lt large]
        simp [linear, eq_comm]
      · simp [linear, isOne]
    · intro j _ other
      simp [linear, other]
    · intro outside
      exact absurd (Finset.mem_range.mpr (by omega)) outside
  rw [cyclicProduct, Finset.sum_congr rfl inner, Finset.sum_ite_eq',
    if_pos (Finset.mem_range.mpr (by omega))]

/-- The power of the root that should be -1 is the same for every size. -/
theorem rootOfUnity_half
    (positive : 1 ≤ logN)
    (inRange : logN ≤ 28) :
    rootOfUnity logN ^ 2 ^ (logN - 1) = 5 ^ (value expP1Div228 * 2 ^ 27) := by
  have exponents : 28 - logN + (logN - 1) = 27 := by
    omega
  rw [rootOfUnity, ← pow_mul, Nat.mul_assoc, ← Nat.pow_add, exponents]

/-- It is not -1: the exponent in the source lacks a hexadecimal digit. -/
theorem generator_half_ne :
    (5 : ZMod Bn254.order) ^ (value expP1Div228 * 2 ^ 27) ≠ -1 := by
  have exponent :
      value expP1Div228 * 2 ^ 27 =
        684007589744977350695200179520482079284916832552372928161315658297050660864 := by
    norm_num [value, expP1Div228, Nat.ofDigits_cons]
  rw [exponent]
  reduce_mod_char
  decide +kernel

/--
The value of a power of `x` at the index that tells the factors of two bits
apart.
-/
theorem evaluate_power
    {t : Nat}
    (inRange : t < logN)
    (large : 2 ≤ logN) :
    evaluate logN (fun k => if k = 2 ^ t then 1 else 0) (2 ^ (logN - 2)) =
      twiddle (rootOfUnity logN) logN (t + (logN - 2)) := by
  have row :=
    transform_single (twiddle (rootOfUnity logN) logN)
      (Nat.pow_lt_pow_right Nat.one_lt_two inRange) (2 ^ (logN - 2))
  have factor :=
    kernel_two_pow (twiddle (rootOfUnity logN) logN) inRange
      (show logN - 2 < logN by omega)
  exact row.trans factor

/-- The value of `x` there is a power of the root. -/
theorem evaluate_linear
    (large : 2 ≤ logN) :
    evaluate logN linear (2 ^ (logN - 2)) =
      rootOfUnity logN ^ 2 ^ (logN - 2) := by
  have value := evaluate_power (t := 0) (by omega) large
  rw [Nat.zero_add, twiddle, if_pos (by omega)] at value
  exact value

/-- The value of `x ^ 2` there is the sign of a butterfly. -/
theorem evaluate_square
    (large : 2 ≤ logN) :
    evaluate logN (fun k => if k = 2 then 1 else 0) (2 ^ (logN - 2)) =
      -1 := by
  have value := evaluate_power (t := 1) (by omega) large
  rw [twiddle_top _ _ _ (by omega)] at value
  exact value

/-- With four coefficients or more the square of `x` is wrong. -/
theorem square_of_linear_is_wrong
    (profile : Profile)
    (large : 2 ≤ logN)
    (inRange : logN ≤ 28) :
    ¬ ReturnsProduct profile logN (encoded (2 ^ logN) linear)
        (encoded (2 ^ logN) linear) := by
  have fourValues : 2 ^ 2 ≤ 2 ^ logN :=
    Nat.pow_le_pow_right Nat.two_pos large
  have small : 2 ^ (logN - 2) < 2 ^ logN :=
    Nat.pow_lt_pow_right Nat.one_lt_two (by omega)
  intro returns
  rw [returnsProduct_iff inRange] at returns
  -- Evaluating the result gives the square of the values of `x` again.
  have squared :
      evaluate logN (product logN linear linear) (2 ^ (logN - 2)) =
        evaluate logN linear (2 ^ (logN - 2)) *
          evaluate logN linear (2 ^ (logN - 2)) :=
    evaluate_interpolate logN _ small
  have isSquare :
      evaluate logN (product logN linear linear) (2 ^ (logN - 2)) =
        evaluate logN (fun k => if k = 2 then 1 else 0) (2 ^ (logN - 2)) := by
    apply transform_congr
    intro k kSmall
    rw [returns k kSmall, cyclicProduct_linear (by omega)]
  have halves : 2 ^ (logN - 2) + 2 ^ (logN - 2) = 2 ^ (logN - 1) := by
    rw [← Nat.two_mul, ← Nat.pow_succ']
    congr 1
    omega
  rw [isSquare, evaluate_square large, evaluate_linear large, ← pow_add,
    halves, rootOfUnity_half (by omega) inRange] at squared
  exact generator_half_ne squared.symm

/-! What is missing of a product. -/

/-- What the values of `x ^ i` and `x ^ j` miss of those of `x ^ (i + j)`. -/
def defect (logN i j k : Nat) : ZMod Bn254.order :=
  kernel (twiddle (rootOfUnity logN) logN) logN i k *
      kernel (twiddle (rootOfUnity logN) logN) logN j k -
    kernel (twiddle (rootOfUnity logN) logN) logN ((i + j) % 2 ^ logN) k

/-- The defects of all pairs of coefficients cancel at every index. -/
def DefectsCancel (logN : Nat) (f g : Nat → ZMod Bn254.order) : Prop :=
  ∀ k, k < 2 ^ logN →
    ∑ i ∈ Finset.range (2 ^ logN), ∑ j ∈ Finset.range (2 ^ logN),
      f i * g j * defect logN i j k = 0

/-- The values of a cyclic product, pair by pair of coefficients. -/
theorem evaluate_cyclicProduct
    (logN : Nat)
    (f g : Nat → ZMod Bn254.order)
    (k : Nat) :
    evaluate logN (cyclicProduct (2 ^ logN) f g) k =
      ∑ i ∈ Finset.range (2 ^ logN), ∑ j ∈ Finset.range (2 ^ logN),
        f i * g j *
          kernel (twiddle (rootOfUnity logN) logN) logN
            ((i + j) % 2 ^ logN) k := by
  have single (i j : Nat) :
      ∑ l ∈ Finset.range (2 ^ logN),
          (if (i + j) % 2 ^ logN = l then f i * g j else 0) *
            kernel (twiddle (rootOfUnity logN) logN) logN l k =
        f i * g j *
          kernel (twiddle (rootOfUnity logN) logN) logN
            ((i + j) % 2 ^ logN) k := by
    simp only [ite_mul, zero_mul]
    rw [Finset.sum_ite_eq, if_pos
      (Finset.mem_range.mpr (Nat.mod_lt _ (Nat.two_pow_pos logN)))]
  simp only [evaluate, transform, cyclicProduct, Finset.sum_mul]
  rw [Finset.sum_comm]
  apply Finset.sum_congr rfl
  intro i _
  rw [Finset.sum_comm]
  exact Finset.sum_congr rfl (fun j _ => single i j)

/-- The defects are the values that the pointwise product has too much. -/
theorem sum_defects
    (logN : Nat)
    (f g : Nat → ZMod Bn254.order)
    (k : Nat) :
    ∑ i ∈ Finset.range (2 ^ logN), ∑ j ∈ Finset.range (2 ^ logN),
        f i * g j * defect logN i j k =
      evaluate logN f k * evaluate logN g k -
        evaluate logN (cyclicProduct (2 ^ logN) f g) k := by
  rw [evaluate_cyclicProduct, evaluate, evaluate, transform, transform,
    Finset.sum_mul_sum, ← Finset.sum_sub_distrib]
  apply Finset.sum_congr rfl
  intro i _
  rw [← Finset.sum_sub_distrib]
  apply Finset.sum_congr rfl
  intro j _
  rw [defect]
  ring

/-- The inverse transform undoes the forward one. -/
theorem interpolate_evaluate
    (logN : Nat)
    (f : Nat → ZMod Bn254.order)
    {k : Nat}
    (inRange : k < 2 ^ logN) :
    interpolate logN (evaluate logN f) k = f k := by
  have cancelled := (roots_inverse logN).transform_transform f inRange
  rw [interpolate, mul_inv_size]
  rw [cancelled, Nat.cast_pow, Nat.cast_ofNat]

/-- The product is right where the defects cancel, and only there. -/
theorem product_eq_iff
    (logN : Nat)
    (f g : Nat → ZMod Bn254.order) :
    (∀ k, k < 2 ^ logN →
        product logN f g k = cyclicProduct (2 ^ logN) f g k) ↔
      DefectsCancel logN f g := by
  constructor
  · intro sameProducts k inRange
    have sameValues :
        evaluate logN (product logN f g) k =
          evaluate logN (cyclicProduct (2 ^ logN) f g) k :=
      transform_congr sameProducts k
    rw [sum_defects, ← sameValues, product,
      evaluate_interpolate logN _ inRange, sub_self]
  · intro cancel k inRange
    have sameValues :
        ∀ i, i < 2 ^ logN →
          evaluate logN f i * evaluate logN g i =
            evaluate logN (cyclicProduct (2 ^ logN) f g) i := by
      intro i small
      have noDefect := cancel i small
      rw [sum_defects] at noDefect
      exact sub_eq_zero.mp noDefect
    rw [← interpolate_evaluate logN (cyclicProduct (2 ^ logN) f g) inRange,
      product, interpolate, interpolate, transform_congr sameValues]

/-- With one or two coefficients no power of the root is used. -/
theorem defect_eq_zero
    (small : logN ≤ 1)
    {i j : Nat}
    (iInRange : i < 2 ^ logN)
    (jInRange : j < 2 ^ logN)
    (k : Nat) :
    defect logN i j k = 0 := by
  cases logN with
  | zero =>
      simp [defect, kernel, bitProduct]
  | succ logN =>
      obtain rfl : logN = 0 := Nat.le_zero.mp (Nat.le_of_succ_le_succ small)
      have sign (t : Nat) :
          kernel (twiddle (rootOfUnity 1) 1) 1 t k =
            if t.testBit 0 ∧ k.testBit 0 then -1 else 1 := by
        simp only [kernel, bitProduct, Finset.prod_range_one,
          twiddle_top _ 1 0 rfl, ← ite_and]
      rw [Nat.zero_add, pow_one] at iInRange jInRange
      rw [Nat.zero_add, defect, sign, sign, sign]
      interval_cases i <;> interval_cases j <;>
        cases k.testBit 0 <;> simp

/--
For canonical vectors the result is the product exactly if the defects of
their coefficients cancel.  For all vectors of a size they do exactly if the
size is one or two.
-/
theorem polyMul_returns_product_iff
    (profile : Profile)
    (inRange : logN ≤ 28) :
    (∀ a b, IsCanonicalVector (2 ^ logN) a → IsCanonicalVector (2 ^ logN) b →
        (ReturnsProduct profile logN a b ↔
          DefectsCancel logN (decodedAt a) (decodedAt b))) ∧
      ((∀ a b, IsCanonicalVector (2 ^ logN) a →
          IsCanonicalVector (2 ^ logN) b → ReturnsProduct profile logN a b) ↔
        logN ≤ 1) := by
  have exact :
      ∀ a b, IsCanonicalVector (2 ^ logN) a →
        IsCanonicalVector (2 ^ logN) b →
        (ReturnsProduct profile logN a b ↔
          DefectsCancel logN (decodedAt a) (decodedAt b)) := by
    intro a b first second
    calc
      ReturnsProduct profile logN a b ↔
          ReturnsProduct profile logN (encoded (2 ^ logN) (decodedAt a))
            (encoded (2 ^ logN) (decodedAt b)) := by
        rw [← first.eq_encoded, ← second.eq_encoded]
      _ ↔ _ := returnsProduct_iff inRange _ _
      _ ↔ _ := product_eq_iff logN _ _
  refine ⟨exact, fun all => ?_, fun small a b first second => ?_⟩
  · by_contra large
    exact square_of_linear_is_wrong profile (Nat.not_le.mp large) inRange
      (all _ _ (isCanonicalVector_encoded _ _)
        (isCanonicalVector_encoded _ _))
  · rw [exact a b first second]
    intro k _
    apply Finset.sum_eq_zero
    intro i iMember
    apply Finset.sum_eq_zero
    intro j jMember
    rw [defect_eq_zero small (Finset.mem_range.mp iMember)
      (Finset.mem_range.mp jMember), mul_zero]

/-- With two coefficients every product is right. -/
theorem two_coefficients_are_right :
    (1 ≤ 28) ∧
      ∀ a b, IsCanonicalVector (2 ^ 1) a → IsCanonicalVector (2 ^ 1) b →
        ReturnsProduct .debug 1 a b :=
  ⟨by decide,
    (polyMul_returns_product_iff .debug (by decide)).2.mpr (by decide)⟩

/-- With four coefficients the square of `x` is not `x ^ 2`. -/
theorem square_of_x_is_not_x_squared :
    IsCanonicalVector (2 ^ 2) [.zero, .one, .zero, .zero] ∧
      ¬ ReturnsProduct .debug 2 [.zero, .one, .zero, .zero]
        [.zero, .one, .zero, .zero] := by
  have vector :
      [MontgomeryU256.zero, .one, .zero, .zero] =
        encoded (2 ^ 2) linear := by
    rw [MontgomeryU256.zero_eq, MontgomeryU256.one_eq]
    rfl
  rw [vector]
  exact ⟨isCanonicalVector_encoded _ _,
    square_of_linear_is_wrong .debug (by decide) (by decide)⟩

/--
On every domain that is built the transforms undo each other, in both orders
and limb for limb.
-/
theorem transforms_round_trip
    (profile : Profile)
    (inRange : logN ≤ 28)
    {values : List MontgomeryU256}
    (vector : IsCanonicalVector (2 ^ logN) values) :
    ∃ domain,
      new profile logN = .ok domain ∧
        (∃ transformed,
          domain.forward profile values = .ok transformed ∧
            domain.inverse profile transformed = .ok values) ∧
        ∃ transformed,
          domain.inverse profile values = .ok transformed ∧
            domain.forward profile transformed = .ok values := by
  refine ⟨built logN, new_eq inRange, ?_, ?_⟩
  · refine ⟨encoded (2 ^ logN) (evaluate logN (decodedAt values)), ?_, ?_⟩
    · rw [vector.eq_encoded, forward_built inRange, ← vector.eq_encoded]
    · rw [inverse_built inRange]
      conv_rhs => rw [vector.eq_encoded]
      exact congrArg Except.ok
        (encoded_congr (fun _ => interpolate_evaluate logN _))
  · refine ⟨encoded (2 ^ logN) (interpolate logN (decodedAt values)), ?_, ?_⟩
    · rw [vector.eq_encoded, inverse_built inRange, ← vector.eq_encoded]
    · rw [forward_built inRange]
      conv_rhs => rw [vector.eq_encoded]
      exact congrArg Except.ok
        (encoded_congr (fun _ => evaluate_interpolate logN _))

/-- The polynomial `x` with four coefficients, for instance. -/
theorem linear_round_trip :
    ∃ domain,
      new .debug 2 = .ok domain ∧
        (∃ transformed,
          domain.forward .debug (encoded (2 ^ 2) linear) = .ok transformed ∧
            domain.inverse .debug transformed =
              .ok (encoded (2 ^ 2) linear)) ∧
        ∃ transformed,
          domain.inverse .debug (encoded (2 ^ 2) linear) = .ok transformed ∧
            domain.forward .debug transformed =
              .ok (encoded (2 ^ 2) linear) :=
  transforms_round_trip .debug (by decide) (isCanonicalVector_encoded _ _)

/-- The table of roots holds the canonical powers of a field element. -/
structure HoldsPowers
    (domain : NttDomain)
    (omega : ZMod Bn254.order) : Prop where
  size : domain.n = 2 ^ domain.logN
  roots : IsCanonicalVector domain.n domain.roots
  powers : ∀ i, i < domain.n → decodedAt domain.roots i = omega ^ i

theorem HoldsPowers.roots_eq
    {domain : NttDomain}
    {omega : ZMod Bn254.order}
    (holds : domain.HoldsPowers omega) :
    domain.roots = encoded domain.n (omega ^ ·) :=
  holds.roots.eq_encoded.trans (encoded_congr holds.powers)

/--
On a domain of a root of unity whose half is the sign, the forward transform
evaluates a polynomial at the powers of the root, in their order.
-/
theorem forward_evaluates
    {domain : NttDomain}
    {omega : ZMod Bn254.order}
    {a : List MontgomeryU256}
    (profile : Profile)
    (inRange : domain.logN ≤ 28)
    (holds : domain.HoldsPowers omega)
    (unit : omega ^ domain.n = 1)
    (half : 2 ≤ domain.n → omega ^ (domain.n / 2) = -1)
    (vector : IsCanonicalVector domain.n a) :
    ∃ values,
      domain.forward profile a = .ok values ∧
        IsCanonicalVector domain.n values ∧
        ∀ k, k < domain.n →
          decodedAt values k =
            ∑ j ∈ Finset.range domain.n, decodedAt a j * omega ^ (j * k) := by
  have few : domain.logN ≤ 32 := inRange.trans (by norm_num)
  have halfPower :
      0 < domain.logN → omega ^ 2 ^ (domain.logN - 1) = -1 := by
    intro positive
    have twice : domain.n = 2 * 2 ^ (domain.logN - 1) := by
      rw [holds.size, ← Nat.pow_succ', Nat.succ_eq_add_one,
        Nat.sub_add_cancel positive]
    have some := Nat.two_pow_pos (domain.logN - 1)
    rw [← half (by omega), twice, Nat.mul_div_cancel_left _ Nat.two_pos]
  refine ⟨encoded domain.n
    (transform (twiddle omega domain.logN) domain.logN (decodedAt a)), ?_,
    isCanonicalVector_encoded _ _, fun k small => ?_⟩
  · rw [forward, holds.roots_eq, vector.eq_encoded,
      network_encoded domain omega few holds.size, ← vector.eq_encoded]
  · rw [decodedAt_encoded small]
    rw [holds.size] at unit small ⊢
    exact transform_root unit halfPower _ small

/-- The domain of size 2, whose root is the sign. -/
def signDomain : NttDomain where
  roots := encoded 2 ((-1) ^ ·)
  invRoots := encoded 2 ((-1) ^ ·)
  logN := 1
  n := 2
  nInv := MontgomeryU256.encode ((2 : Nat) : ZMod Bn254.order)⁻¹

/-- The polynomial `x` is evaluated at 1 and -1, for instance. -/
theorem linear_is_evaluated :
    ∃ values,
      signDomain.forward .debug (encoded 2 linear) = .ok values ∧
        IsCanonicalVector 2 values ∧
        ∀ k, k < 2 →
          decodedAt values k =
            ∑ j ∈ Finset.range 2,
              decodedAt (encoded 2 linear) j * (-1) ^ (j * k) := by
  have holds : signDomain.HoldsPowers (-1) :=
    { size := rfl
      roots := isCanonicalVector_encoded 2 _
      powers := fun _ => decodedAt_encoded }
  exact forward_evaluates .debug (by decide) holds (neg_one_sq)
    (fun _ => pow_one (-1)) (isCanonicalVector_encoded 2 linear)

end NttDomain

end YieldDaemon
