import Mathlib.Algebra.BigOperators.Intervals
import Mathlib.Data.Nat.Bitwise
import Mathlib.Tactic

namespace RadixTwoTransform

/-!
# Radix-2 transforms in place

A transform of `2 ^ m` values permutes them by bit reversal and then combines
them in `m` stages of butterflies.  Its kernel is a product over the pairs of
bits of the two indices.  The kernels of two transforms with inverse twiddle
factors are orthogonal, whether or not the factors come from a root of unity:
the highest one is the sign of the butterfly and has to be -1 only.
-/

variable {R : Type} [CommRing R]

section Swaps

variable {Value : Type}

/-- Exchange the values at two indices. -/
def swapAt (i j : Nat) (f : Nat → Value) : Nat → Value :=
  Function.update (Function.update f i (f j)) j (f i)

/-- Swap every index with its partner when the partner is larger. -/
def permute (partner : Nat → Nat) (n : Nat) (f : Nat → Value) : Nat → Value :=
  (List.range n).foldl
    (fun f i => if i < partner i then swapAt i (partner i) f else f) f

variable {partner : Nat → Nat} {n : Nat}

/-- After the first swaps the pairs with an index among them are exchanged. -/
theorem permute_range
    (involutive : ∀ i, i < n → partner (partner i) = i)
    (inside : ∀ i, i < n → partner i < n)
    (f : Nat → Value)
    {done : Nat}
    (enough : done ≤ n)
    {k : Nat}
    (inRange : k < n) :
    permute partner done f k =
      if k < done ∨ partner k < done then f (partner k) else f k := by
  induction done generalizing k with
  | zero =>
      simp [permute]
  | succ done inductionHypothesis =>
      have earlier {k : Nat} (inRange : k < n) :=
        inductionHypothesis (Nat.le_of_succ_le enough) inRange
      have doneInside : done < n := enough
      have partnerInside := inside done doneInside
      have back := involutive done doneInside
      rw [permute, List.range_succ, List.foldl_append, List.foldl_cons,
        List.foldl_nil]
      change (if done < partner done then
        swapAt done (partner done) (permute partner done f)
        else permute partner done f) k = _
      by_cases isDone : k = done
      · subst isDone
        by_cases larger : k < partner k
        · rw [if_pos larger, swapAt,
            Function.update_of_ne (Nat.ne_of_lt larger),
            Function.update_self, earlier partnerInside, back,
            if_neg (by omega), if_pos (by omega)]
        · rw [if_neg larger, earlier inRange,
            if_pos (show k < k + 1 ∨ partner k < k + 1 by omega)]
          by_cases fixed : partner k = k
          · rw [fixed, ite_self]
          · rw [if_pos (by omega)]
      · by_cases isPartner : k = partner done
        · subst isPartner
          rw [back]
          by_cases larger : done < partner done
          · rw [if_pos larger, swapAt, Function.update_self,
              earlier doneInside, if_neg (by omega), if_pos (by omega)]
          · rw [if_neg larger, earlier inRange, back, if_pos (by omega),
              if_pos (by omega)]
        · have otherPartner : partner k ≠ done := by
            rintro rfl
            exact isPartner (involutive k inRange).symm
          have sameCondition :
              (k < done + 1 ∨ partner k < done + 1) ↔
                (k < done ∨ partner k < done) := by
            omega
          simp only [sameCondition]
          rw [← earlier inRange]
          split
          · rw [swapAt, Function.update_of_ne isPartner,
              Function.update_of_ne isDone]
          · rfl

theorem permute_apply
    (involutive : ∀ i, i < n → partner (partner i) = i)
    (inside : ∀ i, i < n → partner i < n)
    (f : Nat → Value)
    {k : Nat}
    (inRange : k < n) :
    permute partner n f k = f (partner k) := by
  rw [permute_range involutive inside f (Nat.le_refl n) inRange,
    if_pos (.inl inRange)]

end Swaps

/-- Combine two values, the second one times a twiddle factor. -/
def butterfly (w : R) (lo hi : Nat) (f : Nat → R) : Nat → R :=
  Function.update (Function.update f lo (f lo + f hi * w)) hi
    (f lo - f hi * w)

/-- The butterflies of one block. -/
def block (w : Nat → R) (half start : Nat) (f : Nat → R) : Nat → R :=
  (List.range half).foldl
    (fun f j => butterfly (w j) (start + j) (start + j + half) f) f

/-- The butterflies of all blocks. -/
def stage (w : Nat → R) (half blocks : Nat) (f : Nat → R) : Nat → R :=
  (List.range blocks).foldl (fun f q => block w half (2 * half * q) f) f

/-- The value that a stage computes at an index, of the values before it. -/
def combined (w : Nat → R) (half : Nat) (f : Nat → R) (x : Nat) : R :=
  if x % (2 * half) < half then
    f x + f (x + half) * w (x % (2 * half))
  else
    f (x - half) - f x * w (x % (2 * half) - half)

/-- A stage uses its twiddle factors below the length of a half block. -/
theorem stage_congr
    {w w' : Nat → R}
    {half : Nat}
    (same : ∀ j, j < half → w j = w' j)
    (blocks : Nat)
    (f : Nat → R) :
    stage w half blocks f = stage w' half blocks f := by
  have sameBlock (start : Nat) (f : Nat → R) :
      block w half start f = block w' half start f := by
    apply List.foldl_ext
    intro f j member
    rw [same j (List.mem_range.mp member)]
  simp only [stage, sameBlock]

theorem eq_add_iff
    {size q r x : Nat}
    (small : r < size) :
    x = size * q + r ↔ x / size = q ∧ x % size = r := by
  constructor
  · rintro rfl
    rw [Nat.mul_add_mod, Nat.mod_eq_of_lt small,
      Nat.mul_add_div (Nat.zero_lt_of_lt small), Nat.div_eq_of_lt small]
    exact ⟨rfl, rfl⟩
  · rintro ⟨rfl, rfl⟩
    exact (Nat.div_add_mod x size).symm

/-- The first butterflies of a block leave the other indices alone. -/
theorem block_range
    (w : Nat → R)
    (half q : Nat)
    (f : Nat → R)
    {done : Nat}
    (enough : done ≤ half)
    (x : Nat) :
    (List.range done).foldl
        (fun f j =>
          butterfly (w j) (2 * half * q + j) (2 * half * q + j + half) f)
        f x =
      if x / (2 * half) = q ∧
          (x % (2 * half) < done ∨
            half ≤ x % (2 * half) ∧ x % (2 * half) < half + done) then
        combined w half f x
      else
        f x := by
  induction done generalizing x with
  | zero =>
      rw [List.range_zero, List.foldl_nil, if_neg (by omega)]
  | succ done inductionHypothesis =>
      have earlier := inductionHypothesis (Nat.le_of_succ_le enough)
      rw [List.range_succ, List.foldl_append, List.foldl_cons,
        List.foldl_nil]
      generalize (List.range done).foldl _ f = g at earlier ⊢
      have loSplit :=
        (eq_add_iff (x := 2 * half * q + done)
          (show done < 2 * half by omega)).mp rfl
      have hiShape :
          2 * half * q + done + half = 2 * half * q + (done + half) :=
        Nat.add_assoc _ _ _
      have hiSplit :=
        (eq_add_iff (x := 2 * half * q + done + half)
          (show done + half < 2 * half by omega)).mp hiShape
      have atLo : g (2 * half * q + done) = f (2 * half * q + done) := by
        rw [earlier, loSplit.1, loSplit.2, if_neg (by omega)]
      have atHi :
          g (2 * half * q + done + half) =
            f (2 * half * q + done + half) := by
        rw [earlier, hiSplit.1, hiSplit.2, if_neg (by omega)]
      rw [butterfly, atLo, atHi]
      by_cases isHi : x = 2 * half * q + done + half
      · subst isHi
        rw [Function.update_self, hiSplit.1, hiSplit.2, if_pos (by omega),
          combined, hiSplit.2, if_neg (by omega), Nat.add_sub_cancel,
          Nat.add_sub_cancel]
      · rw [Function.update_of_ne isHi]
        by_cases isLo : x = 2 * half * q + done
        · subst isLo
          rw [Function.update_self, loSplit.1, loSplit.2,
            if_pos (by omega), combined, loSplit.2, if_pos (by omega)]
        · rw [Function.update_of_ne isLo, earlier]
          have notHi : ¬ (x / (2 * half) = q ∧ x % (2 * half) = done + half) :=
            fun split => isHi (((eq_add_iff (by omega)).mpr split).trans
              hiShape.symm)
          have notLo : ¬ (x / (2 * half) = q ∧ x % (2 * half) = done) :=
            fun split => isLo ((eq_add_iff (by omega)).mpr split)
          congr 1
          apply propext
          omega

/-- A butterfly reads values of its own block only. -/
theorem combined_congr
    (w : Nat → R)
    {half : Nat}
    (positive : 0 < half)
    {f g : Nat → R}
    {x : Nat}
    (same : ∀ y, y / (2 * half) = x / (2 * half) → g y = f y) :
    combined w half g x = combined w half f x := by
  have split := (Nat.div_add_mod x (2 * half)).symm
  have low := Nat.mod_lt x (show 0 < 2 * half by omega)
  rw [combined, combined, same x rfl]
  by_cases lower : x % (2 * half) < half
  · rw [if_pos lower, if_pos lower, same (x + half)]
    refine ((eq_add_iff (r := x % (2 * half) + half) (by omega)).mp ?_).1
    omega
  · rw [if_neg lower, if_neg lower, same (x - half)]
    refine ((eq_add_iff (r := x % (2 * half) - half) (by omega)).mp ?_).1
    omega

/-- A stage combines the values at every index of its blocks. -/
theorem stage_apply
    (w : Nat → R)
    {half blocks : Nat}
    (positive : 0 < half)
    (f : Nat → R)
    {x : Nat}
    (inRange : x < 2 * half * blocks) :
    stage w half blocks f x = combined w half f x := by
  have partway (done x : Nat) :
      stage w half done f x =
        if x / (2 * half) < done then combined w half f x else f x := by
    induction done generalizing x with
    | zero =>
        rw [if_neg (Nat.not_lt_zero _)]
        rfl
    | succ done inductionHypothesis =>
        have low := Nat.mod_lt x (show 0 < 2 * half by omega)
        rw [stage, List.range_succ, List.foldl_append, List.foldl_cons,
          List.foldl_nil, ← stage, block,
          block_range w half done _ (Nat.le_refl half)]
        by_cases isDone : x / (2 * half) = done
        · rw [if_pos (by omega), if_pos (by omega)]
          apply combined_congr w positive
          intro y sameBlock
          rw [inductionHypothesis, if_neg (by omega)]
        · rw [if_neg (fun inBlock => isDone inBlock.1), inductionHypothesis]
          congr 1
          apply propext
          omega
  rw [partway, if_pos (Nat.div_lt_of_lt_mul inRange)]

/-- The product of the factors of the set bits of a number. -/
def bitProduct (factor : Nat → R) (bits k : Nat) : R :=
  ∏ s ∈ Finset.range bits, if k.testBit s then factor s else 1

/-- The product of the factors of all pairs of set bits. -/
def kernel (c : Nat → R) (m i k : Nat) : R :=
  bitProduct (fun t => bitProduct (fun s => c (t + s)) m k) m i

/-- The values of a transform with the given kernel. -/
def transform (c : Nat → R) (m : Nat) (f : Nat → R) (k : Nat) : R :=
  ∑ i ∈ Finset.range (2 ^ m), f i * kernel c m i k

/-- A common factor of the values is a factor of the transform. -/
theorem transform_mul_right
    (c : Nat → R)
    (m : Nat)
    (f : Nat → R)
    (x : R)
    (k : Nat) :
    transform c m (fun i => f i * x) k = transform c m f k * x := by
  rw [transform, transform, Finset.sum_mul]
  apply Finset.sum_congr rfl
  intro i _
  rw [mul_right_comm]

/-- A single value is transformed into its row of the kernel. -/
theorem transform_single
    (c : Nat → R)
    {m i : Nat}
    (inRange : i < 2 ^ m)
    (k : Nat) :
    transform c m (fun j => if j = i then 1 else 0) k = kernel c m i k := by
  rw [transform]
  simp only [ite_mul, one_mul, zero_mul]
  rw [Finset.sum_ite_eq', if_pos (Finset.mem_range.mpr inRange)]

/-- A transform depends on the values in its range only. -/
theorem transform_congr
    {c f g : Nat → R}
    {m : Nat}
    (same : ∀ i, i < 2 ^ m → f i = g i)
    (k : Nat) :
    transform c m f k = transform c m g k := by
  apply Finset.sum_congr rfl
  intro i member
  rw [same i (Finset.mem_range.mp member)]

theorem bitProduct_succ (factor : Nat → R) (bits k : Nat) :
    bitProduct factor (bits + 1) k =
      bitProduct factor bits k * if k.testBit bits then factor bits else 1 :=
  Finset.prod_range_succ _ _

theorem bitProduct_two_pow
    (factor : Nat → R)
    {bits s : Nat}
    (inRange : s < bits) :
    bitProduct factor bits (2 ^ s) = factor s := by
  rw [bitProduct, Finset.prod_eq_single s]
  · rw [Nat.testBit_two_pow_self, if_pos rfl]
  · intro other _ different
    rw [Nat.testBit_two_pow_of_ne different.symm]
    simp
  · intro outside
    exact absurd (Finset.mem_range.mpr inRange) outside

/-- The kernel at two powers of two is a single factor. -/
theorem kernel_two_pow
    (c : Nat → R)
    {m t s : Nat}
    (tInRange : t < m)
    (sInRange : s < m) :
    kernel c m (2 ^ t) (2 ^ s) = c (t + s) := by
  rw [kernel, bitProduct_two_pow _ tInRange, bitProduct_two_pow _ sInRange]

/-- A product depends on its factors and the lowest bits only. -/
theorem bitProduct_congr
    {factor factor' : Nat → R}
    {bits k k' : Nat}
    (sameFactors : ∀ s, s < bits → factor s = factor' s)
    (sameBits : k % 2 ^ bits = k' % 2 ^ bits) :
    bitProduct factor bits k = bitProduct factor' bits k' := by
  apply Finset.prod_congr rfl
  intro s member
  have inRange := Finset.mem_range.mp member
  have sameBit := congrArg (·.testBit s) sameBits
  simp only [Nat.testBit_mod_two_pow, inRange, decide_true, Bool.true_and]
    at sameBit
  rw [sameBit, sameFactors s inRange]

/-- The product of two factors of the same bits. -/
theorem bitProduct_mul (factor factor' : Nat → R) (bits k : Nat) :
    bitProduct factor bits k * bitProduct factor' bits k =
      bitProduct (fun s => factor s * factor' s) bits k := by
  rw [bitProduct, bitProduct, ← Finset.prod_mul_distrib]
  apply Finset.prod_congr rfl
  intro s _
  by_cases set : k.testBit s
  · simp [set]
  · simp [set]

/-- A power by a number is the product of the powers by its set bits. -/
theorem pow_eq_bitProduct
    (x : R)
    {bits k : Nat}
    (small : k < 2 ^ bits) :
    x ^ k = bitProduct (fun s => x ^ 2 ^ s) bits k := by
  have lowBits (bits : Nat) :
      x ^ (k % 2 ^ bits) = bitProduct (fun s => x ^ 2 ^ s) bits k := by
    induction bits with
    | zero =>
        simp [Nat.mod_one, bitProduct]
    | succ bits inductionHypothesis =>
        rw [bitProduct_succ, ← inductionHypothesis, Nat.mod_pow_succ,
          pow_add, Nat.testBit_eq_decide_div_mod_eq]
        rcases Nat.mod_two_eq_zero_or_one (k / 2 ^ bits) with zero | one
        · rw [zero]
          simp
        · rw [one]
          simp
  rw [← lowBits, Nat.mod_eq_of_lt small]

/-- The sum over all numbers of a width factors into its bits. -/
theorem sum_bitProduct (factor : Nat → R) (bits : Nat) :
    ∑ k ∈ Finset.range (2 ^ bits), bitProduct factor bits k =
      ∏ s ∈ Finset.range bits, (1 + factor s) := by
  induction bits with
  | zero =>
      simp [bitProduct]
  | succ bits inductionHypothesis =>
      have low :
          ∀ k ∈ Finset.range (2 ^ bits),
            bitProduct factor (bits + 1) k = bitProduct factor bits k := by
        intro k member
        rw [bitProduct_succ,
          Nat.testBit_lt_two_pow (Finset.mem_range.mp member)]
        simp
      have high :
          ∀ k ∈ Finset.range (2 ^ bits),
            bitProduct factor (bits + 1) (2 ^ bits + k) =
              bitProduct factor bits k * factor bits := by
        intro k member
        rw [bitProduct_succ, Nat.testBit_two_pow_add_eq,
          Nat.testBit_lt_two_pow (Finset.mem_range.mp member)]
        rw [bitProduct_congr (fun _ _ => rfl)
          (Nat.add_mod_left (2 ^ bits) k)]
        simp
      rw [Nat.pow_succ, Nat.mul_two, Finset.sum_range_add,
        Finset.sum_congr rfl low, Finset.sum_congr rfl high,
        ← Finset.sum_mul, inductionHypothesis, Finset.prod_range_succ]
      ring

theorem kernel_comm (c : Nat → R) (m i k : Nat) :
    kernel c m i k = kernel c m k i := by
  have expand (i k : Nat) :
      kernel c m i k =
        ∏ t ∈ Finset.range m, ∏ s ∈ Finset.range m,
          if i.testBit t ∧ k.testBit s then c (t + s) else 1 := by
    rw [kernel, bitProduct]
    apply Finset.prod_congr rfl
    intro t _
    by_cases set : i.testBit t
    · simp [set, bitProduct]
    · simp [set]
  rw [expand, expand, Finset.prod_comm]
  simp only [and_comm, Nat.add_comm]

/-- Twiddle factors that cancel, with the sign of a butterfly at the top. -/
structure Inverse (c c' : Nat → R) (m : Nat) : Prop where
  cancel : ∀ r, c r * c' r = 1
  top : ∀ r, r + 1 = m → c r = -1
  top' : ∀ r, r + 1 = m → c' r = -1
  beyond : ∀ r, m ≤ r → c r = 1
  beyond' : ∀ r, m ≤ r → c' r = 1

namespace Inverse

variable {c c' : Nat → R} {m : Nat}

theorem symm (inverse : Inverse c c' m) : Inverse c' c m where
  cancel r := (mul_comm _ _).trans (inverse.cancel r)
  top := inverse.top'
  top' := inverse.top
  beyond := inverse.beyond'
  beyond' := inverse.beyond

/-- The factors of one bit of an index cancel for equal indices. -/
theorem factors_eq_one
    (inverse : Inverse c c' m)
    (i s : Nat) :
    bitProduct (fun t => c (s + t)) m i *
        bitProduct (fun t => c' (s + t)) m i = 1 := by
  rw [bitProduct_mul]
  apply Finset.prod_eq_one
  intro t _
  dsimp only
  rw [inverse.cancel, ite_self]

/-- At the mirror of the lowest different bit they are the opposite. -/
theorem factors_eq_neg_one
    (inverse : Inverse c c' m)
    {i j u : Nat}
    (inRange : u < m)
    (different : i.testBit u ≠ j.testBit u)
    (lowest : ∀ t, t < u → i.testBit t = j.testBit t) :
    bitProduct (fun t => c (m - 1 - u + t)) m i *
        bitProduct (fun t => c' (m - 1 - u + t)) m j = -1 := by
  rw [bitProduct, bitProduct, ← Finset.prod_mul_distrib,
    Finset.prod_eq_single u]
  · have isTop : m - 1 - u + u + 1 = m := by omega
    rw [inverse.top _ isTop, inverse.top' _ isTop]
    cases first : i.testBit u with
    | true =>
        have second : j.testBit u = false := by
          rw [first] at different
          exact Bool.eq_false_of_not_eq_true (Ne.symm different)
        simp [second]
    | false =>
        have second : j.testBit u = true := by
          rw [first] at different
          exact Bool.eq_true_of_not_eq_false (Ne.symm different)
        simp [second]
  · intro t member other
    have tInRange := Finset.mem_range.mp member
    rcases Nat.lt_or_gt_of_ne other with lower | higher
    · rw [lowest t lower]
      by_cases set : j.testBit t
      · rw [if_pos set, if_pos set, inverse.cancel]
      · rw [if_neg set, if_neg set, mul_one]
    · have isBeyond : m ≤ m - 1 - u + t := by omega
      rw [inverse.beyond _ isBeyond, inverse.beyond' _ isBeyond, ite_self,
        ite_self, mul_one]
  · intro outside
    exact absurd (Finset.mem_range.mpr inRange) outside

/-- The kernels of inverse twiddle factors are orthogonal. -/
theorem sum_kernels
    (inverse : Inverse c c' m)
    {i j : Nat}
    (iLow : i < 2 ^ m)
    (jLow : j < 2 ^ m) :
    ∑ k ∈ Finset.range (2 ^ m), kernel c m i k * kernel c' m k j =
      if i = j then 2 ^ m else 0 := by
  have product (k : Nat) :
      kernel c m i k * kernel c' m k j =
        bitProduct (fun s =>
          bitProduct (fun t => c (s + t)) m i *
            bitProduct (fun t => c' (s + t)) m j) m k := by
    rw [kernel_comm, kernel, kernel, bitProduct_mul]
  simp only [product]
  rw [sum_bitProduct]
  by_cases same : i = j
  · subst same
    rw [if_pos rfl, Finset.prod_congr rfl
      (fun s _ => congrArg (1 + ·) (inverse.factors_eq_one i s)),
      Finset.prod_const, Finset.card_range]
    norm_num
  · rw [if_neg same]
    obtain ⟨u, different, lowest⟩ :
        ∃ u, i.testBit u ≠ j.testBit u ∧
          ∀ t, t < u → i.testBit t = j.testBit t := by
      have someBit := Nat.exists_testBit_ne_of_ne same
      refine ⟨Nat.find someBit, Nat.find_spec someBit, fun t lower => ?_⟩
      exact not_not.mp (Nat.find_min someBit lower)
    have inRange : u < m := by
      by_contra beyond
      have high := Nat.pow_le_pow_right Nat.two_pos (Nat.not_lt.mp beyond)
      rw [Nat.testBit_lt_two_pow (iLow.trans_le high),
        Nat.testBit_lt_two_pow (jLow.trans_le high)] at different
      exact different rfl
    apply Finset.prod_eq_zero
      (Finset.mem_range.mpr (show m - 1 - u < m by omega))
    rw [inverse.factors_eq_neg_one inRange different lowest]
    ring

/-- One transform undoes the other, up to the number of values. -/
theorem transform_transform
    (inverse : Inverse c c' m)
    (f : Nat → R)
    {k : Nat}
    (inRange : k < 2 ^ m) :
    transform c' m (transform c m f) k = 2 ^ m * f k := by
  simp only [transform, Finset.sum_mul]
  rw [Finset.sum_comm]
  have swapped :
      ∀ i ∈ Finset.range (2 ^ m),
        ∑ l ∈ Finset.range (2 ^ m), f i * kernel c m i l * kernel c' m l k =
          f i * if i = k then 2 ^ m else 0 := by
    intro i member
    rw [← inverse.sum_kernels (Finset.mem_range.mp member) inRange,
      Finset.mul_sum]
    exact Finset.sum_congr rfl (fun l _ => mul_assoc _ _ _)
  rw [Finset.sum_congr rfl swapped]
  simp only [mul_ite, mul_zero]
  rw [Finset.sum_ite_eq' _ _ _, if_pos (Finset.mem_range.mpr inRange),
    mul_comm]

end Inverse

/-! What the stages compute. -/

section Stages

variable {c : Nat → R} {m s : Nat}

/-- The twiddle factors of a stage, by position in the half block. -/
def stageFactor (c : Nat → R) (m s r : Nat) : R :=
  bitProduct (fun v => c (v + (m - 1 - s))) s r

/-- The kernel of the first stages. -/
def partialKernel (c : Nat → R) (m s l k : Nat) : R :=
  bitProduct
    (fun u => bitProduct (fun v => c (v + (m - 1 - u))) (u + 1) k) s l

/-- The values after the first stages: transforms of the single blocks. -/
def partialTransform (c : Nat → R) (m s : Nat) (f : Nat → R) (k : Nat) : R :=
  ∑ l ∈ Finset.range (2 ^ s),
    f (2 ^ s * (k / 2 ^ s) + l) * partialKernel c m s l k

/-- All stages up to the given one. -/
def stages (c : Nat → R) (m done : Nat) (f : Nat → R) : Nat → R :=
  (List.range done).foldl
    (fun f s =>
      stage (stageFactor c m s) (2 ^ s) (2 ^ m / (2 * 2 ^ s)) f) f

/-- The kernel of a stage depends on the position in its block only. -/
theorem partialKernel_congr
    {k k' : Nat}
    (l : Nat)
    (samePosition : k % 2 ^ s = k' % 2 ^ s) :
    partialKernel c m s l k = partialKernel c m s l k' := by
  apply bitProduct_congr _ rfl
  intro u inRange
  apply bitProduct_congr (fun _ _ => rfl)
  have divides : 2 ^ (u + 1) ∣ 2 ^ s := Nat.pow_dvd_pow 2 inRange
  rw [← Nat.mod_mod_of_dvd k divides, samePosition,
    Nat.mod_mod_of_dvd k' divides]

theorem partialTransform_eq
    (f : Nat → R)
    {k k' q : Nat}
    (blockOf : k / 2 ^ s = q)
    (samePosition : k % 2 ^ s = k' % 2 ^ s) :
    partialTransform c m s f k =
      ∑ l ∈ Finset.range (2 ^ s),
        f (2 ^ s * q + l) * partialKernel c m s l k' := by
  rw [partialTransform, blockOf]
  apply Finset.sum_congr rfl
  intro l _
  rw [partialKernel_congr l samePosition]

/-- The last bit of an index says in which half of its block it is. -/
theorem testBit_iff_le_mod (k s : Nat) :
    k.testBit s = true ↔ 2 ^ s ≤ k % (2 * 2 ^ s) := by
  have sameBit : (k % 2 ^ (s + 1)).testBit s = k.testBit s := by
    rw [Nat.testBit_mod_two_pow, decide_eq_true (Nat.lt_succ_self s),
      Bool.true_and]
  have small := Nat.mod_lt k (Nat.two_pow_pos (s + 1))
  rw [← sameBit]
  rw [Nat.pow_succ'] at small ⊢
  generalize k % (2 * 2 ^ s) = r at small
  by_cases upper : 2 ^ s ≤ r
  · obtain ⟨rest, rfl⟩ := Nat.exists_eq_add_of_le upper
    rw [Nat.testBit_two_pow_add_eq, Nat.testBit_lt_two_pow (by omega)]
    simp
  · rw [Nat.testBit_lt_two_pow (Nat.not_le.mp upper)]
    simp [upper]

/-- One more stage splits the sum by the last bit of the summed index. -/
theorem partialTransform_succ
    (top : ∀ r, r + 1 = m → c r = -1)
    (inRange : s < m)
    (f : Nat → R)
    (k : Nat) :
    partialTransform c m (s + 1) f k =
      (∑ l ∈ Finset.range (2 ^ s),
        f (2 * 2 ^ s * (k / (2 * 2 ^ s)) + l) * partialKernel c m s l k) +
      (∑ l ∈ Finset.range (2 ^ s),
        f (2 * 2 ^ s * (k / (2 * 2 ^ s)) + 2 ^ s + l) *
          partialKernel c m s l k) *
        (stageFactor c m s k *
          if 2 ^ s ≤ k % (2 * 2 ^ s) then -1 else 1) := by
  have low :
      ∀ l ∈ Finset.range (2 ^ s),
        partialKernel c m (s + 1) l k = partialKernel c m s l k := by
    intro l member
    rw [partialKernel, bitProduct_succ,
      Nat.testBit_lt_two_pow (Finset.mem_range.mp member)]
    simp [partialKernel]
  have lastFactor :
      bitProduct (fun v => c (v + (m - 1 - s))) (s + 1) k =
        stageFactor c m s k * if 2 ^ s ≤ k % (2 * 2 ^ s) then -1 else 1 := by
    have isTop : s + (m - 1 - s) = m - 1 := by omega
    rw [bitProduct_succ, isTop, top (m - 1) (by omega), stageFactor]
    simp only [testBit_iff_le_mod]
  have high :
      ∀ l ∈ Finset.range (2 ^ s),
        partialKernel c m (s + 1) (2 ^ s + l) k =
          partialKernel c m s l k *
            (stageFactor c m s k *
              if 2 ^ s ≤ k % (2 * 2 ^ s) then -1 else 1) := by
    intro l member
    rw [partialKernel, bitProduct_succ, Nat.testBit_two_pow_add_eq,
      Nat.testBit_lt_two_pow (Finset.mem_range.mp member), lastFactor,
      bitProduct_congr (fun _ _ => rfl) (Nat.add_mod_left (2 ^ s) l)]
    simp [partialKernel]
  have halves :
      Finset.range (2 * 2 ^ s) = Finset.range (2 ^ s + 2 ^ s) := by
    rw [Nat.two_mul]
  rw [partialTransform, Nat.pow_succ', halves, Finset.sum_range_add,
    Finset.sum_mul]
  congr 1
  · apply Finset.sum_congr rfl
    intro l member
    rw [low l member]
  · apply Finset.sum_congr rfl
    intro l member
    rw [high l member, ← Nat.add_assoc]
    ring

/-- A stage of butterflies turns the values of a stage into the next ones. -/
theorem combined_partialTransform
    (top : ∀ r, r + 1 = m → c r = -1)
    (inRange : s < m)
    (f : Nat → R)
    (k : Nat) :
    combined (stageFactor c m s) (2 ^ s) (partialTransform c m s f) k =
      partialTransform c m (s + 1) f k := by
  have positive := Nat.two_pow_pos s
  have split := (Nat.div_add_mod k (2 * 2 ^ s)).symm
  have small := Nat.mod_lt k (show 0 < 2 * 2 ^ s by omega)
  have divides : 2 ^ s ∣ 2 * 2 ^ s := Nat.dvd_mul_left _ _
  have samePosition := Nat.mod_mod_of_dvd k divides
  have factorOf {r : Nat} (same : r % 2 ^ s = k % 2 ^ s) :
      stageFactor c m s r = stageFactor c m s k :=
    bitProduct_congr (fun _ _ => rfl) same
  have lowerHalf (q : Nat) : 2 ^ s * (2 * q) = 2 * 2 ^ s * q := by
    ring
  have upperHalf (q : Nat) :
      2 ^ s * (2 * q + 1) = 2 * 2 ^ s * q + 2 ^ s := by
    ring
  have blockOf {x p r : Nat} (shape : x = 2 ^ s * p + r) (low : r < 2 ^ s) :
      x / 2 ^ s = p :=
    ((eq_add_iff low).mp shape).1
  rw [partialTransform_succ top inRange, combined]
  generalize k / (2 * 2 ^ s) = q at split ⊢
  by_cases lower : k % (2 * 2 ^ s) < 2 ^ s
  · have kBlock : k / 2 ^ s = 2 * q :=
      blockOf (r := k % (2 * 2 ^ s)) (by rw [lowerHalf]; exact split) lower
    have partnerBlock : (k + 2 ^ s) / 2 ^ s = 2 * q + 1 := by
      rw [Nat.add_div_right _ positive, kBlock]
    rw [if_pos lower, if_neg (Nat.not_le.mpr lower), mul_one,
      factorOf samePosition, partialTransform_eq f kBlock rfl,
      partialTransform_eq f partnerBlock (Nat.add_mod_right k _), lowerHalf,
      upperHalf]
  · have upper := Nat.not_lt.mp lower
    have partnerBlock : (k - 2 ^ s) / 2 ^ s = 2 * q := by
      apply blockOf (r := k % (2 * 2 ^ s) - 2 ^ s)
      · rw [lowerHalf]
        omega
      · omega
    have large : 2 ^ s ≤ k := upper.trans (Nat.mod_le k _)
    have kBlock : k / 2 ^ s = 2 * q + 1 := by
      rw [Nat.div_eq_sub_div positive large, partnerBlock]
    have partnerPosition : (k - 2 ^ s) % 2 ^ s = k % 2 ^ s :=
      (Nat.mod_eq_sub_mod large).symm
    have factorPosition :
        (k % (2 * 2 ^ s) - 2 ^ s) % 2 ^ s = k % 2 ^ s :=
      (Nat.mod_eq_sub_mod upper).symm.trans samePosition
    rw [if_neg lower, if_pos upper, factorOf factorPosition,
      partialTransform_eq f partnerBlock partnerPosition,
      partialTransform_eq f kBlock rfl, lowerHalf, upperHalf]
    ring

/-- The stages compute the transforms of their blocks. -/
theorem stages_apply
    (top : ∀ r, r + 1 = m → c r = -1)
    (f : Nat → R)
    {done : Nat}
    (enough : done ≤ m)
    {k : Nat}
    (inRange : k < 2 ^ m) :
    stages c m done f k = partialTransform c m done f k := by
  induction done generalizing k with
  | zero =>
      simp [stages, partialTransform, partialKernel, bitProduct]
  | succ done inductionHypothesis =>
      have earlier {k : Nat} (inRange : k < 2 ^ m) :=
        inductionHypothesis (Nat.le_of_succ_le enough) inRange
      have positive := Nat.two_pow_pos done
      have divides : 2 * 2 ^ done ∣ 2 ^ m := by
        rw [← Nat.pow_succ']
        exact Nat.pow_dvd_pow 2 enough
      have allBlocks := Nat.mul_div_cancel' divides
      have inBlocks : k < 2 * 2 ^ done * (2 ^ m / (2 * 2 ^ done)) := by
        rwa [allBlocks]
      rw [stages, List.range_succ, List.foldl_append, List.foldl_cons,
        List.foldl_nil, ← stages, stage_apply _ positive _ inBlocks,
        ← combined_partialTransform top enough]
      apply combined_congr _ positive
      intro y sameBlock
      apply earlier
      have block : y / (2 * 2 ^ done) < 2 ^ m / (2 * 2 ^ done) := by
        rw [sameBlock]
        exact Nat.div_lt_of_lt_mul inBlocks
      rw [← allBlocks]
      exact (Nat.div_lt_iff_lt_mul (by omega)).mp block |>.trans_eq
        (Nat.mul_comm _ _)

end Stages

/-- A map of indices that mirrors their bits. -/
structure Reversal (m : Nat) (rev : Nat → Nat) : Prop where
  inside : ∀ i, i < 2 ^ m → rev i < 2 ^ m
  mirrors : ∀ i t, t < m → (rev i).testBit t = i.testBit (m - 1 - t)

namespace Reversal

variable {m : Nat} {rev : Nat → Nat}

theorem involutive
    (reversal : Reversal m rev)
    (i : Nat)
    (inRange : i < 2 ^ m) :
    rev (rev i) = i := by
  apply Nat.eq_of_testBit_eq
  intro t
  by_cases low : t < m
  · rw [reversal.mirrors _ t low, reversal.mirrors _ _ (by omega)]
    congr 1
    omega
  · have high := Nat.pow_le_pow_right Nat.two_pos (Nat.not_lt.mp low)
    have backInRange := reversal.inside _ (reversal.inside i inRange)
    rw [Nat.testBit_lt_two_pow (backInRange.trans_le high),
      Nat.testBit_lt_two_pow (inRange.trans_le high)]

/-- The kernel of all stages is the kernel at the mirrored index. -/
theorem partialKernel_eq
    {c : Nat → R}
    (reversal : Reversal m rev)
    (beyond : ∀ r, m ≤ r → c r = 1)
    (l k : Nat) :
    partialKernel c m m l k = kernel c m (rev l) k := by
  have trimmed {u : Nat} (inRange : u < m) :
      bitProduct (fun v => c (v + (m - 1 - u))) (u + 1) k =
        bitProduct (fun v => c (m - 1 - u + v)) m k := by
    apply Finset.prod_subset_one_on_sdiff
      (Finset.range_subset_range.mpr inRange)
    · intro v member
      have large := (Finset.mem_sdiff.mp member).2
      rw [Finset.mem_range] at large
      dsimp only
      rw [beyond _ (by omega), ite_self]
    · intro v _
      dsimp only
      rw [Nat.add_comm]
  rw [partialKernel, kernel, bitProduct, bitProduct,
    ← Finset.prod_range_reflect]
  apply Finset.prod_congr rfl
  intro u member
  have inRange := Finset.mem_range.mp member
  have mirrored : m - 1 - (m - 1 - u) = u := by omega
  rw [reversal.mirrors l u inRange, trimmed (by omega), mirrored]

/-- A permutation by bit reversal and all stages compute a transform. -/
theorem stages_permute
    {c : Nat → R}
    (reversal : Reversal m rev)
    (top : ∀ r, r + 1 = m → c r = -1)
    (beyond : ∀ r, m ≤ r → c r = 1)
    (f : Nat → R)
    {k : Nat}
    (inRange : k < 2 ^ m) :
    stages c m m (permute rev (2 ^ m) f) k = transform c m f k := by
  rw [stages_apply top _ (Nat.le_refl m) inRange, partialTransform,
    transform, Nat.div_eq_of_lt inRange]
  apply Finset.sum_nbij' rev rev
  · intro l member
    exact Finset.mem_range.mpr
      (reversal.inside l (Finset.mem_range.mp member))
  · intro i member
    exact Finset.mem_range.mpr
      (reversal.inside i (Finset.mem_range.mp member))
  · intro l member
    exact reversal.involutive l (Finset.mem_range.mp member)
  · intro i member
    exact reversal.involutive i (Finset.mem_range.mp member)
  · intro l member
    have small := Finset.mem_range.mp member
    rw [Nat.mul_zero, Nat.zero_add, reversal.partialKernel_eq beyond,
      permute_apply reversal.involutive reversal.inside f small]

end Reversal

/-- The factors of a root, with the sign of a butterfly at the top. -/
def twiddle (omega : R) (m r : Nat) : R :=
  if r + 1 < m then omega ^ 2 ^ r else if r + 1 = m then -1 else 1

theorem twiddle_top (omega : R) (m r : Nat) (isTop : r + 1 = m) :
    twiddle omega m r = -1 := by
  rw [twiddle, if_neg (by omega), if_pos isTop]

theorem twiddle_beyond (omega : R) (m r : Nat) (isBeyond : m ≤ r) :
    twiddle omega m r = 1 := by
  rw [twiddle, if_neg (by omega), if_neg (by omega)]

/-- Roots that cancel have twiddle factors that do. -/
theorem twiddle_inverse
    {omega omegaInv : R}
    (cancel : omega * omegaInv = 1)
    (m : Nat) :
    Inverse (twiddle omega m) (twiddle omegaInv m) m where
  cancel r := by
    unfold twiddle
    split
    · rw [← mul_pow, cancel, one_pow]
    · split
      · norm_num
      · exact one_mul 1
  top := twiddle_top omega m
  top' := twiddle_top omegaInv m
  beyond := twiddle_beyond omega m
  beyond' := twiddle_beyond omegaInv m

/-- The factors of a stage are the powers at the step of the stage. -/
theorem stageFactor_twiddle
    (omega : R)
    {m s r : Nat}
    (inRange : s < m)
    (small : r < 2 ^ s) :
    stageFactor (twiddle omega m) m s r = omega ^ (r * 2 ^ (m - 1 - s)) := by
  rw [Nat.mul_comm, pow_mul, pow_eq_bitProduct _ small, stageFactor]
  apply bitProduct_congr _ rfl
  intro v low
  rw [twiddle, if_pos (by omega), ← pow_mul, ← Nat.pow_add,
    Nat.add_comm v]

/-- All factors of a root of unity are powers of it if its half is the sign. -/
theorem twiddle_eq_pow
    {omega : R}
    {m : Nat}
    (unit : omega ^ 2 ^ m = 1)
    (half : 0 < m → omega ^ 2 ^ (m - 1) = -1)
    (r : Nat) :
    twiddle omega m r = omega ^ 2 ^ r := by
  rcases Nat.lt_trichotomy (r + 1) m with below | top | beyond
  · rw [twiddle, if_pos below]
  · rw [twiddle_top omega m r top, ← half (by omega)]
    congr 2
    omega
  · rw [twiddle_beyond omega m r (by omega),
      ← Nat.add_sub_of_le (show m ≤ r by omega), Nat.pow_add, pow_mul, unit,
      one_pow]

/-- The kernel of the powers of a root has the powers of the products. -/
theorem kernel_pow
    (omega : R)
    {m i k : Nat}
    (iSmall : i < 2 ^ m)
    (kSmall : k < 2 ^ m) :
    kernel (fun r => omega ^ 2 ^ r) m i k = omega ^ (i * k) := by
  have row (t : Nat) :
      bitProduct (fun s => omega ^ 2 ^ (t + s)) m k = (omega ^ k) ^ 2 ^ t := by
    rw [← pow_mul, Nat.mul_comm, pow_mul, pow_eq_bitProduct _ kSmall]
    apply bitProduct_congr _ rfl
    intro s _
    rw [← pow_mul, ← Nat.pow_add]
  rw [kernel, Nat.mul_comm, pow_mul, pow_eq_bitProduct _ iSmall]
  exact bitProduct_congr (fun t _ => row t) rfl

/-- The transform of such a root evaluates a polynomial at its powers. -/
theorem transform_root
    {omega : R}
    {m k : Nat}
    (unit : omega ^ 2 ^ m = 1)
    (half : 0 < m → omega ^ 2 ^ (m - 1) = -1)
    (f : Nat → R)
    (small : k < 2 ^ m) :
    transform (twiddle omega m) m f k =
      ∑ i ∈ Finset.range (2 ^ m), f i * omega ^ (i * k) := by
  have factors : twiddle omega m = fun r => omega ^ 2 ^ r :=
    funext (twiddle_eq_pow unit half)
  rw [transform, factors]
  apply Finset.sum_congr rfl
  intro i member
  rw [kernel_pow omega (Finset.mem_range.mp member) small]

end RadixTwoTransform
