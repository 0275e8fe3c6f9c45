import YieldDaemon.MontgomeryU256
import YieldDaemon.RadixTwoTransform

namespace YieldDaemon

open CheckedArithmetic LimbArithmetic RadixTwoTransform

/-!
# Number-theoretic transform

The domain of size `2 ^ log_n` holds the powers of the root that
`compute_root_of_unity` returns, and both transforms run the same network of
butterflies.  Loop counters and indices stay below `2 ^ 29` in the domains
that can be built and stand as natural numbers.
-/

/-- Precomputed twiddle factors (roots of unity) in Montgomery form. -/
structure NttDomain where
  roots : List MontgomeryU256
  invRoots : List MontgomeryU256
  logN : Nat
  n : Nat
  /-- 1/n in Montgomery form -/
  nInv : MontgomeryU256

namespace NttDomain

/-- The exponent that the source gives for (p-1) / 2^28. -/
def expP1Div228 : List Nat :=
  [0x9b9709143e1f593f, 0x181585d2833e8487, 0xe131a029b85045b6,
    0x0000000030644e72]

/--
Compute a primitive 2^k-th root of unity for BN254 scalar field.
Uses generator g=5 and computes g^((p-1)/2^k).
-/
def computeRootOfUnity (profile : Profile) (logN : Nat) :
    Checked MontgomeryU256 :=
  if logN ≤ 28 then do
    let generator ← MontgomeryU256.fromU64 profile 5
    let rootOfUnity228 ← generator.montPow profile expP1Div228
    -- Square (28 - log_n) times to get a 2^log_n-th root
    (List.range (28 - logN)).foldlM (fun omega _ => omega.montSqr profile)
      rootOfUnity228
  else
    .error .assertionFailed

/-- Build root table: omega^0, omega^1, ..., omega^{n-1} -/
def powerTable (profile : Profile) (n : Nat) (omega : MontgomeryU256) :
    Checked (List MontgomeryU256) := do
  let roots ← store (List.replicate n MontgomeryU256.zero) 0 MontgomeryU256.one
  if 1 < n then do
    let roots ← store roots 1 omega
    (List.range' 2 (n - 2)).foldlM
      (fun roots i => do
        let previous ← index roots (i - 1)
        let next ← previous.montMul profile omega
        store roots i next)
      roots
  else
    return roots

/-- Build twiddle factor table for domain of size 2^log_n. -/
def new (profile : Profile) (logN : Nat) : Checked NttDomain := do
  let n := 2 ^ logN
  let omega ← computeRootOfUnity profile logN
  let omegaInv ← omega.montInv profile
  let roots ← powerTable profile n omega
  let invRoots ← powerTable profile n omegaInv
  let nField ← MontgomeryU256.fromU64 profile n
  let nInv ← nField.montInv profile
  return { roots, invRoots, logN, n, nInv }

/-- Reverse the bottom `bits` bits of `x`. -/
def bitReverse (x bits : Nat) : Nat :=
  ((List.range bits).foldl
    (fun (state : Nat × Nat) _ =>
      let (result, x) := state
      ((result <<< 1) % 2 ^ 32 ||| (x &&& 1), x >>> 1))
    (0, x)).1

/-- `data.swap(i, j)` -/
def swap (data : List MontgomeryU256) (i j : Nat) :
    Checked (List MontgomeryU256) := do
  let first ← index data i
  let second ← index data j
  let data ← store data i second
  store data j first

/-- The index that an index is swapped with, both 32-bit values. -/
def reversed (logN i : Nat) : Nat :=
  bitReverse (i % 2 ^ 32) logN

/-- Bit-reversal permutation (in-place). -/
def bitReversePermutation (data : List MontgomeryU256) (logN : Nat) :
    Checked (List MontgomeryU256) :=
  (List.range data.length).foldlM
    (fun data i =>
      let rev := reversed logN i
      if i < rev then swap data i rev else return data)
    data

/-- The butterfly of one position of a block. -/
def butterflyAt
    (profile : Profile)
    (roots : List MontgomeryU256)
    (twiddleStep stageLen k : Nat)
    (coeffs : List MontgomeryU256)
    (j : Nat) : Checked (List MontgomeryU256) := do
  let twiddle ← index roots (j * twiddleStep)
  let u ← index coeffs (k + j)
  let partner ← index coeffs (k + j + stageLen)
  let v ← partner.montMul profile twiddle
  -- Butterfly: branchless add/sub
  let coeffs ← store coeffs (k + j) (u.montAdd v)
  store coeffs (k + j + stageLen) (u.montSub v)

/-- One stage, on the values and the length of its half blocks. -/
def butterflyStage
    (profile : Profile)
    (n : Nat)
    (roots : List MontgomeryU256)
    (state : List MontgomeryU256 × Nat)
    (_stage : Nat) : Checked (List MontgomeryU256 × Nat) := do
  let (coeffs, stageLen) := state
  let step := stageLen * 2
  let twiddleStep ← div n step
  -- `while k < self.n` goes through the multiples of `step` below `n`.
  let coeffs ← (List.range ((n + step - 1) / step)).foldlM
    (fun coeffs q =>
      (List.range stageLen).foldlM
        (butterflyAt profile roots twiddleStep stageLen (step * q)) coeffs)
    coeffs
  return (coeffs, step)

/-- What both transforms do, each with its own table. -/
def network
    (profile : Profile)
    (domain : NttDomain)
    (roots coeffs : List MontgomeryU256) : Checked (List MontgomeryU256) :=
  if coeffs.length = domain.n then do
    let coeffs ← bitReversePermutation coeffs domain.logN
    let (coeffs, _) ←
      (List.range domain.logN).foldlM (butterflyStage profile domain.n roots)
        (coeffs, 1)
    return coeffs
  else
    .error .assertionFailed

/--
Forward NTT: polynomial evaluation at roots of unity.
In-place Cooley-Tukey radix-2 DIT butterfly.
-/
def forward
    (profile : Profile)
    (domain : NttDomain)
    (coeffs : List MontgomeryU256) : Checked (List MontgomeryU256) :=
  domain.network profile domain.roots coeffs

/--
Inverse NTT: interpolation from evaluations.
Same structure as forward but uses inverse roots and scales by 1/n.
-/
def inverse
    (profile : Profile)
    (domain : NttDomain)
    (evals : List MontgomeryU256) : Checked (List MontgomeryU256) := do
  let evals ← domain.network profile domain.invRoots evals
  evals.mapM (fun val => val.montMul profile domain.nInv)

/--
Polynomial multiplication via NTT: O(n log n) field operations.
f(x) * g(x) = INTT(NTT(f) ⊙ NTT(g))

The arguments are transformed in place.
-/
def polyMul
    (profile : Profile)
    (domain : NttDomain)
    (a b : List MontgomeryU256) :
    Checked
      (List MontgomeryU256 × List MontgomeryU256 × List MontgomeryU256) :=
  if a.length = domain.n ∧ b.length = domain.n then do
    let a ← domain.forward profile a
    let b ← domain.forward profile b
    -- Pointwise multiplication (embarrassingly parallel, SIMD-friendly)
    let c ← (a.zip b).mapM (fun pair => pair.1.montMul profile pair.2)
    let c ← domain.inverse profile c
    return (a, b, c)
  else
    .error .assertionFailed

/-- The list of the encodings of the first values of a function. -/
def encoded (n : Nat) (f : Nat → ZMod Bn254.order) : List MontgomeryU256 :=
  (List.range n).map (fun i => MontgomeryU256.encode (f i))

section Tables

variable
  {n : Nat}
  {f g : Nat → ZMod Bn254.order}
  {profile : Profile}

@[simp] theorem length_encoded : (encoded n f).length = n := by
  simp [encoded]

theorem encoded_congr (same : ∀ i, i < n → f i = g i) :
    encoded n f = encoded n g := by
  apply List.map_congr_left
  intro i member
  rw [same i (List.mem_range.mp member)]

theorem index_encoded {i : Nat} (inRange : i < n) :
    index (encoded n f) i = .ok (MontgomeryU256.encode (f i)) :=
  index_map_range _ inRange

theorem store_encoded
    {i : Nat}
    (inRange : i < n)
    (element : ZMod Bn254.order) :
    store (encoded n f) i (MontgomeryU256.encode element) =
      .ok (encoded n (Function.update f i element)) := by
  rw [encoded, store_map_range _ inRange]
  apply congrArg Except.ok
  apply List.map_congr_left
  intro j _
  rw [Function.update_apply, Function.update_apply]
  split
  · rfl
  · rfl

theorem swap_encoded
    {i j : Nat}
    (iInRange : i < n)
    (jInRange : j < n) :
    swap (encoded n f) i j = .ok (encoded n (swapAt i j f)) := by
  rw [swap, index_encoded iInRange, Checked.ok_bind, index_encoded jInRange,
    Checked.ok_bind, store_encoded iInRange, Checked.ok_bind,
    store_encoded jInRange, swapAt]

/-- A map over a table is a table of the mapped values. -/
theorem mapM_encoded
    {convert : MontgomeryU256 → Checked MontgomeryU256}
    (converts :
      ∀ i, i < n →
        convert (MontgomeryU256.encode (f i)) =
          .ok (MontgomeryU256.encode (g i))) :
    (encoded n f).mapM convert = .ok (encoded n g) := by
  exact Checked.mapM_map_eq_ok
    (fun i member => converts i (List.mem_range.mp member))

/-- The table of the powers of a root. -/
theorem powerTable_encoded
    (omega : ZMod Bn254.order)
    (positive : 0 < n) :
    powerTable profile n (MontgomeryU256.encode omega) =
      .ok (encoded n (omega ^ ·)) := by
  have zeros :
      List.replicate n MontgomeryU256.zero = encoded n (fun _ => 0) := by
    rw [encoded, MontgomeryU256.zero_eq, List.map_const', List.length_range]
  rw [powerTable, zeros, MontgomeryU256.one_eq, store_encoded positive,
    Checked.ok_bind]
  by_cases more : 1 < n
  · rw [if_pos more, store_encoded more, Checked.ok_bind]
    have step :
        ∀ i ∈ List.range' 2 (n - 2), ∀ f : Nat → ZMod Bn254.order,
          (do
            let previous ← index (encoded n f) (i - 1)
            let next ← previous.montMul profile (MontgomeryU256.encode omega)
            store (encoded n f) i next) =
          .ok (encoded n (Function.update f i (f (i - 1) * omega))) := by
      intro i member f
      have range := List.mem_range'_1.mp member
      rw [index_encoded (by omega), Checked.ok_bind,
        MontgomeryU256.montMul_encode, Checked.ok_bind,
        store_encoded (by omega)]
    rw [Checked.foldlM_simulates (encoded n) _ step]
    apply congrArg Except.ok
    apply encoded_congr
    have filled (count j : Nat) (inFilled : j < 2 + count) :
        (List.range' 2 count).foldl
            (fun f i => Function.update f i (f (i - 1) * omega))
            (Function.update (Function.update (fun _ => 0) 0 1) 1 omega) j =
          omega ^ j := by
      induction count generalizing j with
      | zero =>
          interval_cases j
          · simp
          · simp
      | succ count inductionHypothesis =>
          rw [List.range'_1_concat, List.foldl_append, List.foldl_cons,
            List.foldl_nil, Function.update_apply]
          by_cases isLast : j = 2 + count
          · rw [if_pos isLast, inductionHypothesis _ (by omega), isLast,
              ← pow_succ, Nat.sub_add_cancel (by omega)]
          · rw [if_neg isLast, inductionHypothesis _ (by omega)]
    intro i inRange
    exact filled (n - 2) i (by omega)
  · obtain rfl : n = 1 := by omega
    rw [if_neg more]
    apply congrArg Except.ok
    apply encoded_congr
    intro i inRange
    obtain rfl := Nat.lt_one_iff.mp inRange
    simp

end Tables

/-- The loop moves the bits over one by one. -/
theorem bitReverse_loop
    (x : Nat)
    {bits : Nat}
    (few : bits ≤ 32) :
    ∃ result,
      (List.range bits).foldl
          (fun (state : Nat × Nat) _ =>
            let (result, x) := state
            ((result <<< 1) % 2 ^ 32 ||| (x &&& 1), x >>> 1))
          (0, x) = (result, x >>> bits) ∧
        result < 2 ^ bits ∧
        ∀ t, t < bits → result.testBit t = x.testBit (bits - 1 - t) := by
  induction bits with
  | zero =>
      exact ⟨0, rfl, Nat.one_pos, nofun⟩
  | succ bits inductionHypothesis =>
      obtain ⟨result, loop, small, mirrors⟩ :=
        inductionHypothesis (Nat.le_of_succ_le few)
      rw [List.range_succ, List.foldl_append, loop]
      have doubled : result <<< 1 < 2 ^ (bits + 1) := by
        rw [Nat.shiftLeft_eq, Nat.pow_succ 2 bits]
        omega
      have fits : (result <<< 1) % 2 ^ 32 = result <<< 1 :=
        Nat.mod_eq_of_lt
          (doubled.trans_le (Nat.pow_le_pow_right Nat.two_pos few))
      refine ⟨(result <<< 1) ||| (x >>> bits &&& 1), ?_, ?_, ?_⟩
      · rw [List.foldl_cons, List.foldl_nil]
        dsimp only
        rw [fits, ← Nat.shiftRight_add]
      · apply Nat.or_lt_two_pow doubled
        rw [Nat.and_one_is_mod]
        exact (Nat.mod_lt _ Nat.two_pos).trans_le
          (Nat.le_self_pow (Nat.succ_ne_zero bits) 2)
      · intro t low
        rw [Nat.testBit_or, Nat.testBit_shiftLeft, Nat.testBit_and,
          Nat.testBit_shiftRight]
        cases t with
        | zero =>
            simp
        | succ t =>
            have lower : t < bits := Nat.lt_of_succ_lt_succ low
            rw [Nat.add_sub_cancel, mirrors t lower]
            have one : Nat.testBit 1 (t + 1) = false := by
              rw [Nat.testBit_succ]
              simp
            rw [one, Bool.and_false, Bool.or_false]
            simp
            congr 1
            omega

theorem reversal_reversed
    {logN : Nat}
    (few : logN ≤ 32) :
    Reversal logN (reversed logN) where
  inside i _ := by
    obtain ⟨result, loop, small, -⟩ := bitReverse_loop (i % 2 ^ 32) few
    rw [reversed, bitReverse, loop]
    exact small
  mirrors i t low := by
    obtain ⟨result, loop, -, mirrors⟩ := bitReverse_loop (i % 2 ^ 32) few
    rw [reversed, bitReverse, loop]
    dsimp only
    rw [mirrors t low, Nat.testBit_mod_two_pow,
      decide_eq_true (show logN - 1 - t < 32 by omega), Bool.true_and]

theorem bitReversePermutation_encoded
    {logN : Nat}
    (few : logN ≤ 32)
    (f : Nat → ZMod Bn254.order) :
    bitReversePermutation (encoded (2 ^ logN) f) logN =
      .ok (encoded (2 ^ logN) (permute (reversed logN) (2 ^ logN) f)) := by
  rw [bitReversePermutation, length_encoded, permute]
  apply Checked.foldlM_simulates
  intro i member f
  have inRange := List.mem_range.mp member
  dsimp only
  split
  · rw [swap_encoded inRange ((reversal_reversed few).inside i inRange)]
  · rfl

section Network

variable {profile : Profile} {roots f : Nat → ZMod Bn254.order}

theorem butterflyAt_encoded
    {n twiddleStep stageLen k j : Nat}
    (inRoots : j * twiddleStep < n)
    (inRange : k + j + stageLen < n) :
    butterflyAt profile (encoded n roots) twiddleStep stageLen k (encoded n f)
        j =
      .ok (encoded n
        (butterfly (roots (j * twiddleStep)) (k + j) (k + j + stageLen) f)) := by
  have lowInRange : k + j < n := Nat.lt_of_add_right_lt inRange
  rw [butterflyAt, index_encoded inRoots, Checked.ok_bind,
    index_encoded lowInRange, Checked.ok_bind, index_encoded inRange,
    Checked.ok_bind, MontgomeryU256.montMul_encode, Checked.ok_bind,
    MontgomeryU256.montAdd_encode, store_encoded lowInRange, Checked.ok_bind,
    MontgomeryU256.montSub_encode, store_encoded inRange, butterfly]

/-- A stage on encodings is a stage on the field elements. -/
theorem butterflyStage_encoded
    {logN s : Nat}
    (inRange : s < logN)
    (stageIdx : Nat) :
    butterflyStage profile (2 ^ logN) (encoded (2 ^ logN) roots)
        (encoded (2 ^ logN) f, 2 ^ s) stageIdx =
      .ok (encoded (2 ^ logN)
        (stage (fun j => roots (j * (2 ^ logN / (2 * 2 ^ s)))) (2 ^ s)
          (2 ^ logN / (2 * 2 ^ s)) f), 2 ^ (s + 1)) := by
  have positive := Nat.two_pow_pos s
  have divides : 2 * 2 ^ s ∣ 2 ^ logN := by
    rw [← Nat.pow_succ']
    exact Nat.pow_dvd_pow 2 inRange
  have blocks : (2 ^ logN + 2 * 2 ^ s - 1) / (2 * 2 ^ s) =
      2 ^ logN / (2 * 2 ^ s) := by
    obtain ⟨count, shape⟩ := divides
    rw [shape, Nat.mul_div_cancel_left _ (by omega),
      Nat.add_sub_assoc (by omega), Nat.mul_add_div (by omega),
      Nat.div_eq_of_lt (by omega), Nat.add_zero]
  have allBlocks := Nat.mul_div_cancel' divides
  rw [butterflyStage]
  rw [Nat.mul_comm (2 ^ s) 2, div_eq_ok.mpr ⟨by omega, rfl⟩,
    Checked.ok_bind, blocks]
  generalize 2 ^ logN / (2 * 2 ^ s) = count at allBlocks ⊢
  rw [Checked.foldlM_simulates (encoded (2 ^ logN))
    (fun f q => block (fun j => roots (j * count)) (2 ^ s) (2 * 2 ^ s * q) f)]
  · rw [Checked.ok_bind, Nat.pow_succ']
    rfl
  · intro q member f
    have inBlocks := List.mem_range.mp member
    have blockEnd : 2 * 2 ^ s * q + 2 * 2 ^ s ≤ 2 ^ logN := by
      rw [← allBlocks]
      exact Nat.mul_le_mul_left (2 * 2 ^ s) inBlocks
    apply Checked.foldlM_simulates
    intro j jMember f
    have inHalf := List.mem_range.mp jMember
    apply butterflyAt_encoded
    · rw [← allBlocks]
      have someBlock : 0 < count := Nat.zero_lt_of_lt inBlocks
      calc
        j * count < 2 ^ s * count := Nat.mul_lt_mul_of_pos_right inHalf someBlock
        _ ≤ 2 * 2 ^ s * count := by
          rw [Nat.mul_assoc]
          exact Nat.le_mul_of_pos_left _ Nat.two_pos
    · omega

/-- The whole network on encodings computes the transform of its root. -/
theorem network_encoded
    (domain : NttDomain)
    (omega : ZMod Bn254.order)
    (few : domain.logN ≤ 32)
    (size : domain.n = 2 ^ domain.logN)
    (f : Nat → ZMod Bn254.order) :
    domain.network profile (encoded domain.n (omega ^ ·))
        (encoded domain.n f) =
      .ok (encoded domain.n
        (transform (twiddle omega domain.logN) domain.logN f)) := by
  rw [network, if_pos length_encoded, size,
    bitReversePermutation_encoded few, Checked.ok_bind]
  have loop (g : Nat → ZMod Bn254.order) {done : Nat}
      (enough : done ≤ domain.logN) :
      (List.range done).foldlM
          (butterflyStage profile (2 ^ domain.logN)
            (encoded (2 ^ domain.logN) (omega ^ ·)))
          (encoded (2 ^ domain.logN) g, 1) =
        .ok (encoded (2 ^ domain.logN)
          (stages (twiddle omega domain.logN) domain.logN done g),
            2 ^ done) := by
    induction done with
    | zero =>
        rfl
    | succ done inductionHypothesis =>
        rw [List.range_succ, List.foldlM_append,
          inductionHypothesis (Nat.le_of_succ_le enough), Checked.ok_bind,
          List.foldlM_cons, butterflyStage_encoded enough, Checked.ok_bind,
          List.foldlM_nil, stages, stages, List.range_succ,
          List.foldl_append, List.foldl_cons, List.foldl_nil,
          Checked.pure_eq_ok, ← stages]
        have step : 2 ^ domain.logN / (2 * 2 ^ done) =
            2 ^ (domain.logN - 1 - done) := by
          rw [← Nat.pow_succ', Nat.pow_div enough Nat.two_pos]
          congr 1
          omega
        rw [stage_congr (w := fun j =>
          omega ^ (j * (2 ^ domain.logN / (2 * 2 ^ done))))]
        intro j inHalf
        rw [stageFactor_twiddle omega enough inHalf, step]
  rw [loop _ (Nat.le_refl _), Checked.ok_bind]
  apply congrArg Except.ok
  apply encoded_congr
  intro k inRange
  exact (reversal_reversed few).stages_permute (twiddle_top omega _)
    (twiddle_beyond omega _) f inRange

end Network

end NttDomain

end YieldDaemon
