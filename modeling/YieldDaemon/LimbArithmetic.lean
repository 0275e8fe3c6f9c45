import Mathlib.Data.Nat.Digits.Defs
import YieldDaemon.CheckedArithmetic

namespace LimbArithmetic

open CheckedArithmetic

/-!
# Numbers in 64-bit limbs

A number is the list of its limbs, the least significant one first.  Sums and
differences pass a carry from limb to limb, products are accumulated in double
words, and a Montgomery round divides by the base after it has added the right
multiple of the modulus.
-/

/-- The number that a list of limbs stands for. -/
abbrev value (limbs : List Nat) : Nat :=
  Nat.ofDigits (2 ^ 64) limbs

/-- Every limb fits a machine word. -/
def AreLimbs (limbs : List Nat) : Prop :=
  ∀ limb ∈ limbs, limb < 2 ^ 64

theorem areLimbs_cons {limb : Nat} {limbs : List Nat} :
    AreLimbs (limb :: limbs) ↔ limb < 2 ^ 64 ∧ AreLimbs limbs :=
  List.forall_mem_cons

theorem value_cons (limb : Nat) (limbs : List Nat) :
    value (limb :: limbs) = limb + 2 ^ 64 * value limbs :=
  Nat.ofDigits_cons

theorem value_lt {limbs : List Nat} (areLimbs : AreLimbs limbs) :
    value limbs < (2 ^ 64) ^ limbs.length :=
  Nat.ofDigits_lt_base_pow_length (by norm_num) areLimbs

/-- Limbs of the same length and value are the same. -/
theorem eq_of_value_eq
    {first second : List Nat}
    (sameLength : first.length = second.length)
    (firstLimbs : AreLimbs first)
    (secondLimbs : AreLimbs second)
    (sameValue : value first = value second) :
    first = second :=
  Nat.ofDigits_inj_of_len_eq (by norm_num) sameLength firstLimbs secondLimbs
    sameValue

/-- A limb is the part of the value at its place. -/
theorem limb_eq
    {limbs : List Nat}
    (areLimbs : AreLimbs limbs)
    {i : Nat}
    (inRange : i < limbs.length) :
    limbs[i] = value limbs / 2 ^ (64 * i) % 2 ^ 64 := by
  induction limbs generalizing i with
  | nil =>
      exact absurd inRange (Nat.not_lt_zero i)
  | cons limb limbs inductionHypothesis =>
      obtain ⟨small, areLimbs⟩ := areLimbs_cons.mp areLimbs
      rw [value_cons]
      cases i with
      | zero =>
          rw [Nat.mul_zero, Nat.pow_zero, Nat.div_one, Nat.add_mul_mod_self_left,
            Nat.mod_eq_of_lt small]
          rfl
      | succ i =>
          rw [Nat.mul_succ, Nat.add_comm (64 * i), Nat.pow_add,
            ← Nat.div_div_eq_div_mul,
            Nat.add_mul_div_left _ _ (Nat.two_pow_pos 64),
            Nat.div_eq_of_lt small, Nat.zero_add]
          exact inductionHypothesis areLimbs (Nat.lt_of_succ_lt_succ inRange)

/-- `left.overflowing_add(right)`, with the overflow as a number. -/
def overflowingAdd (left right : Nat) : Nat × Nat :=
  ((left + right) % 2 ^ 64, if left + right < 2 ^ 64 then 0 else 1)

/-- The sum of two limbs and a carry, with the carry out. -/
def addLimb (left right carry : Nat) : Nat × Nat :=
  let sum := overflowingAdd left right
  let carried := overflowingAdd sum.1 carry
  (carried.1, sum.2 + carried.2)

theorem addLimb_value
    {left right carry : Nat}
    (leftLimb : left < 2 ^ 64)
    (rightLimb : right < 2 ^ 64)
    (isBit : carry ≤ 1) :
    (addLimb left right carry).1 + 2 ^ 64 * (addLimb left right carry).2 =
      left + right + carry := by
  unfold addLimb overflowingAdd
  dsimp only
  split <;> split <;> omega

theorem addLimb_lt (left right carry : Nat) :
    (addLimb left right carry).1 < 2 ^ 64 :=
  Nat.mod_lt _ (by norm_num)

/-- The sum of two numbers and a carry, with the carry out. -/
def addLimbs : List Nat → List Nat → Nat → List Nat × Nat
  | left :: lefts, right :: rights, carry =>
    let sum := addLimb left right carry
    let later := addLimbs lefts rights sum.2
    (sum.1 :: later.1, later.2)
  | _, _, carry => ([], carry)

theorem addLimbs_areLimbs (lefts rights : List Nat) (carry : Nat) :
    AreLimbs (addLimbs lefts rights carry).1 := by
  induction lefts, rights, carry using addLimbs.induct with
  | case1 left lefts right rights carry sum inductionHypothesis =>
      exact areLimbs_cons.mpr
        ⟨addLimb_lt left right carry, inductionHypothesis⟩
  | case2 lefts rights carry shape =>
      simp [addLimbs, AreLimbs]

theorem addLimbs_length
    {lefts rights : List Nat}
    (sameLength : lefts.length = rights.length)
    (carry : Nat) :
    (addLimbs lefts rights carry).1.length = lefts.length := by
  induction lefts generalizing rights carry with
  | nil =>
      simp [addLimbs]
  | cons left lefts inductionHypothesis =>
      cases rights with
      | nil =>
          simp at sameLength
      | cons right rights =>
          simp [addLimbs, inductionHypothesis (Nat.succ.inj sameLength)]

/-- The limbs of a sum and its carry make up the exact sum. -/
theorem addLimbs_value
    {lefts rights : List Nat}
    {carry : Nat}
    (sameLength : lefts.length = rights.length)
    (leftLimbs : AreLimbs lefts)
    (rightLimbs : AreLimbs rights)
    (isBit : carry ≤ 1) :
    value (addLimbs lefts rights carry).1 +
        (2 ^ 64) ^ lefts.length * (addLimbs lefts rights carry).2 =
      value lefts + value rights + carry := by
  induction lefts generalizing rights carry with
  | nil =>
      obtain rfl := List.length_eq_zero_iff.mp sameLength.symm
      simp [addLimbs]
  | cons left lefts inductionHypothesis =>
      cases rights with
      | nil =>
          simp at sameLength
      | cons right rights =>
          obtain ⟨leftLimb, leftLimbs⟩ := areLimbs_cons.mp leftLimbs
          obtain ⟨rightLimb, rightLimbs⟩ := areLimbs_cons.mp rightLimbs
          have head := addLimb_value leftLimb rightLimb isBit
          have headBit : (addLimb left right carry).2 ≤ 1 := by omega
          have tail :=
            inductionHypothesis (Nat.succ.inj sameLength) leftLimbs
              rightLimbs headBit
          simp only [addLimbs, value_cons, List.length_cons, pow_succ' (2 ^ 64)]
          linarith [head, congrArg (2 ^ 64 * ·) tail]

/-- `left.overflowing_sub(right)`, with the overflow as a number. -/
def overflowingSub (left right : Nat) : Nat × Nat :=
  if right ≤ left then (left - right, 0) else (left + 2 ^ 64 - right, 1)

/-- The difference of two limbs and a borrow, with the borrow out. -/
def subLimb (left right borrow : Nat) : Nat × Nat :=
  let diff := overflowingSub left right
  let borrowed := overflowingSub diff.1 borrow
  (borrowed.1, diff.2 + borrowed.2)

theorem subLimb_value
    {left right borrow : Nat}
    (leftLimb : left < 2 ^ 64)
    (rightLimb : right < 2 ^ 64)
    (isBit : borrow ≤ 1) :
    (subLimb left right borrow).1 + right + borrow =
        left + 2 ^ 64 * (subLimb left right borrow).2 ∧
      (subLimb left right borrow).1 < 2 ^ 64 := by
  unfold subLimb overflowingSub
  dsimp only
  split <;> split <;> constructor <;> omega

/-- The difference of two numbers and a borrow, with the borrow out. -/
def subLimbs : List Nat → List Nat → Nat → List Nat × Nat
  | left :: lefts, right :: rights, borrow =>
    let diff := subLimb left right borrow
    let later := subLimbs lefts rights diff.2
    (diff.1 :: later.1, later.2)
  | _, _, borrow => ([], borrow)

theorem subLimbs_length
    {lefts rights : List Nat}
    (sameLength : lefts.length = rights.length)
    (borrow : Nat) :
    (subLimbs lefts rights borrow).1.length = lefts.length := by
  induction lefts generalizing rights borrow with
  | nil =>
      simp [subLimbs]
  | cons left lefts inductionHypothesis =>
      cases rights with
      | nil =>
          simp at sameLength
      | cons right rights =>
          simp [subLimbs, inductionHypothesis (Nat.succ.inj sameLength)]

/-- The limbs of a difference and its borrow make up the exact difference. -/
theorem subLimbs_value
    {lefts rights : List Nat}
    {borrow : Nat}
    (sameLength : lefts.length = rights.length)
    (leftLimbs : AreLimbs lefts)
    (rightLimbs : AreLimbs rights)
    (isBit : borrow ≤ 1) :
    value (subLimbs lefts rights borrow).1 + value rights + borrow =
        value lefts +
          (2 ^ 64) ^ lefts.length * (subLimbs lefts rights borrow).2 ∧
      AreLimbs (subLimbs lefts rights borrow).1 := by
  induction lefts generalizing rights borrow with
  | nil =>
      obtain rfl := List.length_eq_zero_iff.mp sameLength.symm
      simp [subLimbs, AreLimbs]
  | cons left lefts inductionHypothesis =>
      cases rights with
      | nil =>
          simp at sameLength
      | cons right rights =>
          obtain ⟨leftLimb, leftLimbs⟩ := areLimbs_cons.mp leftLimbs
          obtain ⟨rightLimb, rightLimbs⟩ := areLimbs_cons.mp rightLimbs
          obtain ⟨head, headLimb⟩ := subLimb_value leftLimb rightLimb isBit
          have headBit : (subLimb left right borrow).2 ≤ 1 := by omega
          obtain ⟨tail, tailLimbs⟩ :=
            inductionHypothesis (Nat.succ.inj sameLength) leftLimbs
              rightLimbs headBit
          refine ⟨?_, areLimbs_cons.mpr ⟨headLimb, tailLimbs⟩⟩
          simp only [subLimbs, value_cons, List.length_cons, pow_succ' (2 ^ 64)]
          linarith [head, congrArg (2 ^ 64 * ·) tail]

/-- A sum that stays below the base has no carry. -/
theorem carry_eq_zero
    {base low carry total : Nat}
    (exact : low + base * carry = total)
    (small : total < base) :
    carry = 0 := by
  by_contra someCarry
  have large : base * 1 ≤ base * carry :=
    Nat.mul_le_mul_left base (Nat.one_le_iff_ne_zero.mpr someCarry)
  omega

/-- A difference of a smaller number from a larger one does not borrow. -/
theorem borrow_eq_zero
    {base left right diff borrow : Nat}
    (exact : diff + right = left + base * borrow)
    (diffLow : diff < base)
    (large : right ≤ left) :
    borrow = 0 := by
  by_contra someBorrow
  have large : base * 1 ≤ base * borrow :=
    Nat.mul_le_mul_left base (Nat.one_le_iff_ne_zero.mpr someBorrow)
  omega

/-- A modulus is added back to a difference that has borrowed. -/
theorem add_back
    {base modulus left right diff borrow sum carry : Nat}
    (room : modulus ≤ base)
    (rightLow : right < modulus)
    (diffLow : diff < base)
    (sumLow : sum < base)
    (exact : diff + right = left + base * borrow)
    (borrowed : 0 < borrow)
    (added : sum + base * carry = diff + modulus) :
    sum + right = left + modulus := by
  have oneBorrow : borrow = 1 := by
    by_contra other
    have large := Nat.mul_le_mul_left base (show 2 ≤ borrow by omega)
    omega
  subst oneBorrow
  have oneCarry : carry = 1 := by
    rcases Nat.lt_trichotomy carry 1 with none | one | more
    · obtain rfl := Nat.lt_one_iff.mp none
      omega
    · exact one
    · have large := Nat.mul_le_mul_left base (show 2 ≤ carry from more)
      omega
  subst oneCarry
  omega

/-- Compare two numbers by their most significant different limb. -/
def compareLimbs : List Nat → List Nat → Ordering
  | left :: lefts, right :: rights =>
    (compareLimbs lefts rights).then (compare left right)
  | _, _ => .eq

theorem compareLimbs_eq
    {lefts rights : List Nat}
    (sameLength : lefts.length = rights.length)
    (leftLimbs : AreLimbs lefts)
    (rightLimbs : AreLimbs rights) :
    compareLimbs lefts rights = compare (value lefts) (value rights) := by
  induction lefts generalizing rights with
  | nil =>
      obtain rfl := List.length_eq_zero_iff.mp sameLength.symm
      simp [compareLimbs]
  | cons left lefts inductionHypothesis =>
      cases rights with
      | nil =>
          simp at sameLength
      | cons right rights =>
          obtain ⟨leftLimb, leftLimbs⟩ := areLimbs_cons.mp leftLimbs
          obtain ⟨rightLimb, rightLimbs⟩ := areLimbs_cons.mp rightLimbs
          rw [compareLimbs,
            inductionHypothesis (Nat.succ.inj sameLength) leftLimbs
              rightLimbs]
          simp only [value_cons]
          rcases lt_trichotomy (value lefts) (value rights) with
            smaller | equal | larger
          · rw [compare_lt_iff_lt.mpr smaller]
            exact (compare_lt_iff_lt.mpr (by omega)).symm
          · rw [compare_eq_iff_eq.mpr equal, equal]
            simp only [Ordering.then]
            rcases lt_trichotomy left right with low | same | high
            · rw [compare_lt_iff_lt.mpr low, compare_lt_iff_lt.mpr (by omega)]
            · rw [same]
              simp
            · rw [compare_gt_iff_gt.mpr high, compare_gt_iff_gt.mpr (by omega)]
          · rw [compare_gt_iff_gt.mpr larger]
            exact (compare_gt_iff_gt.mpr (by omega)).symm

/--
`row += factors * multiplier + carry` in double words, with the carry out.
-/
def mulAddRow (profile : Profile) :
    List Nat → List Nat → Nat → Nat → Checked (List Nat × Nat)
  | limb :: row, factor :: factors, multiplier, carry => do
    let product ← mul profile 128 factor multiplier
    let addend ← add profile 128 product carry
    let wide ← add profile 128 limb addend
    let (later, carryOut) ←
      mulAddRow profile row factors multiplier (wide / 2 ^ 64)
    return (wide % 2 ^ 64 :: later, carryOut)
  | _, _, _, carry => return ([], carry)

/-- A row and the carry out of it add up to the exact sum. -/
structure RowSum
    (row factors : List Nat)
    (multiplier carry : Nat)
    (result : List Nat × Nat) : Prop where
  exact :
    value result.1 + (2 ^ 64) ^ row.length * result.2 =
      value row + value factors * multiplier + carry
  areLimbs : AreLimbs result.1
  sameLength : result.1.length = row.length
  carryLimb : result.2 < 2 ^ 64

/-- No double word of a row overflows. -/
theorem mulAddRow_returns
    (profile : Profile)
    {row factors : List Nat}
    {multiplier carry : Nat}
    (sameLength : row.length = factors.length)
    (rowLimbs : AreLimbs row)
    (factorLimbs : AreLimbs factors)
    (multiplierLimb : multiplier < 2 ^ 64)
    (carryLimb : carry < 2 ^ 64) :
    ∃ result, mulAddRow profile row factors multiplier carry = .ok result ∧
      RowSum row factors multiplier carry result := by
  induction row generalizing factors carry with
  | nil =>
      obtain rfl := List.length_eq_zero_iff.mp sameLength.symm
      exact ⟨([], carry), rfl, by simp, by simp [AreLimbs], rfl, carryLimb⟩
  | cons limb row inductionHypothesis =>
      cases factors with
      | nil =>
          simp at sameLength
      | cons factor factors =>
          obtain ⟨limbLow, rowLimbs⟩ := areLimbs_cons.mp rowLimbs
          obtain ⟨factorLow, factorLimbs⟩ := areLimbs_cons.mp factorLimbs
          have productLow :
              factor * multiplier ≤ (2 ^ 64 - 1) * (2 ^ 64 - 1) :=
            Nat.mul_le_mul (by omega) (by omega)
          have wideFits : limb + (factor * multiplier + carry) < 2 ^ 128 := by
            omega
          have wideCarry :
              (limb + (factor * multiplier + carry)) / 2 ^ 64 < 2 ^ 64 := by
            omega
          obtain ⟨⟨later, carryOut⟩, computed, laterSum⟩ :=
            inductionHypothesis (Nat.succ.inj sameLength) rowLimbs
              factorLimbs wideCarry
          refine ⟨((limb + (factor * multiplier + carry)) % 2 ^ 64 :: later,
            carryOut), ?_, ?_⟩
          · rw [mulAddRow, mul, fit_of_lt (by omega), Checked.ok_bind, add,
              fit_of_lt (by omega), Checked.ok_bind, add,
              fit_of_lt wideFits, Checked.ok_bind, computed]
            rfl
          · constructor
            case exact =>
              have head :=
                Nat.mod_add_div (limb + (factor * multiplier + carry)) (2 ^ 64)
              have tail := laterSum.exact
              simp only [value_cons, List.length_cons,
                pow_succ' (2 ^ 64)] at tail ⊢
              linarith [head, congrArg (2 ^ 64 * ·) tail]
            case areLimbs =>
              exact areLimbs_cons.mpr
                ⟨Nat.mod_lt _ (by norm_num), laterSum.areLimbs⟩
            case sameLength =>
              exact congrArg Nat.succ laterSum.sameLength
            case carryLimb =>
              exact laterSum.carryLimb

/-! Montgomery reduction. -/

/--
One round of a Montgomery product: add `factor * limb`, add the multiple of
the modulus that clears the lowest limb, and drop that limb.
-/
def montRound
    (profile : Profile)
    (modulus : List Nat)
    (inv : Nat)
    (factor : List Nat)
    (t : List Nat)
    (limb : Nat) : Checked (List Nat) := do
  let (row, carry) ← mulAddRow profile t factor limb 0
  let top ← add profile 128 0 carry
  let lowest ← index row 0
  let m := lowest % 2 ^ 64 * inv % 2 ^ 64
  let (reduced, carry) ← mulAddRow profile row modulus m 0
  let top ← add profile 128 top carry
  return reduced.tail ++ [top]

/-- Adding the chosen multiple of the modulus clears the lowest limb. -/
theorem dvd_add_multiple
    (total : Nat)
    {modulus inv : Nat}
    (inverse : inv * modulus % 2 ^ 64 = 2 ^ 64 - 1) :
    2 ^ 64 ∣ total + total % 2 ^ 64 * inv % 2 ^ 64 * modulus := by
  apply (Nat.modEq_zero_iff_dvd).mp
  have inverseMod : inv * modulus + 1 ≡ 0 [MOD 2 ^ 64] := by
    unfold Nat.ModEq
    omega
  calc
    total + total % 2 ^ 64 * inv % 2 ^ 64 * modulus
      ≡ total + total * inv * modulus [MOD 2 ^ 64] := by
        apply Nat.ModEq.add_left
        apply Nat.ModEq.mul_right
        exact (Nat.mod_modEq _ _).trans
          ((Nat.mod_modEq total _).mul_right inv)
    _ = total * (inv * modulus + 1) := by ring
    _ ≡ total * 0 [MOD 2 ^ 64] := inverseMod.mul_left total
    _ = 0 := Nat.mul_zero total

/-- A top limb above a number that is small enough fits a word. -/
theorem top_lt
    {limbs : List Nat}
    {top : Nat}
    (small : value (limbs ++ [top]) < (2 ^ 64) ^ (limbs.length + 1)) :
    top < 2 ^ 64 := by
  rw [value, Nat.ofDigits_append, Nat.ofDigits_singleton, pow_succ] at small
  have scaled :
      (2 ^ 64) ^ limbs.length * top < (2 ^ 64) ^ limbs.length * 2 ^ 64 :=
    (Nat.le_add_left _ _).trans_lt small
  exact Nat.lt_of_mul_lt_mul_left scaled

/-- What a round makes of the accumulator `t`, below a bound. -/
structure RoundSum
    (modulus factor t : List Nat)
    (limb bound : Nat)
    (next : List Nat) : Prop where
  exact :
    ∃ m, 2 ^ 64 * value next =
      value t + value factor * limb + value modulus * m
  bounded : value next < bound
  areLimbs : AreLimbs next
  sameLength : next.length = t.length

/-- A bound of the round's sum bounds what is left of it. -/
theorem bounded_of_exact
    {next total product modulus m bound nextBound : Nat}
    (exact : 2 ^ 64 * next = total + product + modulus * m)
    (bounded : total < bound)
    (fits : bound + product + modulus * (2 ^ 64 - 1) ≤ 2 ^ 64 * nextBound)
    (mLow : m < 2 ^ 64) :
    next < nextBound := by
  have modulusPart : modulus * m ≤ modulus * (2 ^ 64 - 1) :=
    Nat.mul_le_mul_left modulus (by omega)
  omega

section TwoRows

variable
  {t factor modulus higher tail : List Nat}
  {limb inv m lowest cleared rowCarry carry : Nat}

/-- The lowest limb of a row is the sum modulo a word. -/
theorem lowest_mod_eq
    (rowSum : RowSum t factor limb 0 (lowest :: higher, rowCarry)) :
    lowest % 2 ^ 64 = (value t + value factor * limb) % 2 ^ 64 := by
  have tLength : t.length = higher.length + 1 := rowSum.sameLength.symm
  have rowExact := rowSum.exact
  simp only [value_cons, tLength, Nat.add_zero, pow_succ' (2 ^ 64)]
    at rowExact
  have shape :
      value t + value factor * limb =
        lowest + 2 ^ 64 *
          (value higher + (2 ^ 64) ^ higher.length * rowCarry) := by
    linarith [rowExact]
  rw [shape, Nat.add_mul_mod_self_left]

/-- Both rows of a round and their carries add up to the exact sum. -/
theorem twoRows_exact
    (rowSum : RowSum t factor limb 0 (lowest :: higher, rowCarry))
    (reducedSum :
      RowSum (lowest :: higher) modulus m 0 (cleared :: tail, carry)) :
    cleared + 2 ^ 64 * value (tail ++ [rowCarry + carry]) =
      value t + value factor * limb + value modulus * m := by
  have tLength : t.length = higher.length + 1 := rowSum.sameLength.symm
  have tailLength : tail.length = higher.length :=
    Nat.succ.inj reducedSum.sameLength
  have rowExact := rowSum.exact
  have reducedExact := reducedSum.exact
  simp only [value_cons, List.length_cons, tLength, Nat.add_zero,
    pow_succ' (2 ^ 64)] at rowExact reducedExact
  have nextValue :
      value (tail ++ [rowCarry + carry]) =
        value tail + (2 ^ 64) ^ higher.length * (rowCarry + carry) := by
    rw [value, Nat.ofDigits_append, Nat.ofDigits_singleton, tailLength]
  rw [nextValue]
  linarith [rowExact, reducedExact]

/-- The multiple of the modulus that a round adds clears the lowest limb. -/
theorem cleared_eq_zero
    (inverse : inv * value modulus % 2 ^ 64 = 2 ^ 64 - 1)
    (rowSum : RowSum t factor limb 0 (lowest :: higher, rowCarry))
    (reducedSum :
      RowSum (lowest :: higher) modulus (lowest % 2 ^ 64 * inv % 2 ^ 64) 0
        (cleared :: tail, carry)) :
    cleared = 0 := by
  have divides :=
    dvd_add_multiple (value t + value factor * limb) inverse
  rw [← lowest_mod_eq rowSum, Nat.mul_comm _ (value modulus),
    ← twoRows_exact rowSum reducedSum] at divides
  have dividesCleared : 2 ^ 64 ∣ cleared :=
    (Nat.dvd_add_left (Nat.dvd_mul_right _ _)).mp divides
  exact Nat.eq_zero_of_dvd_of_lt dividesCleared
    (areLimbs_cons.mp reducedSum.areLimbs).1

end TwoRows

theorem montRound_returns
    (profile : Profile)
    {modulus factor t : List Nat}
    {inv limb bound nextBound : Nat}
    (inverse : inv * value modulus % 2 ^ 64 = 2 ^ 64 - 1)
    (fits :
      bound + value factor * limb + value modulus * (2 ^ 64 - 1) ≤
        2 ^ 64 * nextBound)
    (room : nextBound ≤ (2 ^ 64) ^ t.length)
    (factorLength : t.length = factor.length)
    (modulusLength : t.length = modulus.length)
    (modulusLimbs : AreLimbs modulus)
    (factorLimbs : AreLimbs factor)
    (tLimbs : AreLimbs t)
    (limbLow : limb < 2 ^ 64)
    (bounded : value t < bound) :
    ∃ next, montRound profile modulus inv factor t limb = .ok next ∧
      RoundSum modulus factor t limb nextBound next := by
  obtain ⟨⟨row, rowCarry⟩, rowEq, rowSum⟩ :=
    mulAddRow_returns profile factorLength tLimbs factorLimbs limbLow
      (Nat.two_pow_pos 64)
  have rowLength := rowSum.sameLength
  have rowCarryLow := rowSum.carryLimb
  cases row with
  | nil =>
      -- A modulus without limbs has no inverse.
      obtain rfl : modulus = [] :=
        List.length_eq_zero_iff.mp (modulusLength ▸ rowLength.symm)
      simp at inverse
  | cons lowest higher =>
      have mLow : lowest % 2 ^ 64 * inv % 2 ^ 64 < 2 ^ 64 :=
        Nat.mod_lt _ (by norm_num)
      obtain ⟨⟨reduced, carry⟩, reducedEq, reducedSum⟩ :=
        mulAddRow_returns profile (rowLength.trans modulusLength)
          rowSum.areLimbs modulusLimbs mLow (Nat.two_pow_pos 64)
      have reducedLength := reducedSum.sameLength
      have carryLow := reducedSum.carryLimb
      cases reduced with
      | nil =>
          simp at reducedLength
      | cons cleared tail =>
          have tailLength : tail.length = higher.length :=
            Nat.succ.inj reducedLength
          have tLength : t.length = higher.length + 1 := rowLength.symm
          have exact := twoRows_exact rowSum reducedSum
          rw [cleared_eq_zero inverse rowSum reducedSum, Nat.zero_add]
            at exact
          have nextBounded := bounded_of_exact exact bounded fits mLow
          refine ⟨tail ++ [rowCarry + carry], ?computed,
            ⟨_, exact⟩, nextBounded, ?areLimbs, ?sameLength⟩
          case computed =>
            rw [montRound, rowEq]
            simp only [add, Checked.ok_bind, Nat.zero_add]
            rw [fit_of_lt (by omega), Checked.ok_bind,
              index_of_lt (by simp), Checked.ok_bind]
            simp only [List.getElem_cons_zero]
            rw [reducedEq, Checked.ok_bind]
            simp only [fit_of_lt (by omega : rowCarry + carry < 2 ^ 128)]
            rfl
          case areLimbs =>
            intro other member
            rcases List.mem_append.mp member with inTail | isTop
            · exact (areLimbs_cons.mp reducedSum.areLimbs).2 other inTail
            · obtain rfl := List.mem_singleton.mp isTop
              have small := nextBounded.trans_le room
              rw [tLength, ← tailLength] at small
              exact top_lt small
          case sameLength =>
            simp [tailLength, tLength]

/-- Bounds of the accumulator before, between and after the rounds. -/
inductive RoundsFit (factor modulus room : Nat) :
    Nat → List Nat → Nat → Prop where
  | nil (bound : Nat) :
      RoundsFit factor modulus room bound [] bound
  | cons
      {bound finalBound limb : Nat}
      {limbs : List Nat}
      (nextBound : Nat)
      (fits :
        bound + factor * limb + modulus * (2 ^ 64 - 1) ≤ 2 ^ 64 * nextBound)
      (inRoom : nextBound ≤ room)
      (later : RoundsFit factor modulus room nextBound limbs finalBound) :
      RoundsFit factor modulus room bound (limb :: limbs) finalBound

/-- Below the sum of the factor and the modulus the rounds stay below it. -/
theorem RoundsFit.constant
    {factor modulus room : Nat}
    {limbs : List Nat}
    (inRoom : factor + modulus ≤ room)
    (limbsLow : AreLimbs limbs) :
    RoundsFit factor modulus room (factor + modulus) limbs
      (factor + modulus) := by
  induction limbs with
  | nil =>
      exact .nil _
  | cons limb limbs inductionHypothesis =>
      obtain ⟨limbLow, laterLow⟩ := areLimbs_cons.mp limbsLow
      refine .cons _ ?_ inRoom (inductionHypothesis laterLow)
      have factorPart : factor * limb ≤ factor * (2 ^ 64 - 1) :=
        Nat.mul_le_mul_left factor (by omega)
      omega

/-- What the rounds for all limbs of the other factor make of `t`. -/
structure RoundsSum
    (modulus factor t limbs : List Nat)
    (bound : Nat)
    (final : List Nat) : Prop where
  exact :
    ∃ m, (2 ^ 64) ^ limbs.length * value final =
      value t + value factor * value limbs + value modulus * m
  bounded : value final < bound
  areLimbs : AreLimbs final
  sameLength : final.length = t.length

theorem montRounds_return
    (profile : Profile)
    {modulus factor t limbs : List Nat}
    {inv bound finalBound : Nat}
    (inverse : inv * value modulus % 2 ^ 64 = 2 ^ 64 - 1)
    (fit :
      RoundsFit (value factor) (value modulus) ((2 ^ 64) ^ t.length) bound
        limbs finalBound)
    (factorLength : t.length = factor.length)
    (modulusLength : t.length = modulus.length)
    (modulusLimbs : AreLimbs modulus)
    (factorLimbs : AreLimbs factor)
    (tLimbs : AreLimbs t)
    (limbsLow : AreLimbs limbs)
    (bounded : value t < bound) :
    ∃ final,
      limbs.foldlM (montRound profile modulus inv factor) t = .ok final ∧
        RoundsSum modulus factor t limbs finalBound final := by
  induction limbs generalizing t bound with
  | nil =>
      cases fit
      exact ⟨t, rfl, ⟨0, by simp⟩, bounded, tLimbs, rfl⟩
  | cons limb limbs inductionHypothesis =>
      obtain ⟨limbLow, laterLow⟩ := areLimbs_cons.mp limbsLow
      cases fit with
      | cons nextBound fits inRoom later =>
          obtain ⟨next, nextEq, round⟩ :=
            montRound_returns profile inverse fits inRoom factorLength
              modulusLength modulusLimbs factorLimbs tLimbs limbLow bounded
          have nextLength := round.sameLength
          obtain ⟨final, finalEq, rounds⟩ :=
            inductionHypothesis (nextLength ▸ later)
              (nextLength.trans factorLength)
              (nextLength.trans modulusLength) round.areLimbs laterLow
              round.bounded
          refine ⟨final, ?computed, ?exact, rounds.bounded, rounds.areLimbs,
            rounds.sameLength.trans nextLength⟩
          case computed =>
            rw [List.foldlM_cons, nextEq, Checked.ok_bind, finalEq]
          case exact =>
            obtain ⟨m, roundExact⟩ := round.exact
            obtain ⟨later, roundsExact⟩ := rounds.exact
            refine ⟨m + 2 ^ 64 * later, ?_⟩
            simp only [value_cons, List.length_cons, pow_succ' (2 ^ 64)]
            linarith [roundExact, congrArg (2 ^ 64 * ·) roundsExact]

end LimbArithmetic
