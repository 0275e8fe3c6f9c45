import Mathlib.NumberTheory.LegendreSymbol.Basic
import YieldDaemon.SmallFields
import YieldDaemon.TonelliShanks
import YieldDaemon.WhileLoop

namespace YieldDaemon

open CheckedArithmetic
open WhileLoop

/-!
# Modular square roots

The algorithm of Tonelli and Shanks over `u64`.  Its loops have no bound in the
source, so they run with fuel here.  The Legendre symbol is asked first, and
anything but a symbol of 1 has no root.
-/

/-- Legendre symbol: (a/p) for primality and quadratic residue tests. -/
def legendreSymbol (profile : Profile) (a p : Nat) : Checked Int := do
  let order ← sub profile 64 p 1
  let r ← modPow profile a (order / 2) p
  return (if r = 0 then 0 else if r = 1 then 1 else -1)

/-- `p - 1 = q * 2^s`, as far as it is factored. -/
structure TwoFactors where
  q : Nat
  s : Nat
  deriving Repr, DecidableEq

/-- Move one factor 2 from `q` to the power. -/
def halveFactor
    (profile : Profile)
    (factors : TwoFactors) :
    Fueled TwoFactors := do
  let s ← add profile 32 factors.s 1
  return { q := factors.q / 2, s := s }

/-- Factor p - 1 = Q * 2^S. -/
def factorTwos (profile : Profile) (fuel p : Nat) : Fueled TwoFactors := do
  let q ← sub profile 64 p 1
  whileLoop
    (fun factors => .ok (factors.q % 2 = 0))
    (fun _ => halveFactor profile)
    fuel
    { q := q, s := 0 }

/-- Find quadratic non-residue. -/
def findNonResidue (profile : Profile) (fuel p : Nat) : Fueled Nat :=
  whileLoop
    (fun z => do
      let symbol ← legendreSymbol profile z p
      return symbol ≠ -1)
    (fun _ z => add profile 64 z 1)
    fuel
    2

/-- A power of `t` and the number of squarings that led to it. -/
structure OrderSearch where
  tmp : Nat
  i : Nat
  deriving Repr, DecidableEq

/-- Square the power once more. -/
def squarePower
    (profile : Profile)
    (reducer : BarrettReducer)
    (search : OrderSearch) :
    Fueled OrderSearch := do
  let square ← mul profile 128 search.tmp search.tmp
  let tmp ← reducer.reduce square
  let i ← add profile 32 search.i 1
  return { tmp := tmp, i := i }

/-- Find least i such that t^(2^i) ≡ 1. -/
def findOrder
    (profile : Profile)
    (reducer : BarrettReducer)
    (fuel t : Nat) :
    Fueled OrderSearch :=
  whileLoop
    (fun search => .ok (search.tmp ≠ 1))
    (fun _ => squarePower profile reducer)
    fuel
    { tmp := t, i := 0 }

/-- The variables of the main loop. -/
structure RootSearch where
  m : Nat
  c : Nat
  t : Nat
  r : Nat
  deriving Repr, DecidableEq

/-- One round of the main loop. -/
def correctRoot
    (profile : Profile)
    (reducer : BarrettReducer)
    (p fuel : Nat)
    (search : RootSearch) :
    Fueled RootSearch := do
  let found ← findOrder profile reducer fuel search.t
  let gap ← sub profile 32 search.m found.i
  let bits ← sub profile 32 gap 1
  let power ← shl profile 64 1 bits
  let b ← modPow profile search.c power p
  let cProduct ← mul profile 128 b b
  let c ← reducer.reduce cProduct
  let tProduct ← mul profile 128 search.t c
  let t ← reducer.reduce tProduct
  let rProduct ← mul profile 128 search.r b
  let r ← reducer.reduce rProduct
  return { m := found.i, c := c, t := t, r := r }

/-- Tonelli-Shanks algorithm for modular square root. -/
def modSqrt (profile : Profile) (a p fuel : Nat) : Fueled (Option Nat) := do
  let symbol ← legendreSymbol profile a p
  if symbol ≠ 1 then
    return none
  else if a = 0 then
    return some 0
  else if p % 4 = 3 then
    let next ← add profile 64 p 1
    let root ← modPow profile a (next / 4) p
    return some root
  else
    let factors ← factorTwos profile fuel p
    let z ← findNonResidue profile fuel p
    let reducer ← BarrettReducer.new profile p
    let c ← modPow profile z factors.q p
    let t ← modPow profile a factors.q p
    let q ← add profile 64 factors.q 1
    let r ← modPow profile a (q / 2) p
    let search ←
      whileLoop
        (fun search => .ok (search.t ≠ 1))
        (correctRoot profile reducer p)
        fuel
        { m := factors.s, c := c, t := t, r := r }
    return some search.r

/-- The reducer and the variables with which the main loop starts. -/
def startRootSearch
    (profile : Profile)
    (a p fuel : Nat) :
    Fueled (BarrettReducer × RootSearch) := do
  let factors ← factorTwos profile fuel p
  let z ← findNonResidue profile fuel p
  let reducer ← BarrettReducer.new profile p
  let c ← modPow profile z factors.q p
  let t ← modPow profile a factors.q p
  let q ← add profile 64 factors.q 1
  let r ← modPow profile a (q / 2) p
  return (reducer, { m := factors.s, c := c, t := t, r := r })

/-- The main loop goes on until `t` is 1. -/
def offByFactor (search : RootSearch) : Checked Bool :=
  .ok (search.t ≠ 1)

/-- With a symbol of 1 the main loop decides, unless a power does. -/
theorem modSqrt_eq_loop
    {profile : Profile}
    {a p : Nat}
    (symbol : legendreSymbol profile a p = .ok 1)
    (notZero : a ≠ 0)
    (notThree : p % 4 ≠ 3)
    (fuel : Nat) :
    modSqrt profile a p fuel = (do
      let (reducer, start) ← startRootSearch profile a p fuel
      let search ←
        whileLoop offByFactor (correctRoot profile reducer p) fuel start
      return some search.r) := by
  have asked :
      (liftM (legendreSymbol profile a p) : Fueled Int) = pure 1 :=
    lift_eq_pure.mpr symbol
  rw [modSqrt, asked, pure_bind]
  simp only [ne_eq, not_true_eq_false, if_false, if_neg notZero,
    if_neg notThree, startRootSearch, bind_assoc, pure_bind]
  rfl

section Factors

variable
  {profile : Profile}
  {p : Nat}
  {factors : TwoFactors}

/-- While `q * 2^s` is `p - 1`, there are few factors of 2. -/
theorem factors_short
    (large : 2 < p)
    (small : p < 2 ^ 63)
    (product : factors.q * 2 ^ factors.s = p - 1) :
    0 < factors.q ∧ factors.s ≤ 62 := by
  have positive : 0 < factors.q := by
    rcases Nat.eq_zero_or_pos factors.q with isZero | positive
    · rw [isZero, zero_mul] at product
      omega
    · exact positive
  have power : 2 ^ factors.s ≤ p - 1 :=
    product ▸ Nat.le_mul_of_pos_left _ positive
  have bounded : 2 ^ factors.s < 2 ^ 63 := by omega
  exact ⟨positive,
    Nat.le_of_lt_succ ((Nat.pow_lt_pow_iff_right Nat.one_lt_two).mp bounded)⟩

/-- A round keeps the product and makes `q` smaller. -/
theorem halveFactor_ends
    (large : 2 < p)
    (small : p < 2 ^ 63)
    (product : factors.q * 2 ^ factors.s = p - 1)
    (even : factors.q % 2 = 0) :
    ∃ next,
      EndsWith (fun _ => halveFactor profile factors) next ∧
        next.q * 2 ^ next.s = p - 1 ∧ next.q < factors.q := by
  obtain ⟨positive, bounded⟩ := factors_short large small product
  refine ⟨⟨factors.q / 2, factors.s + 1⟩,
    .lift_bind (add_of_lt (by omega)) (.pure _), ?_,
    Nat.div_lt_self positive Nat.one_lt_two⟩
  calc
    factors.q / 2 * 2 ^ (factors.s + 1) =
        factors.q / 2 * 2 * 2 ^ factors.s := by ring
    _ = p - 1 := by
      rw [Nat.div_mul_cancel (Nat.dvd_of_mod_eq_zero even), product]

/-- The loop over the factors of 2 ends with an odd number. -/
theorem factorTwos_ends
    (profile : Profile)
    (large : 2 < p)
    (small : p < 2 ^ 63) :
    ∃ factors,
      EndsWith (fun fuel => factorTwos profile fuel p) factors ∧
        factors.q * 2 ^ factors.s = p - 1 ∧ factors.q % 2 = 1 := by
  obtain ⟨factors, ends, product, isOdd⟩ :=
    whileLoop_ends
      (fun factors => .ok (factors.q % 2 = 0))
      (fun _ => halveFactor profile)
      (fun factors => factors.q * 2 ^ factors.s = p - 1)
      (fun factors => factors.q % 2 = 0)
      TwoFactors.q
      (fun _ _ => rfl)
      (fun _ product even => halveFactor_ends large small product even)
      ⟨p - 1, 0⟩
      (mul_one (p - 1))
  exact ⟨factors, .lift_bind (sub_of_le (Nat.one_le_of_lt large)) ends, product,
    Nat.mod_two_ne_zero.mp isOdd⟩

/-- Half of the group order, by its factors. -/
theorem halfOrder_eq
    (large : 2 < p)
    (small : p < 2 ^ 63)
    (isOdd : p % 2 = 1)
    (product : factors.q * 2 ^ factors.s = p - 1)
    (oddFactor : factors.q % 2 = 1) :
    factors.s ≤ 62 ∧ 0 < factors.s ∧
      factors.q * 2 ^ (factors.s - 1) = p / 2 := by
  have positive : 0 < factors.s := by
    rcases Nat.eq_zero_or_pos factors.s with isZero | positive
    · rw [isZero, pow_zero, mul_one] at product
      omega
    · exact positive
  have twice : factors.q * 2 ^ (factors.s - 1) * 2 = p - 1 := by
    rw [mul_assoc, ← pow_succ, Nat.sub_add_cancel positive, product]
  exact ⟨(factors_short large small product).2, positive, by omega⟩

end Factors

section Fields

variable
  {profile : Profile}
  {p : Nat}
  [prime : Fact p.Prime]

/-- Powers are those of the field. -/
theorem modPow_field
    (small : p < 2 ^ 63)
    (a exp : Nat) :
    modPow profile a exp p = .ok ((a : ZMod p) ^ exp).val := by
  have exact : (if exp = 0 then 1 else a ^ exp % p) = a ^ exp % p := by
    split
    · next isZero =>
        rw [isZero, pow_zero, Nat.mod_eq_of_lt prime.out.one_lt]
    · rfl
  rw [modPow_eq profile a exp prime.out.pos small, exact, ← Nat.cast_pow,
    ZMod.val_natCast]

/-- Powers of a reduced value. -/
theorem modPow_val
    (small : p < 2 ^ 63)
    (x : ZMod p)
    (exp : Nat) :
    modPow profile x.val exp p = .ok (x ^ exp).val := by
  rw [modPow_field small, ZMod.natCast_zmod_val]

/-- Reduced products are those of the field. -/
theorem reduceMul_val
    {reducer : BarrettReducer}
    (small : p < 2 ^ 63)
    (modulus : reducer.modulus = p)
    (x y : ZMod p) :
    (mul profile 128 x.val y.val >>= reducer.reduce) = .ok (x * y).val := by
  subst modulus
  have fits (z : ZMod reducer.modulus) : z.val < 2 ^ 64 :=
    (ZMod.val_lt z).trans (small.trans (by decide))
  rw [BarrettReducer.reduceMul_eq prime.out.pos (small.trans (by decide))
    (fits x) (fits y), ZMod.val_mul]

theorem val_eq_one_iff (x : ZMod p) : x.val = 1 ↔ x = 1 := by
  have : Fact (1 < p) := ⟨prime.out.one_lt⟩
  rw [← ZMod.val_one p]
  exact (ZMod.val_injective p).eq_iff

/-- The computed symbol is the Legendre symbol. -/
theorem legendreSymbol_eq
    (odd : p ≠ 2)
    (small : p < 2 ^ 63)
    (a : Nat) :
    legendreSymbol profile a p = .ok (legendreSym p a) := by
  have isOdd : p % 2 = 1 := prime.out.eq_two_or_odd.resolve_left odd
  have large : 2 < p := prime.out.two_le.lt_of_ne' odd
  have half : (p - 1) / 2 = p / 2 := by omega
  have power : (a : ZMod p) ^ (p / 2) = (legendreSym p a : ZMod p) := by
    rw [legendreSym.eq_pow, Int.cast_natCast]
  rw [legendreSymbol, sub_of_le prime.out.one_le, Checked.ok_bind,
    modPow_field small, Checked.ok_bind, half, power, Checked.pure_eq_ok]
  apply congrArg Except.ok
  by_cases isZero : ((a : Int) : ZMod p) = 0
  · rw [(legendreSym.eq_zero_iff p a).mpr isZero]
    simp
  · rcases legendreSym.eq_one_or_neg_one p isZero with isOne | isMinusOne
    · rw [isOne, Int.cast_one, if_neg (by simp [ZMod.val_eq_zero]),
        if_pos ((val_eq_one_iff 1).mpr rfl)]
    · have : Fact (2 < p) := ⟨large⟩
      have notOne : ((-1 : Int) : ZMod p) ≠ 1 := by
        rw [Int.cast_neg, Int.cast_one]
        exact ZMod.neg_one_ne_one
      rw [isMinusOne, if_neg (by simp [ZMod.val_eq_zero]),
        if_neg (notOne ∘ (val_eq_one_iff _).mp)]

/-- There is a number without a square root, and it is at least 2. -/
theorem exists_nonResidue (odd : p ≠ 2) :
    ∃ z : Nat, 2 ≤ z ∧ z < p ∧ legendreSym p z = -1 := by
  have characteristic : ringChar (ZMod p) ≠ 2 := by
    rwa [ZMod.ringChar_zmod_n]
  obtain ⟨z, notSquare⟩ := FiniteField.exists_nonsquare characteristic
  have notZero : z.val ≠ 0 := by
    intro isZero
    rw [(ZMod.val_eq_zero z).mp isZero] at notSquare
    exact notSquare (IsSquare.zero)
  have notOne : z.val ≠ 1 := by
    intro isOne
    rw [(val_eq_one_iff z).mp isOne] at notSquare
    exact notSquare (IsSquare.one)
  refine ⟨z.val, by omega, ZMod.val_lt z, (legendreSym.eq_neg_one_iff p).mpr ?_⟩
  rwa [Int.cast_natCast, ZMod.natCast_zmod_val]

/-- The search for a non-residue ends with one. -/
theorem findNonResidue_ends
    (profile : Profile)
    (odd : p ≠ 2)
    (small : p < 2 ^ 63) :
    ∃ z,
      EndsWith (fun fuel => findNonResidue profile fuel p) z ∧
        z < p ∧ legendreSym p z = -1 := by
  obtain ⟨first, atLeast, below, nonResidue⟩ := exists_nonResidue odd
  obtain ⟨z, ends, notBeyond, isNonResidue⟩ :=
    whileLoop_ends
      (fun z => do
        let symbol ← legendreSymbol profile z p
        return symbol ≠ -1)
      (fun _ z => liftM (add profile 64 z 1))
      (fun z => z ≤ first)
      (fun z => legendreSym p z ≠ -1)
      (fun z => first - z)
      (fun z _ => by
        rw [legendreSymbol_eq odd small, Checked.ok_bind,
          Checked.pure_eq_ok])
      (by
        intro z notBeyond residue
        have notFirst : z ≠ first := fun same => residue (same ▸ nonResidue)
        refine ⟨z + 1, ?_, by omega, by omega⟩
        rw [add_of_lt (by omega)]
        exact .pure (z + 1))
      2 atLeast
  exact ⟨z, ends, notBeyond.trans_lt below, not_not.mp isNonResidue⟩

section Orders

variable
  {reducer : BarrettReducer}
  {t : ZMod p}
  {bound : Nat}

/-- The search holds a power of `t`, and passed no 1 before it. -/
structure OrderSearch.Keeps (t : ZMod p) (search : OrderSearch) : Prop where
  power : search.tmp = (t ^ 2 ^ search.i).val
  passed : ∀ j < search.i, t ^ 2 ^ j ≠ 1

/-- A search that has not met 1 is below every order. -/
theorem OrderSearch.Keeps.below
    {search : OrderSearch}
    (keeps : search.Keeps t)
    (order : t ^ 2 ^ bound = 1)
    (notOne : search.tmp ≠ 1) :
    search.i < bound := by
  have current : t ^ 2 ^ search.i ≠ 1 := fun isOne =>
    notOne (keeps.power.trans ((val_eq_one_iff _).mpr isOne))
  by_contra beyond
  rcases (Nat.not_lt.mp beyond).lt_or_eq with passed | reached
  · exact keeps.passed bound passed order
  · exact current (reached ▸ order)

/-- A round squares the power. -/
theorem squarePower_ends
    {search : OrderSearch}
    (small : p < 2 ^ 63)
    (modulus : reducer.modulus = p)
    (short : bound ≤ 62)
    (order : t ^ 2 ^ bound = 1)
    (keeps : search.Keeps t)
    (notOne : search.tmp ≠ 1) :
    ∃ next,
      EndsWith (fun _ => squarePower profile reducer search) next ∧
        next.Keeps t ∧ bound - next.i < bound - search.i := by
  have below := keeps.below order notOne
  have squared :
      (mul profile 128 search.tmp search.tmp >>= reducer.reduce) =
        .ok (t ^ 2 ^ (search.i + 1)).val := by
    rw [keeps.power, reduceMul_val small modulus, ← pow_two, ← pow_mul,
      ← pow_succ]
  refine ⟨⟨(t ^ 2 ^ (search.i + 1)).val, search.i + 1⟩,
    .lift_bind_bind squared (.lift_bind (add_of_lt (by omega)) (.pure _)),
    ⟨rfl, ?_⟩, Nat.sub_lt_sub_left below (Nat.lt_succ_self _)⟩
  intro j passed
  rcases (Nat.le_of_lt_succ passed).lt_or_eq with earlier | current
  · exact keeps.passed j earlier
  · rw [current]
    exact fun isOne =>
      notOne (keeps.power.trans ((val_eq_one_iff _).mpr isOne))

/-- The search ends with the least order. -/
theorem findOrder_ends
    (profile : Profile)
    (small : p < 2 ^ 63)
    (modulus : reducer.modulus = p)
    (short : bound ≤ 62)
    (order : t ^ 2 ^ bound = 1) :
    ∃ found,
      EndsWith (fun fuel => findOrder profile reducer fuel t.val) found ∧
        TonelliShanks.LeastOrder t found.i := by
  obtain ⟨found, ends, keeps, isOne⟩ :=
    whileLoop_ends
      (fun search => .ok (search.tmp ≠ 1))
      (fun _ => squarePower profile reducer)
      (OrderSearch.Keeps t)
      (fun search => search.tmp ≠ 1)
      (fun search => bound - search.i)
      (fun _ _ => rfl)
      (fun _ keeps notOne =>
        squarePower_ends small modulus short order keeps notOne)
      ⟨t.val, 0⟩
      ⟨by rw [pow_zero, pow_one], nofun⟩
  have power : t ^ 2 ^ found.i = 1 :=
    (val_eq_one_iff _).mp (keeps.power.symm.trans (not_not.mp isOne))
  exact ⟨found, ends, power, keeps.passed⟩

end Orders

section Roots

variable
  {reducer : BarrettReducer}
  {a : ZMod p}
  {search : RootSearch}

/-- The variables of the loop stand for field elements that make progress. -/
inductive RootSearch.Keeps (a : ZMod p) : RootSearch → Prop where
  | progress
      {m : Nat}
      {c t r : ZMod p}
      (short : m ≤ 63)
      (progress : TonelliShanks.Progress a m c t r) :
      RootSearch.Keeps a ⟨m, c.val, t.val, r.val⟩

/-- A round finds a smaller order and makes progress on it. -/
theorem correctRoot_finds
    (profile : Profile)
    (small : p < 2 ^ 63)
    (modulus : reducer.modulus = p)
    (keeps : search.Keeps a)
    (notDone : search.t ≠ 1) :
    ∃ found next,
      EndsWith (fun fuel => findOrder profile reducer fuel search.t) found ∧
        found.i < search.m ∧
        EndsWith (fun fuel => correctRoot profile reducer p fuel search)
          next ∧
        next.m = found.i ∧ next.Keeps a := by
  obtain @⟨m, c, t, r, short, progress⟩ := keeps
  have notOne : t ≠ 1 := fun isOne =>
    notDone ((val_eq_one_iff t).mpr isOne)
  obtain ⟨found, foundEnds, least⟩ :=
    findOrder_ends profile small modulus
      (show m - 1 ≤ 62 by omega) progress.order
  have below : found.i < m := by
    have bounded := progress.le_bound least.least
    have positive := progress.positive
    omega
  have gap : 1 ≤ m - found.i := by omega
  have bits : m - found.i - 1 < 64 := by omega
  let b := c ^ 2 ^ (m - found.i - 1)
  refine ⟨found, ⟨found.i, (b * b).val, (t * (b * b)).val, (r * b).val⟩,
    foundEnds, below, ?_, rfl,
    .progress (by omega) (progress.next least notOne rfl)⟩
  exact .bind foundEnds
    (.lift_bind (sub_of_le below.le)
      (.lift_bind (sub_of_le gap)
        (.lift_bind (shl_one bits)
          (.lift_bind (modPow_val small c _)
            (.lift_bind_bind (reduceMul_val small modulus b b)
              (.lift_bind_bind (reduceMul_val small modulus t (b * b))
                (.lift_bind_bind (reduceMul_val small modulus r b)
                  (.pure _))))))))

/-- The main loop ends with a root. -/
theorem correctRoot_loop_ends
    (profile : Profile)
    (small : p < 2 ^ 63)
    (modulus : reducer.modulus = p)
    (keeps : search.Keeps a) :
    ∃ final x,
      EndsWith
          (fun fuel =>
            whileLoop offByFactor (correctRoot profile reducer p) fuel search)
          final ∧
        final.r = (x : ZMod p).val ∧ x ^ 2 = a := by
  obtain ⟨final, ends, @⟨m, c, t, r, short, progress⟩, isOne⟩ :=
    whileLoop_ends offByFactor
      (correctRoot profile reducer p)
      (RootSearch.Keeps a)
      (fun search => search.t ≠ 1)
      RootSearch.m
      (fun _ _ => rfl)
      (fun search keeps notDone => by
        obtain ⟨found, next, -, below, round, isFound, nextKeeps⟩ :=
          correctRoot_finds profile small modulus keeps notDone
        exact ⟨next, round, nextKeeps, isFound ▸ below⟩)
      search keeps
  have done : t = 1 := (val_eq_one_iff t).mp (not_not.mp isOne)
  exact ⟨_, r, ends, rfl, progress.done done⟩

end Roots

section Results

variable {a : Nat}

/-- Without a symbol of 1 there is no root. -/
theorem modSqrt_none
    (odd : p ≠ 2)
    (small : p < 2 ^ 63)
    (noSquare : legendreSym p a ≠ 1) :
    EndsWith (modSqrt profile a p) none := by
  refine .lift_bind (legendreSymbol_eq odd small a) ?_
  simp only [if_pos noSquare]
  exact .pure none

/-- For p = 3 mod 4 a power is a root. -/
theorem root_of_three_mod_four
    (three : p % 4 = 3)
    {x : ZMod p}
    (square : x ^ (p / 2) = 1) :
    (x ^ ((p + 1) / 4)) ^ 2 = x := by
  have exponents : (p + 1) / 4 * 2 = p / 2 + 1 := by omega
  rw [← pow_mul, exponents, pow_succ, square, one_mul]

/-- With a symbol of 1 the main loop starts with progress to make. -/
theorem startRootSearch_ends
    (profile : Profile)
    (odd : p ≠ 2)
    (small : p < 2 ^ 63)
    (isSquare : legendreSym p a = 1) :
    ∃ reducer start,
      EndsWith (fun fuel => startRootSearch profile a p fuel)
          (reducer, start) ∧
        reducer.modulus = p ∧ start.Keeps (a : ZMod p) := by
  have large : 2 < p := prime.out.two_le.lt_of_ne' odd
  have isOdd : p % 2 = 1 := prime.out.eq_two_or_odd.resolve_left odd
  have half (z : Nat) :
      (z : ZMod p) ^ (p / 2) = (legendreSym p z : ZMod p) := by
    rw [legendreSym.eq_pow, Int.cast_natCast]
  obtain ⟨factors, factorsEnds, product, oddFactor⟩ :=
    factorTwos_ends profile large small
  obtain ⟨z, zEnds, -, nonResidue⟩ := findNonResidue_ends profile odd small
  obtain ⟨reducer, built, modulus⟩ :=
    BarrettReducer.new_returns profile prime.out.pos small
  obtain ⟨short, positive, exponent⟩ :=
    halfOrder_eq large small isOdd product oddFactor
  have progress :
      TonelliShanks.Progress (a : ZMod p) factors.s
        ((z : ZMod p) ^ factors.q) ((a : ZMod p) ^ factors.q)
        ((a : ZMod p) ^ ((factors.q + 1) / 2)) := by
    apply TonelliShanks.Progress.start oddFactor positive
    · rw [exponent, half, isSquare, Int.cast_one]
    · rw [exponent, half, nonResidue, Int.cast_neg, Int.cast_one]
  have qFits : factors.q + 1 < 2 ^ 64 := by
    have atMost : factors.q ≤ p - 1 :=
      product ▸ Nat.le_mul_of_pos_right _ (Nat.two_pow_pos factors.s)
    omega
  refine ⟨reducer, _, ?_, modulus, .progress (by omega) progress⟩
  exact .bind factorsEnds
    (.bind zEnds
      (.lift_bind built
        (.lift_bind (modPow_field small z _)
          (.lift_bind (modPow_field small a _)
            (.lift_bind (add_of_lt qFits)
              (.lift_bind (modPow_field small a _)
                (.pure _)))))))

/-- With a symbol of 1 a root is found. -/
theorem modSqrt_some
    (profile : Profile)
    (odd : p ≠ 2)
    (small : p < 2 ^ 63)
    (isSquare : legendreSym p a = 1) :
    ∃ x : ZMod p,
      EndsWith (modSqrt profile a p) (some x.val) ∧ x ^ 2 = a := by
  have symbol : legendreSymbol profile a p = .ok 1 := by
    rw [legendreSymbol_eq odd small, isSquare]
  have notZero : a ≠ 0 := by
    rintro rfl
    rw [Nat.cast_zero, legendreSym.at_zero] at isSquare
    exact absurd isSquare (by decide)
  by_cases three : p % 4 = 3
  · have square : (a : ZMod p) ^ (p / 2) = 1 := by
      have power := legendreSym.eq_pow p a
      rw [isSquare, Int.cast_one, Int.cast_natCast] at power
      exact power.symm
    refine ⟨(a : ZMod p) ^ ((p + 1) / 4), ?_,
      root_of_three_mod_four three square⟩
    refine .lift_bind symbol ?_
    simp only [ne_eq, not_true_eq_false, if_false, if_neg notZero,
      if_pos three]
    exact .lift_bind (add_of_lt (by omega))
      (.lift_bind (modPow_field small a _) (.pure _))
  · obtain ⟨reducer, start, startEnds, modulus, keeps⟩ :=
      startRootSearch_ends profile odd small isSquare
    obtain ⟨final, x, ends, isRoot, rootSquare⟩ :=
      correctRoot_loop_ends profile small modulus keeps
    refine ⟨x, ?_, rootSquare⟩
    rw [funext (modSqrt_eq_loop symbol notZero three), ← isRoot]
    exact .bind startEnds (.bind ends (.pure _))

/-- A square root is found exactly when there is one. -/
def FindsRoots (profile : Profile) (a p : Nat) : Prop :=
  ∃ result,
    EndsWith (modSqrt profile a p) result ∧
      match result with
      | some x => x < p ∧ x ^ 2 ≡ a [MOD p]
      | none => ¬ ∃ x, x ^ 2 ≡ a [MOD p]

/-- Congruent squares are equal squares in the field. -/
theorem sq_modEq_iff {x : Nat} :
    x ^ 2 ≡ a [MOD p] ↔ (x : ZMod p) ^ 2 = a := by
  rw [← ZMod.natCast_eq_natCast_iff, Nat.cast_pow]

/-- No root is found for a multiple of the prime. -/
theorem not_findsRoots_of_dvd
    (odd : p ≠ 2)
    (small : p < 2 ^ 63)
    (divides : p ∣ a) :
    ¬ FindsRoots profile a p := by
  have isZero : (a : ZMod p) = 0 := (ZMod.natCast_eq_zero_iff a p).mpr divides
  have noSymbol : legendreSym p a ≠ 1 := by
    rw [(legendreSym.eq_zero_iff p a).mpr (by simpa using isZero)]
    decide
  rintro ⟨result, ends, correct⟩
  obtain rfl := ends.unique (modSqrt_none odd small noSymbol)
  refine correct ⟨0, sq_modEq_iff.mpr ?_⟩
  rw [isZero, Nat.cast_zero, zero_pow two_ne_zero]

end Results

end Fields

/-- Roots are found but for the multiples of the prime. -/
theorem modSqrt_finds_roots_iff
    (profile : Profile)
    (a : Nat)
    {p : Nat}
    (isPrime : p.Prime)
    (odd : p ≠ 2)
    (small : p < 2 ^ 63) :
    FindsRoots profile a p ↔ ¬ p ∣ a := by
  have prime : Fact p.Prime := ⟨isPrime⟩
  refine ⟨fun finds divides =>
    not_findsRoots_of_dvd odd small divides finds, fun coprime => ?_⟩
  have notZero : (a : ZMod p) ≠ 0 := fun isZero =>
    coprime ((ZMod.natCast_eq_zero_iff a p).mp isZero)
  have symbolIff := legendreSym.eq_one_iff' p notZero
  by_cases isSquare : legendreSym p a = 1
  · obtain ⟨x, ends, square⟩ :=
      modSqrt_some profile odd small isSquare
    refine ⟨some x.val, ends, ZMod.val_lt x, sq_modEq_iff.mpr ?_⟩
    rwa [ZMod.natCast_zmod_val]
  · refine ⟨none, modSqrt_none odd small isSquare, ?_⟩
    rintro ⟨x, square⟩
    rw [symbolIff] at isSquare
    refine isSquare ⟨x, ?_⟩
    rw [← pow_two]
    exact (sq_modEq_iff.mp square).symm

/-- A root of 2 modulo 7 is found, for instance. -/
theorem two_mod_seven_has_a_root : FindsRoots .debug 2 7 :=
  (modSqrt_finds_roots_iff .debug 2 (by norm_num) (by decide)
    (by decide)).mpr (by decide)

/-- The root 0 of 0 modulo 7 is not found. -/
theorem zero_mod_seven_has_no_root : ¬ FindsRoots .debug 0 7 := by
  have prime : Fact (Nat.Prime 7) := ⟨by norm_num⟩
  exact not_findsRoots_of_dvd (by decide) (by decide) (Nat.dvd_zero 7)

end YieldDaemon
