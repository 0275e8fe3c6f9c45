import YieldDaemon.EuclideanGcd
import YieldDaemon.WhileLoop

namespace YieldDaemon

open CheckedArithmetic EuclideanGcd WhileLoop

/-!
# Modular inverses and binary gcd

The two gcd routines beside the field arithmetic.  The extended algorithm
recurses on i128 values, and its coefficients never grow past the numbers it is
called with; the binary algorithm shifts, swaps and subtracts u64 values in a
loop without a bound.
-/

/-- `u64::trailing_zeros` -/
def trailingZeros (value : Nat) : Nat :=
  if value = 0 then 64 else padicValNat 2 value

/-- Extended Euclidean Algorithm for modular inverse. -/
def extendedGcd (profile : Profile) (a b : Int) :
    Checked (Int × Int × Int) :=
  if _ : a = 0 then
    .ok (b, 0, 1)
  else
    match _ : remI128 b a with
    | .error reason => .error reason
    | .ok remainder => do
      let (g, x, y) ← extendedGcd profile remainder a
      let quotient ← divI128 b a
      let product ← mulI128 profile quotient x
      let coefficient ← subI128 profile y product
      return (g, coefficient, x)
termination_by a.natAbs
decreasing_by exact natAbs_remI128_lt ‹_› ‹_›

/-- Modular inverse via extended GCD (for small field elements). -/
def modInverse (profile : Profile) (a modulus : Nat) :
    Checked (Option Nat) := do
  let (g, x, _) ← extendedGcd profile (asI128 a) (asI128 modulus)
  if g ≠ 1 then
    return none
  let remainder ← remI128 x (asI128 modulus)
  let raised ← addI128 profile remainder (asI128 modulus)
  let normalised ← remI128 raised (asI128 modulus)
  return some (i128AsU64 normalised)

/-- The two numbers of the binary algorithm. -/
structure GcdPair where
  a : Nat
  b : Nat
  deriving Repr, DecidableEq

/-- One round of the binary algorithm: shift, swap and subtract. -/
def gcdRound (profile : Profile) (pair : GcdPair) :
    Checked (Round GcdPair Nat) := do
  let shifted ← shr profile 64 pair.b (trailingZeros pair.b)
  let a := if shifted < pair.a then shifted else pair.a
  let b := if shifted < pair.a then pair.a else shifted
  let difference ← sub profile 64 b a
  if difference = 0 then
    return .break a
  else
    return .goOn { a := a, b := difference }

/-- The loop of the binary algorithm, up to its last shift. -/
def oddGcd (profile : Profile) (a b fuel : Nat) : Fueled Nat := do
  let odd ← shr profile 64 a (trailingZeros a)
  loop (gcdRound profile) fuel { a := odd, b := b }

/-- Binary GCD (Stein's algorithm). -/
def binaryGcd (profile : Profile) (a b fuel : Nat) : Fueled Nat := do
  if a = 0 then
    return b
  if b = 0 then
    return a
  let shift := trailingZeros (a ||| b)
  let odd ← oddGcd profile a b fuel
  shl profile 64 odd shift

section Inverses

variable {profile : Profile} {modulus : Nat}

/-- The recursion returns the gcd and Bezout coefficients of it. -/
theorem extendedGcd_bezout
    (profile : Profile)
    {a b : Nat}
    (aFits : a < 2 ^ 64)
    (bFits : b < 2 ^ 64) :
    ∃ x y,
      extendedGcd profile a b = .ok ((Nat.gcd a b : Nat), x, y) ∧
        Bezout a b x y := by
  induction a using Nat.strong_induction_on generalizing b with
  | h a inductionHypothesis =>
      rcases Nat.eq_zero_or_pos a with rfl | positive
      · refine ⟨0, 1, ?_, Bezout.zero b⟩
        rw [extendedGcd, dif_pos Nat.cast_zero, Nat.gcd_zero_left]
      · obtain ⟨x, y, computed, bezout⟩ :=
          inductionHypothesis (b % a) (Nat.mod_lt b positive)
            ((Nat.mod_le b a).trans_lt bFits) aFits
        have reduced : remI128 b a = .ok ((b % a : Nat) : Int) := by
          rw [remI128_natCast positive, Int.tmod_eq_emod_of_nonneg
            (Int.natCast_nonneg b), Int.natCast_emod]
        have product := bezout.quotient_mul_le positive
        have next := bezout.step positive
        have coefficient := next.left
        refine ⟨_, _, ?_, next⟩
        rw [extendedGcd, dif_neg (by omega)]
        split
        · next reason panicked =>
            exact absurd (reduced.symm.trans panicked) nofun
        · next remainder returned =>
            obtain rfl := Except.ok.inj (returned.symm.trans reduced)
            rw [computed, Checked.ok_bind]
            simp only
            rw [divI128_natCast positive, Checked.ok_bind, mulI128,
              fitI128_of_abs_lt (by omega), Checked.ok_bind,
              subI128_of_abs_lt (by omega), Checked.ok_bind, Nat.gcd_rec a b]
            rfl

/-- The coefficient is reduced to the residue below the modulus. -/
theorem normalised_eq
    (positive : 0 < modulus)
    (modulusFits : modulus < 2 ^ 64)
    (x : Int) :
    (do
      let remainder ← remI128 x modulus
      let raised ← addI128 profile remainder modulus
      let normalised ← remI128 raised modulus
      return some (i128AsU64 normalised)) =
      (.ok (some (x % modulus).toNat) : Checked (Option Nat)) := by
  have divisor : (0 : Int) < modulus := by omega
  have above := Int.lt_tmod_of_pos x divisor
  have below := Int.tmod_lt_of_pos x divisor
  have raised : |x.tmod modulus + modulus| < 2 ^ 127 := by
    rw [abs_lt]
    omega
  have nonneg := Int.emod_nonneg x divisor.ne'
  have residue := Int.emod_lt_of_pos x divisor
  have fits : i128AsU64 (x % modulus) = (x % modulus).toNat := by
    rw [i128AsU64, Int.emod_eq_of_lt nonneg (by omega)]
  rw [remI128_natCast positive, Checked.ok_bind, addI128,
    fitI128_of_abs_lt raised, Checked.ok_bind, remI128_natCast positive,
    tmod_add_tmod divisor, Checked.ok_bind, fits]
  rfl

/--
An inverse below the modulus is returned exactly if the numbers are coprime,
and nothing overflows.
-/
theorem modInverse_inverts
    (profile : Profile)
    {a modulus : Nat}
    (aFits : a < 2 ^ 64)
    (positive : 0 < modulus)
    (modulusFits : modulus < 2 ^ 64) :
    (∃ coefficients,
      extendedGcd .debug (asI128 a) (asI128 modulus) = .ok coefficients) ∧
      ∃ result,
        modInverse profile a modulus = .ok result ∧
          (result.isSome ↔ Nat.gcd a modulus = 1) ∧
          ∀ x, result = some x → x < modulus ∧ a * x ≡ 1 [MOD modulus] := by
  have aExact : asI128 a = a := asI128_of_lt (by omega)
  have modulusExact : asI128 modulus = modulus := asI128_of_lt (by omega)
  obtain ⟨_, _, debugComputed, -⟩ :=
    extendedGcd_bezout .debug aFits modulusFits
  obtain ⟨x, y, computed, bezout⟩ :=
    extendedGcd_bezout profile aFits modulusFits
  refine ⟨⟨_, by rw [aExact, modulusExact, debugComputed]⟩, ?_⟩
  unfold modInverse
  rw [aExact, modulusExact, computed, Checked.ok_bind]
  dsimp only
  by_cases coprime : Nat.gcd a modulus = 1
  · have nonneg := Int.emod_nonneg x (by omega : (modulus : Int) ≠ 0)
    have below := Int.emod_lt_of_pos x (by omega : (0 : Int) < modulus)
    rw [if_neg (by simp [coprime]), normalised_eq positive modulusFits]
    refine ⟨_, rfl, by simp [coprime], ?_⟩
    intro inverse isInverse
    obtain rfl := Option.some.inj isInverse
    refine ⟨by omega, bezout.inverse coprime ?_⟩
    rw [Int.toNat_of_nonneg nonneg]
    exact Int.mod_modEq x modulus
  · rw [if_pos (by exact_mod_cast coprime)]
    exact ⟨none, rfl, by simp [coprime], nofun⟩

/-- 3 has an inverse modulo 7, and 6 has none modulo 9. -/
theorem modInverse_inverts_small :
    (∃ result,
      modInverse .release 3 7 = .ok result ∧
        (result.isSome ↔ Nat.gcd 3 7 = 1)) ∧
      ∃ result,
        modInverse .debug 6 9 = .ok result ∧
          (result.isSome ↔ Nat.gcd 6 9 = 1) := by
  obtain ⟨-, first, firstComputed, firstInverts, -⟩ :=
    @modInverse_inverts .release 3 7 (by decide) (by decide) (by decide)
  obtain ⟨-, second, secondComputed, secondInverts, -⟩ :=
    @modInverse_inverts .debug 6 9 (by decide) (by decide) (by decide)
  exact ⟨⟨first, firstComputed, firstInverts⟩,
    second, secondComputed, secondInverts⟩

end Inverses

section Halving

variable {profile : Profile} {a b : Nat}

/-- Fewer than 64 zeros follow the last bit of a number that is not zero. -/
theorem trailingZeros_lt
    {value : Nat}
    (nonzero : value ≠ 0)
    (fits : value < 2 ^ 64) :
    trailingZeros value = padicValNat 2 value ∧ trailingZeros value < 64 := by
  rw [trailingZeros, if_neg nonzero]
  refine ⟨rfl, ?_⟩
  have divides : 2 ^ padicValNat 2 value ∣ value := pow_padicValNat_dvd
  have below :=
    (Nat.le_of_dvd (Nat.pos_of_ne_zero nonzero) divides).trans_lt fits
  exact (Nat.pow_lt_pow_iff_right Nat.one_lt_two).mp below

/-- Shifting the trailing zeros out leaves the odd part. -/
theorem shr_trailingZeros
    {value : Nat}
    (nonzero : value ≠ 0)
    (fits : value < 2 ^ 64) :
    shr profile 64 value (trailingZeros value) =
      .ok (value.divMaxPow 2) := by
  obtain ⟨zeros, inRange⟩ := trailingZeros_lt nonzero fits
  have split := Nat.pow_padicValNat_mul_divMaxPow 2 value
  have divided : value / 2 ^ padicValNat 2 value = value.divMaxPow 2 :=
    Nat.div_eq_of_eq_mul_right (Nat.two_pow_pos _) split.symm
  rw [shr_of_lt inRange, zeros, Nat.shiftRight_eq_div_pow, divided]

/-- What the rounds keep: an odd number, and the gcd with the other one. -/
structure GcdPair.Keeps (pair : GcdPair) (divisor : Nat) : Prop where
  odd : Odd pair.a
  aFits : pair.a < 2 ^ 64
  nonzero : pair.b ≠ 0
  bFits : pair.b < 2 ^ 64
  gcd : Nat.gcd pair.a pair.b = divisor

/-- A round subtracts the smaller odd number from the larger one. -/
theorem gcdRound_eq
    {pair : GcdPair}
    (nonzero : pair.b ≠ 0)
    (bFits : pair.b < 2 ^ 64) :
    gcdRound profile pair =
      .ok (if pair.a = pair.b.divMaxPow 2 then
          .break pair.a
        else
          .goOn {
            a := min pair.a (pair.b.divMaxPow 2)
            b := max pair.a (pair.b.divMaxPow 2) -
              min pair.a (pair.b.divMaxPow 2) }) := by
  rw [gcdRound, shr_trailingZeros nonzero bFits, Checked.ok_bind]
  generalize pair.b.divMaxPow 2 = shifted
  dsimp only
  rcases lt_trichotomy shifted pair.a with smaller | same | larger
  · rw [if_pos smaller, if_pos smaller, sub_of_le smaller.le,
      Checked.ok_bind, if_neg (by omega), if_neg (by omega),
      min_eq_right smaller.le, max_eq_left smaller.le]
    rfl
  · rw [if_neg (by omega), if_neg (by omega), sub_of_le same.ge,
      Checked.ok_bind, if_pos (by omega), if_pos same.symm]
    rfl
  · rw [if_neg (by omega), if_neg (by omega), sub_of_le larger.le,
      Checked.ok_bind, if_neg (by omega), if_neg (by omega),
      min_eq_left larger.le, max_eq_right larger.le]
    rfl

/-- A round goes on with smaller numbers, or leaves with the gcd. -/
theorem gcdRound_steps
    {pair : GcdPair}
    {divisor : Nat}
    (keeps : pair.Keeps divisor) :
    (∃ next,
      gcdRound profile pair = .ok (.goOn next) ∧
        next.Keeps divisor ∧ next.a + next.b < pair.a + pair.b) ∨
      ∃ value,
        gcdRound profile pair = .ok (.break value) ∧ value = divisor := by
  obtain ⟨odd, smaller⟩ := divMaxPow_odd keeps.nonzero
  have divisors : Nat.gcd pair.a (pair.b.divMaxPow 2) = divisor := by
    rw [gcd_divMaxPow keeps.odd, keeps.gcd]
  have aPositive := keeps.odd.pos
  have positive := odd.pos
  have aFits := keeps.aFits
  have bFits := keeps.bFits
  rw [gcdRound_eq keeps.nonzero keeps.bFits]
  generalize pair.b.divMaxPow 2 = shifted at *
  by_cases same : pair.a = shifted
  · rw [if_pos same]
    refine .inr ⟨pair.a, rfl, ?_⟩
    rw [← divisors, ← same, Nat.gcd_self]
  · rw [if_neg same]
    refine .inl ⟨_, rfl, ⟨?_, ?_, ?_, ?_, ?_⟩, ?_⟩
    · exact min_rec' Odd keeps.odd odd
    · exact (min_le_left _ _).trans_lt aFits
    · simp only
      omega
    · simp only
      omega
    · simp only
      rw [Nat.gcd_sub_self_right (min_le_max), ← divisors]
      rcases le_total pair.a shifted with ordered | ordered
      · rw [min_eq_left ordered, max_eq_right ordered]
      · rw [min_eq_right ordered, max_eq_left ordered, Nat.gcd_comm]
    · simp only
      omega

/-- The loop ends with the gcd of the odd part and the other number. -/
theorem oddGcd_ends
    (profile : Profile)
    (aNonzero : a ≠ 0)
    (bNonzero : b ≠ 0)
    (aFits : a < 2 ^ 64)
    (bFits : b < 2 ^ 64) :
    EndsWith (oddGcd profile a b) (Nat.gcd (a.divMaxPow 2) b) := by
  obtain ⟨odd, smaller⟩ := divMaxPow_odd aNonzero
  have start :
      GcdPair.Keeps ⟨a.divMaxPow 2, b⟩ (Nat.gcd (a.divMaxPow 2) b) :=
    ⟨odd, smaller.trans_lt aFits, bNonzero, bFits, rfl⟩
  obtain ⟨value, ends, rfl⟩ :=
    loop_ends (gcdRound profile)
      (fun pair => pair.Keeps (Nat.gcd (a.divMaxPow 2) b))
      (fun value => value = Nat.gcd (a.divMaxPow 2) b)
      (fun pair => pair.a + pair.b)
      (fun pair keeps => gcdRound_steps keeps)
      _ start
  exact EndsWith.lift_bind (shr_trailingZeros aNonzero aFits) ends

/--
The binary algorithm ends with the gcd.  Its last shift gives the gcd itself,
so it loses no bit of the odd part.
-/
theorem binaryGcd_ends
    (profile : Profile)
    (aFits : a < 2 ^ 64)
    (bFits : b < 2 ^ 64) :
    EndsWith (binaryGcd profile a b) (Nat.gcd a b) ∧
      (a ≠ 0 → b ≠ 0 →
        ∃ odd,
          EndsWith (oddGcd .debug a b) odd ∧
            odd * 2 ^ trailingZeros (a ||| b) < 2 ^ 64) := by
  by_cases aNonzero : a = 0
  · refine ⟨?_, fun isNonzero => absurd aNonzero isNonzero⟩
    rw [aNonzero, Nat.gcd_zero_left]
    exact EndsWith.pure b
  by_cases bNonzero : b = 0
  · refine ⟨?_, fun _ isNonzero => absurd bNonzero isNonzero⟩
    unfold binaryGcd
    simp only [aNonzero, bNonzero, ↓reduceIte, Nat.gcd_zero_right]
    exact EndsWith.pure a
  have orNonzero : a ||| b ≠ 0 := fun isZero =>
    aNonzero (Nat.or_eq_zero_iff.mp isZero).1
  obtain ⟨zeros, inRange⟩ :=
    trailingZeros_lt orNonzero (Nat.or_lt_two_pow aFits bFits)
  have split :
      Nat.gcd (a.divMaxPow 2) b * 2 ^ trailingZeros (a ||| b) =
        Nat.gcd a b := by
    rw [zeros, Nat.mul_comm, ← gcd_eq_pow_two_mul aNonzero]
  have fits : Nat.gcd a b < 2 ^ 64 :=
    (Nat.gcd_le_left b (Nat.pos_of_ne_zero aNonzero)).trans_lt aFits
  have shifted :
      shl profile 64 (Nat.gcd (a.divMaxPow 2) b) (trailingZeros (a ||| b)) =
        .ok (Nat.gcd a b) := by
    rw [shl_of_lt inRange, Nat.shiftLeft_eq, split, Nat.mod_eq_of_lt fits]
  refine ⟨?_, fun _ _ =>
    ⟨_, oddGcd_ends .debug aNonzero bNonzero aFits bFits, split ▸ fits⟩⟩
  unfold binaryGcd
  simp only [aNonzero, bNonzero, ↓reduceIte]
  refine EndsWith.bind (oddGcd_ends profile aNonzero bNonzero aFits bFits) ?_
  rw [shifted]
  exact EndsWith.pure _

/-- The gcd of 12 and 8 needs a shift, the one of 0 and 5 does not. -/
theorem binaryGcd_ends_small :
    EndsWith (binaryGcd .release 12 8) (Nat.gcd 12 8) ∧
      EndsWith (binaryGcd .debug 0 5) (Nat.gcd 0 5) :=
  ⟨(binaryGcd_ends .release (by decide) (by decide)).1,
    (binaryGcd_ends .debug (by decide) (by decide)).1⟩

end Halving

end YieldDaemon
