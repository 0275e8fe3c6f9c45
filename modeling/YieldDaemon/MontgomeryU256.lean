import Mathlib.Data.Nat.Bitwise
import YieldDaemon.Bn254Field
import YieldDaemon.LimbArithmetic

namespace YieldDaemon

open CheckedArithmetic LimbArithmetic

/-!
# Montgomery multiplication

A field element is kept as four limbs of its multiple by `2 ^ 256`.  Canonical
limbs are below the modulus, so every field element has one encoding, and the
operations on encodings are the operations of the field.
-/

/-- 64-bit limb Montgomery form for standard x86-64. -/
structure MontgomeryU256 where
  limbs : List Nat
  fourLimbs : limbs.length = 4
  areLimbs : AreLimbs limbs
  deriving DecidableEq

/-- BN254 scalar field modulus -/
def bn254Modulus : List Nat :=
  [0x43e1f593f0000001, 0x2833e84879b97091, 0xb85045b68181585d,
    0x30644e72e131a029]

/-- R = 2^256 mod p (Montgomery R constant) -/
def montR : List Nat :=
  [0xac96341c4ffffffb, 0x36fc76959f60cd29, 0x666ea36f7879462e,
    0x0e0a77c19a07df2f]

/-- R^2 mod p (for converting to Montgomery form) -/
def montR2 : List Nat :=
  [0x1bb8e645ae216da7, 0x53fe3ab1e35c59e3, 0x8c49833d53bb8085,
    0x0216d0b17f4e44a5]

/-- -p^{-1} mod 2^64 (Montgomery reduction constant) -/
def inv : Nat := 0xc2e1f593efffffff

namespace MontgomeryU256

/-- The four words as limbs. -/
def ofWords (words : List Nat) : MontgomeryU256 where
  limbs := (List.range 4).map (fun i => words.getD i 0 % 2 ^ 64)
  fourLimbs := by simp
  areLimbs := by
    intro limb member
    obtain ⟨i, -, rfl⟩ := List.mem_map.mp member
    exact Nat.mod_lt _ (Nat.two_pow_pos 64)

def zero : MontgomeryU256 :=
  ofWords [0, 0, 0, 0]

def one : MontgomeryU256 :=
  ofWords montR

/-- Branchless conditional select: returns a if flag==0, b if flag==1. -/
def conditionalSelect (a b : MontgomeryU256) (flag : Nat) : MontgomeryU256 :=
  let mask := (overflowingSub 0 flag).1
  ofWords (List.zipWith (fun a b => a ^^^ (mask &&& (a ^^^ b))) a.limbs b.limbs)

/-- Check if self >= modulus. -/
def gteModulus (self : MontgomeryU256) : Bool :=
  compareLimbs self.limbs bn254Modulus != .lt

/-- Subtract modulus (no borrow check — caller ensures self >= p). -/
def subModulus (self : MontgomeryU256) : MontgomeryU256 :=
  ofWords (subLimbs self.limbs bn254Modulus 0).1

/-- Modular addition: (a + b) mod p. -/
def montAdd (self rhs : MontgomeryU256) : MontgomeryU256 :=
  let r := ofWords (addLimbs self.limbs rhs.limbs 0).1
  if r.gteModulus then r.subModulus else r

/-- Modular subtraction: (a - b) mod p. -/
def montSub (self rhs : MontgomeryU256) : MontgomeryU256 :=
  let (result, borrow) := subLimbs self.limbs rhs.limbs 0
  if 0 < borrow then
    -- Add modulus back
    ofWords (addLimbs result bn254Modulus 0).1
  else
    ofWords result

/--
Montgomery multiplication: (a * b * R^{-1}) mod p
Uses CIOS (Coarsely Integrated Operand Scanning) algorithm.
-/
def montMul (profile : Profile) (self rhs : MontgomeryU256) :
    Checked MontgomeryU256 := do
  let t ←
    rhs.limbs.foldlM (montRound profile bn254Modulus inv self.limbs)
      [0, 0, 0, 0]
  let result := ofWords t
  return if result.gteModulus then result.subModulus else result

/-- Montgomery squaring (slightly faster than mul with self). -/
def montSqr (profile : Profile) (self : MontgomeryU256) :
    Checked MontgomeryU256 :=
  self.montMul profile self

/-- Convert to Montgomery domain: a * R^2 * R^{-1} = a * R mod p -/
def toMontgomery (profile : Profile) (self : MontgomeryU256) :
    Checked MontgomeryU256 :=
  self.montMul profile (ofWords montR2)

/-- Convert from Montgomery domain: a * 1 * R^{-1} = a * R^{-1} mod p -/
def fromMontgomery (profile : Profile) (self : MontgomeryU256) :
    Checked MontgomeryU256 :=
  self.montMul profile (ofWords [1, 0, 0, 0])

/-- Convert a u64 value into Montgomery form. -/
def fromU64 (profile : Profile) (val : Nat) : Checked MontgomeryU256 :=
  (ofWords [val, 0, 0, 0]).toMontgomery profile

/-- One bit of `mont_pow`, on the result and the base. -/
def powBit
    (profile : Profile)
    (word : Nat)
    (state : MontgomeryU256 × MontgomeryU256)
    (bit : Nat) : Checked (MontgomeryU256 × MontgomeryU256) := do
  let (result, base) := state
  let flag := (word >>> bit) &&& 1
  -- Branchless: conditionally multiply
  let product ← result.montMul profile base
  let result := conditionalSelect result product flag
  let base ← base.montSqr profile
  return (result, base)

/--
Modular exponentiation via square-and-multiply.
Uses branchless constant-time selection for side-channel resistance.
-/
def montPow (profile : Profile) (self : MontgomeryU256) (exp : List Nat) :
    Checked MontgomeryU256 := do
  let (result, _) ←
    exp.foldlM
      (fun state word => (List.range 64).foldlM (powBit profile word) state)
      (one, self)
  return result

/-- Modular inverse via Fermat's little theorem: a^{-1} = a^{p-2} mod p. -/
def montInv (profile : Profile) (self : MontgomeryU256) :
    Checked MontgomeryU256 :=
  self.montPow profile
    -- p - 2 for BN254
    [0x43e1f593efffffff, 0x2833e84879b97091, 0xb85045b68181585d,
      0x30644e72e131a029]

/-- Limbs below the modulus. -/
def IsCanonical (self : MontgomeryU256) : Prop :=
  value self.limbs < Bn254.order

/-- The field element that the limbs stand for. -/
def decode (self : MontgomeryU256) : ZMod Bn254.order :=
  (value self.limbs : ZMod Bn254.order) *
    ((2 ^ 256 : Nat) : ZMod Bn254.order)⁻¹

/-- The limbs of a number. -/
def ofNumber (number : Nat) : MontgomeryU256 :=
  ofWords [number, number / 2 ^ 64, number / 2 ^ 128, number / 2 ^ 192]

/-- The canonical limbs of a field element. -/
def encode (element : ZMod Bn254.order) : MontgomeryU256 :=
  ofNumber (element.val * 2 ^ 256 % Bn254.order)

theorem value_modulus : value bn254Modulus = Bn254.order := by
  norm_num [value, bn254Modulus, Nat.ofDigits_cons]

theorem modulusLimbs : AreLimbs bn254Modulus := by
  unfold AreLimbs
  decide

theorem radix_ne_zero : (2 ^ 256 : ZMod Bn254.order) ≠ 0 := by
  reduce_mod_char
  decide +kernel

theorem decode_eq (self : MontgomeryU256) :
    self.decode = (value self.limbs : ZMod Bn254.order) * (2 ^ 256)⁻¹ := by
  rw [decode, Nat.cast_pow, Nat.cast_ofNat]

/-- Words that are limbs already are kept. -/
theorem ofWords_limbs
    {words : List Nat}
    (fourWords : words.length = 4)
    (areLimbs : AreLimbs words) :
    (ofWords words).limbs = words := by
  apply List.ext_getElem
  · rw [(ofWords words).fourLimbs, fourWords]
  · intro i inLimbs inWords
    simp only [ofWords, List.getElem_map, List.getElem_range,
      List.getD_eq_getElem?_getD, List.getElem?_eq_getElem inWords,
      Option.getD_some]
    exact Nat.mod_eq_of_lt (areLimbs _ (List.getElem_mem inWords))

/-- Limbs are determined by their value. -/
theorem ext_value
    {first second : MontgomeryU256}
    (sameValue : value first.limbs = value second.limbs) :
    first = second := by
  obtain ⟨firstLimbs, firstFour, firstLow⟩ := first
  obtain ⟨secondLimbs, secondFour, secondLow⟩ := second
  have same : firstLimbs = secondLimbs :=
    eq_of_value_eq (firstFour.trans secondFour.symm) firstLow secondLow
      sameValue
  subst same
  rfl

theorem value_ofNumber
    {number : Nat}
    (small : number < 2 ^ 256) :
    value (ofNumber number).limbs = number := by
  have limbs :
      (ofNumber number).limbs =
        [number % 2 ^ 64, number / 2 ^ 64 % 2 ^ 64,
          number / 2 ^ 128 % 2 ^ 64, number / 2 ^ 192 % 2 ^ 64] := rfl
  rw [limbs]
  simp only [value, Nat.ofDigits_cons, Nat.ofDigits_nil]
  omega

theorem value_encode (element : ZMod Bn254.order) :
    value (encode element).limbs = element.val * 2 ^ 256 % Bn254.order := by
  apply value_ofNumber
  exact (Nat.mod_lt _ Bn254.order_prime.pos).trans (by norm_num)

theorem encode_canonical (element : ZMod Bn254.order) :
    (encode element).IsCanonical := by
  rw [IsCanonical, value_encode]
  exact Nat.mod_lt _ Bn254.order_prime.pos

/-- The limbs of an encoding are the multiple of the element by the radix. -/
theorem cast_encode (element : ZMod Bn254.order) :
    (value (encode element).limbs : ZMod Bn254.order) =
      element * 2 ^ 256 := by
  rw [value_encode, ZMod.natCast_mod, Nat.cast_mul, ZMod.natCast_zmod_val,
    Nat.cast_pow, Nat.cast_ofNat]

/-- Canonical limbs that are this multiple are the encoding. -/
theorem eq_encode
    {self : MontgomeryU256}
    {element : ZMod Bn254.order}
    (canonical : self.IsCanonical)
    (multiple :
      (value self.limbs : ZMod Bn254.order) = element * 2 ^ 256) :
    self = encode element := by
  apply ext_value
  have sameResidue :=
    (ZMod.natCast_eq_natCast_iff' _ _ _).mp
      (multiple.trans (cast_encode element).symm)
  rwa [Nat.mod_eq_of_lt canonical,
    Nat.mod_eq_of_lt (encode_canonical element)] at sameResidue

@[simp] theorem decode_encode (element : ZMod Bn254.order) :
    (encode element).decode = element := by
  rw [decode_eq, cast_encode, mul_assoc, mul_inv_cancel₀ radix_ne_zero, mul_one]

/-- Every canonical value encodes the element that it stands for. -/
theorem encode_decode
    {self : MontgomeryU256}
    (canonical : self.IsCanonical) :
    encode self.decode = self := by
  apply Eq.symm
  apply eq_encode canonical
  rw [decode_eq, mul_assoc, inv_mul_cancel₀ radix_ne_zero, mul_one]

@[simp] theorem encode_inj {first second : ZMod Bn254.order} :
    encode first = encode second ↔ first = second := by
  constructor
  · intro same
    rw [← decode_encode first, same, decode_encode]
  · exact congrArg encode

theorem gteModulus_iff (self : MontgomeryU256) :
    self.gteModulus = true ↔ Bn254.order ≤ value self.limbs := by
  rw [gteModulus, compareLimbs_eq self.fourLimbs self.areLimbs modulusLimbs,
    value_modulus, bne_iff_ne, Ne, compare_lt_iff_lt, not_lt]

theorem value_subModulus
    {self : MontgomeryU256}
    (large : Bn254.order ≤ value self.limbs) :
    value self.subModulus.limbs + Bn254.order = value self.limbs := by
  obtain ⟨exact, areLimbs⟩ :=
    subLimbs_value self.fourLimbs self.areLimbs modulusLimbs
      (Nat.zero_le 1)
  have fourWords : (subLimbs self.limbs bn254Modulus 0).1.length = 4 :=
    (subLimbs_length self.fourLimbs 0).trans self.fourLimbs
  have low := value_lt areLimbs
  rw [fourWords] at low
  rw [subModulus, ofWords_limbs fourWords areLimbs]
  rw [self.fourLimbs, value_modulus, Nat.add_zero] at exact
  have noBorrow := borrow_eq_zero exact low large
  rw [noBorrow, Nat.mul_zero, Nat.add_zero] at exact
  exact exact

/-- One conditional subtraction makes small values canonical. -/
theorem reduce_spec
    {self : MontgomeryU256}
    {element : ZMod Bn254.order}
    (bounded : value self.limbs < 2 * Bn254.order)
    (multiple :
      (value self.limbs : ZMod Bn254.order) = element * 2 ^ 256) :
    (if self.gteModulus then self.subModulus else self) = encode element := by
  by_cases large : Bn254.order ≤ value self.limbs
  · rw [if_pos ((gteModulus_iff self).mpr large)]
    have sum := value_subModulus large
    apply eq_encode
    · rw [IsCanonical]
      omega
    · rw [← multiple, ← sum, Nat.cast_add, ZMod.natCast_self, add_zero]
  · rw [if_neg (fun gte => large ((gteModulus_iff self).mp gte))]
    exact eq_encode (Nat.not_le.mp large) multiple

/-! The operations on encodings. -/

theorem two_orders_le_radix : 2 * Bn254.order ≤ (2 ^ 64) ^ 4 := by
  norm_num

theorem order_le_radix : Bn254.order ≤ (2 ^ 64) ^ 4 :=
  (Nat.le_mul_of_pos_left _ Nat.two_pos).trans two_orders_le_radix

variable {profile : Profile} {left right : ZMod Bn254.order}

@[simp] theorem montAdd_encode :
    (encode left).montAdd (encode right) = encode (left + right) := by
  have lengths := (encode left).fourLimbs.trans (encode right).fourLimbs.symm
  have exact :=
    addLimbs_value lengths (encode left).areLimbs (encode right).areLimbs
      (Nat.zero_le 1)
  have areLimbs :=
    addLimbs_areLimbs (encode left).limbs (encode right).limbs 0
  have fourWords :=
    (addLimbs_length lengths 0).trans (encode left).fourLimbs
  have small :
      value (encode left).limbs + value (encode right).limbs <
        2 * Bn254.order := by
    rw [Nat.two_mul]
    exact Nat.add_lt_add (encode_canonical left) (encode_canonical right)
  rw [(encode left).fourLimbs, Nat.add_zero] at exact
  have noCarry := carry_eq_zero exact (small.trans_le two_orders_le_radix)
  rw [noCarry, Nat.mul_zero, Nat.add_zero] at exact
  unfold montAdd
  dsimp only
  apply reduce_spec
  · rw [ofWords_limbs fourWords areLimbs, exact]
    exact small
  · rw [ofWords_limbs fourWords areLimbs, exact, Nat.cast_add, cast_encode,
      cast_encode, add_mul]

/-- A canonical difference, or one with the modulus added back. -/
theorem eq_encode_sub
    {words : List Nat}
    (multiples : Nat)
    (fourWords : words.length = 4)
    (areLimbs : AreLimbs words)
    (canonical : value words < Bn254.order)
    (exact :
      value words + value (encode right).limbs =
        value (encode left).limbs + multiples * Bn254.order) :
    ofWords words = encode (left - right) := by
  apply eq_encode
  · rwa [IsCanonical, ofWords_limbs fourWords areLimbs]
  · rw [ofWords_limbs fourWords areLimbs, sub_mul, ← cast_encode left,
      ← cast_encode right, eq_sub_iff_add_eq, ← Nat.cast_add, exact,
      Nat.cast_add, Nat.cast_mul, ZMod.natCast_self, mul_zero, add_zero]

@[simp] theorem montSub_encode :
    (encode left).montSub (encode right) = encode (left - right) := by
  have lengths := (encode left).fourLimbs.trans (encode right).fourLimbs.symm
  have leftLow : value (encode left).limbs < Bn254.order :=
    encode_canonical left
  have rightLow : value (encode right).limbs < Bn254.order :=
    encode_canonical right
  obtain ⟨exact, areLimbs⟩ :=
    subLimbs_value lengths (encode left).areLimbs (encode right).areLimbs
      (Nat.zero_le 1)
  have fourWords :=
    (subLimbs_length lengths 0).trans (encode left).fourLimbs
  have low := value_lt areLimbs
  rw [fourWords] at low
  rw [(encode left).fourLimbs, Nat.add_zero] at exact
  unfold montSub
  generalize subLimbs (encode left).limbs (encode right).limbs 0 = diff
    at exact areLimbs fourWords low ⊢
  obtain ⟨result, borrow⟩ := diff
  dsimp only at exact areLimbs fourWords low ⊢
  by_cases borrowed : 0 < borrow
  · rw [if_pos borrowed]
    have sumLengths : result.length = bn254Modulus.length := fourWords
    have added :=
      addLimbs_value sumLengths areLimbs modulusLimbs (Nat.zero_le 1)
    have sumLimbs := addLimbs_areLimbs result bn254Modulus 0
    have sumWords := (addLimbs_length sumLengths 0).trans fourWords
    have sumLow := value_lt sumLimbs
    rw [sumWords] at sumLow
    rw [fourWords, value_modulus, Nat.add_zero] at added
    have exactSum :=
      add_back order_le_radix rightLow low sumLow exact borrowed
        added
    apply eq_encode_sub 1 sumWords sumLimbs
    · omega
    · rw [exactSum, Nat.one_mul]
  · rw [if_neg borrowed]
    obtain rfl := Nat.eq_zero_of_not_pos borrowed
    rw [Nat.mul_zero, Nat.add_zero] at exact
    apply eq_encode_sub 0 fourWords areLimbs
    · omega
    · rw [exact, Nat.zero_mul, Nat.add_zero]

theorem inverse_modulus : inv * value bn254Modulus % 2 ^ 64 = 2 ^ 64 - 1 := by
  rw [value_modulus]
  norm_num [inv]

/--
Where the rounds have room, no double word of a product overflows, and the
product is exact.
-/
theorem montMul_of_fit
    {a b : MontgomeryU256}
    {element : ZMod Bn254.order}
    {bound finalBound : Nat}
    (positive : 0 < bound)
    (fit :
      RoundsFit (value a.limbs) Bn254.order ((2 ^ 64) ^ 4) bound b.limbs
        finalBound)
    (small : finalBound ≤ 2 * Bn254.order)
    (product :
      ((value a.limbs * value b.limbs : Nat) : ZMod Bn254.order) =
        element * 2 ^ 256 * 2 ^ 256) :
    a.montMul profile b = .ok (encode element) := by
  have zeros : value [0, 0, 0, 0] = 0 := rfl
  have zeroLimbs : AreLimbs [0, 0, 0, 0] := by
    unfold AreLimbs
    decide
  have factorLength : [0, 0, 0, 0].length = a.limbs.length :=
    a.fourLimbs.symm
  rw [← value_modulus] at fit
  obtain ⟨final, computed, rounds⟩ :=
    montRounds_return profile inverse_modulus fit factorLength rfl
      modulusLimbs a.areLimbs zeroLimbs b.areLimbs
      (zeros.trans_lt positive)
  rw [montMul, computed, Checked.ok_bind]
  apply congrArg Except.ok
  obtain ⟨m, exact⟩ := rounds.exact
  rw [zeros, b.fourLimbs, Nat.zero_add, value_modulus] at exact
  have limbs := ofWords_limbs rounds.sameLength rounds.areLimbs
  apply reduce_spec
  · rw [limbs]
    exact rounds.bounded.trans_le small
  · rw [limbs]
    have castExact := congrArg (Nat.cast (R := ZMod Bn254.order)) exact
    rw [Nat.cast_add, product, Nat.cast_mul, Nat.cast_mul,
      ZMod.natCast_self, zero_mul, add_zero] at castExact
    have radix :
        (((2 ^ 64) ^ 4 : Nat) : ZMod Bn254.order) = 2 ^ 256 := by
      rw [← pow_mul, Nat.cast_pow, Nat.cast_ofNat]
    rw [radix] at castExact
    apply mul_left_cancel₀ radix_ne_zero
    rw [castExact]
    ring

@[simp] theorem montMul_encode :
    (encode left).montMul profile (encode right) =
      .ok (encode (left * right)) := by
  have leftLow : value (encode left).limbs < Bn254.order :=
    encode_canonical left
  have room :
      value (encode left).limbs + Bn254.order ≤ 2 * Bn254.order := by
    rw [Nat.two_mul]
    exact Nat.add_le_add_right leftLow.le _
  have positive : 0 < value (encode left).limbs + Bn254.order :=
    Nat.add_pos_right _ Bn254.order_prime.pos
  apply montMul_of_fit positive
  · exact .constant (room.trans two_orders_le_radix) (encode right).areLimbs
  · exact room
  · rw [Nat.cast_mul, cast_encode, cast_encode]
    ring

@[simp] theorem montSqr_encode :
    (encode left).montSqr profile = .ok (encode (left * left)) :=
  montMul_encode

theorem zero_eq : zero = encode 0 := by
  apply eq_encode
  · rw [IsCanonical]
    exact Bn254.order_prime.pos
  · rw [zero_mul]
    rfl

theorem value_montR :
    value (ofWords montR).limbs = 2 ^ 256 % Bn254.order := by
  rw [ofWords_limbs rfl (by unfold AreLimbs; decide)]
  norm_num [value, montR, Nat.ofDigits_cons]

theorem one_eq : one = encode 1 := by
  apply eq_encode
  · rw [IsCanonical, one, value_montR]
    exact Nat.mod_lt _ Bn254.order_prime.pos
  · rw [one, value_montR, ZMod.natCast_mod, Nat.cast_pow, Nat.cast_ofNat,
      one_mul]

theorem value_montR2 :
    value (ofWords montR2).limbs =
      2 ^ 256 % Bn254.order * 2 ^ 256 % Bn254.order := by
  rw [ofWords_limbs rfl (by unfold AreLimbs; decide)]
  norm_num [value, montR2, Nat.ofDigits_cons]

theorem montR2_eq : ofWords montR2 = encode (2 ^ 256) := by
  apply eq_encode
  · rw [IsCanonical, value_montR2]
    exact Nat.mod_lt _ Bn254.order_prime.pos
  · rw [value_montR2, ZMod.natCast_mod, Nat.cast_mul, ZMod.natCast_mod,
      Nat.cast_pow, Nat.cast_ofNat]

theorem value_word (val : Nat) : value [val, 0, 0, 0] = val := by
  simp only [value, Nat.ofDigits_cons, Nat.ofDigits_nil]
  omega

/--
The limbs of `R^2` leave the rounds room for every other factor, reduced or
not.
-/
theorem montR2_fits (self : MontgomeryU256) :
    RoundsFit (value self.limbs) Bn254.order ((2 ^ 64) ^ 4) 1
      (ofWords montR2).limbs (2 * Bn254.order) := by
  have low := value_lt self.areLimbs
  rw [self.fourLimbs] at low
  rw [ofWords_limbs rfl (by unfold AreLimbs; decide), montR2]
  -- The top limb of `R^2` is small, so the last round leaves little.
  refine .cons (2 ^ 255) ?_ ?_ (.cons (3 * 2 ^ 254) ?_ ?_
    (.cons (2 ^ 256) ?_ ?_ (.cons _ ?_ ?_ (.nil _))))
  all_goals norm_num at low ⊢
  all_goals omega

/-- Every value of 256 bits is converted into the encoding of its residue. -/
theorem toMontgomery_eq (self : MontgomeryU256) :
    self.toMontgomery profile = .ok (encode (value self.limbs)) := by
  apply montMul_of_fit Nat.one_pos self.montR2_fits (le_refl _)
  rw [Nat.cast_mul, montR2_eq, cast_encode]
  ring

/-- A machine word is converted into the encoding of its residue. -/
theorem fromU64_eq
    {val : Nat}
    (word : val < 2 ^ 64) :
    fromU64 profile val = .ok (encode val) := by
  have limbs : (ofWords [val, 0, 0, 0]).limbs = [val, 0, 0, 0] := by
    apply ofWords_limbs rfl
    simpa [AreLimbs] using word
  rw [fromU64, toMontgomery_eq, limbs, value_word]

/-- The unit of the limbs encodes the inverse of the radix. -/
theorem word_one_eq : ofWords [1, 0, 0, 0] = encode (2 ^ 256)⁻¹ := by
  have isOne : value (ofWords [1, 0, 0, 0]).limbs = 1 := rfl
  apply eq_encode
  · rw [IsCanonical, isOne]
    exact Bn254.order_prime.one_lt
  · rw [isOne, Nat.cast_one, inv_mul_cancel₀ radix_ne_zero]

/-- A conversion out of the domain divides by the radix. -/
theorem fromMontgomery_encode {element : ZMod Bn254.order} :
    (encode element).fromMontgomery profile =
      .ok (encode (element * (2 ^ 256)⁻¹)) := by
  rw [fromMontgomery, word_one_eq, montMul_encode]

theorem zipWith_select_zero
    {lefts rights : List Nat}
    (sameLength : lefts.length = rights.length) :
    List.zipWith (fun a b => a ^^^ (0 &&& (a ^^^ b))) lefts rights =
      lefts := by
  induction lefts generalizing rights with
  | nil =>
      rfl
  | cons left lefts inductionHypothesis =>
      cases rights with
      | nil =>
          simp at sameLength
      | cons right rights =>
          rw [List.zipWith_cons_cons, Nat.zero_and, Nat.xor_zero,
            inductionHypothesis (Nat.succ.inj sameLength)]

theorem zipWith_select_ones
    {lefts rights : List Nat}
    (sameLength : lefts.length = rights.length)
    (leftLimbs : AreLimbs lefts)
    (rightLimbs : AreLimbs rights) :
    List.zipWith (fun a b => a ^^^ ((2 ^ 64 - 1) &&& (a ^^^ b))) lefts
      rights = rights := by
  induction lefts generalizing rights with
  | nil =>
      exact (List.length_eq_zero_iff.mp sameLength.symm).symm
  | cons left lefts inductionHypothesis =>
      cases rights with
      | nil =>
          simp at sameLength
      | cons right rights =>
          obtain ⟨leftLow, leftLimbs⟩ := areLimbs_cons.mp leftLimbs
          obtain ⟨rightLow, rightLimbs⟩ := areLimbs_cons.mp rightLimbs
          have different := Nat.xor_lt_two_pow leftLow rightLow
          rw [List.zipWith_cons_cons, Nat.and_comm,
            Nat.and_two_pow_sub_one_of_lt_two_pow different,
            Nat.xor_xor_cancel_left,
            inductionHypothesis (Nat.succ.inj sameLength) leftLimbs
              rightLimbs]

/-- The mask of a set flag selects the second value, bit by bit. -/
theorem conditionalSelect_eq
    (a b : MontgomeryU256)
    {flag : Nat}
    (isBit : flag < 2) :
    conditionalSelect a b flag = if flag = 0 then a else b := by
  have lengths := a.fourLimbs.trans b.fourLimbs.symm
  apply ext_value
  interval_cases flag
  · have zeroMask : (overflowingSub 0 0).1 = 0 := rfl
    rw [conditionalSelect, zeroMask, zipWith_select_zero lengths,
      ofWords_limbs a.fourLimbs a.areLimbs, if_pos rfl]
  · have onesMask : (overflowingSub 0 1).1 = 2 ^ 64 - 1 := rfl
    rw [conditionalSelect, onesMask,
      zipWith_select_ones lengths a.areLimbs b.areLimbs,
      ofWords_limbs b.fourLimbs b.areLimbs, if_neg Nat.one_ne_zero]

variable {base result : ZMod Bn254.order}

/-- A bit of the exponent squares the base, after it has multiplied by it. -/
theorem powBit_encode (word bit : Nat) :
    powBit profile word (encode result, encode base) bit =
      .ok (encode (result * base ^ (word / 2 ^ bit % 2)),
        encode (base ^ 2)) := by
  have flag : (word >>> bit) &&& 1 = word / 2 ^ bit % 2 := by
    rw [Nat.and_one_is_mod, Nat.shiftRight_eq_div_pow]
  have isBit : word / 2 ^ bit % 2 < 2 := Nat.mod_lt _ Nat.two_pos
  simp only [powBit, montMul_encode, montSqr_encode, Checked.ok_bind, flag,
    conditionalSelect_eq _ _ isBit, Checked.pure_eq_ok, pow_two]
  generalize word / 2 ^ bit % 2 = flag at isBit
  interval_cases flag
  · rw [if_pos rfl, pow_zero, mul_one]
  · rw [if_neg Nat.one_ne_zero, pow_one]

/-- The lowest bits of a word have been used up after as many squarings. -/
theorem powBits_encode (word bits : Nat) :
    (List.range bits).foldlM (powBit profile word)
        (encode result, encode base) =
      .ok (encode (result * base ^ (word % 2 ^ bits)),
        encode (base ^ 2 ^ bits)) := by
  induction bits with
  | zero =>
      simp [Nat.mod_one]
  | succ bits inductionHypothesis =>
      rw [List.range_succ, List.foldlM_append, inductionHypothesis,
        Checked.ok_bind, List.foldlM_cons, powBit_encode, Checked.ok_bind,
        List.foldlM_nil, Checked.pure_eq_ok, Nat.mod_pow_succ, pow_add,
        ← pow_mul, ← pow_mul, pow_succ 2, mul_assoc]

/-- A power by the number that the words of the exponent stand for. -/
theorem montPow_encode
    {words : List Nat}
    (areLimbs : AreLimbs words) :
    (encode base).montPow profile words =
      .ok (encode (base ^ value words)) := by
  have loop :
      ∀ result base : ZMod Bn254.order,
        words.foldlM
            (fun state word =>
              (List.range 64).foldlM (powBit profile word) state)
            (encode result, encode base) =
          .ok (encode (result * base ^ value words),
            encode (base ^ (2 ^ 64) ^ words.length)) := by
    induction words with
    | nil =>
        intro result base
        simp
    | cons word words inductionHypothesis =>
        intro result base
        obtain ⟨wordLow, wordsLow⟩ := areLimbs_cons.mp areLimbs
        rw [List.foldlM_cons, powBits_encode, Checked.ok_bind,
          inductionHypothesis wordsLow, Nat.mod_eq_of_lt wordLow, value_cons,
          pow_add, pow_mul, mul_assoc, List.length_cons, pow_succ' (2 ^ 64),
          pow_mul base]
  rw [montPow, one_eq, loop, Checked.ok_bind, one_mul]
  rfl

/-- An inverse, and 0 for 0. -/
theorem montInv_encode :
    (encode base).montInv profile = .ok (encode base⁻¹) := by
  rw [montInv, montPow_encode (by unfold AreLimbs; decide)]
  have exponent :
      value [0x43e1f593efffffff, 0x2833e84879b97091, 0xb85045b68181585d,
        0x30644e72e131a029] = Bn254.order - 2 := by
    norm_num [value, Nat.ofDigits_cons]
  rw [exponent]
  by_cases isZero : base = 0
  · rw [isZero, inv_zero, zero_pow (by norm_num)]
  · have oneMore : Bn254.order - 2 + 1 = Bn254.order - 1 := by
      norm_num
    have product : base ^ (Bn254.order - 2) * base = 1 := by
      rw [← pow_succ, oneMore, ZMod.pow_card_sub_one_eq_one isZero]
    rw [eq_inv_of_mul_eq_one_left product]

/-- The computation returns the canonical value of a field element. -/
def Returns
    (computed : Checked MontgomeryU256)
    (element : ZMod Bn254.order) : Prop :=
  ∃ result,
    computed = .ok result ∧
      result.IsCanonical ∧
      result.decode = element

theorem returns_encode {computed : Checked MontgomeryU256}
    {element : ZMod Bn254.order}
    (isEncoding : computed = .ok (encode element)) :
    Returns computed element :=
  ⟨encode element, isEncoding, encode_canonical element,
    decode_encode element⟩

/-- Canonical values stand for the same element only if they are equal. -/
theorem decode_inj
    {a b : MontgomeryU256}
    (aCanonical : a.IsCanonical)
    (bCanonical : b.IsCanonical) :
    a.decode = b.decode ↔ a = b := by
  constructor
  · intro sameElement
    rw [← encode_decode aCanonical, sameElement, encode_decode bCanonical]
  · rintro rfl
    rfl

/--
Canonical values are a copy of the field: the operations return canonical
values of the results, and a multiplication does so in a debug build as well,
where an overflow of a double word would be a panic.
-/
theorem canonical_values_are_field
    {a b : MontgomeryU256}
    (aCanonical : a.IsCanonical)
    (bCanonical : b.IsCanonical) :
    (∀ profile,
      Returns (a.montMul profile b) (a.decode * b.decode) ∧
        Returns (a.montSqr profile) (a.decode * a.decode)) ∧
      Returns (.ok (a.montAdd b)) (a.decode + b.decode) ∧
      Returns (.ok (a.montSub b)) (a.decode - b.decode) ∧
      one.IsCanonical ∧
      one.decode = 1 ∧
      (a.decode = b.decode ↔ a = b) ∧
      ∀ element, ∃ value : MontgomeryU256,
        value.IsCanonical ∧ value.decode = element := by
  have aEncoded := encode_decode aCanonical
  have bEncoded := encode_decode bCanonical
  refine ⟨fun profile => ⟨?_, ?_⟩, ?_, ?_, ?_, ?_,
    decode_inj aCanonical bCanonical, fun element => ?_⟩
  · apply returns_encode
    rw [← montMul_encode, aEncoded, bEncoded]
  · apply returns_encode
    rw [← montSqr_encode, aEncoded]
  · apply returns_encode
    rw [← montAdd_encode, aEncoded, bEncoded]
  · apply returns_encode
    rw [← montSub_encode, aEncoded, bEncoded]
  · rw [one_eq]
    exact encode_canonical 1
  · rw [one_eq, decode_encode]
  · exact ⟨encode element, encode_canonical element, decode_encode element⟩

/-- One and its double, for instance. -/
theorem one_and_two_are_field :
    Returns ((encode 1).montMul .debug (encode 2)) (1 * 2) := by
  have product :=
    ((canonical_values_are_field (encode_canonical 1)
      (encode_canonical 2)).1 .debug).1
  rwa [decode_encode, decode_encode] at product

/--
Every exponent of 256 bits gives the power, and an inverse multiplies with its
value to one.
-/
theorem powers_and_inverses
    {a : MontgomeryU256}
    (canonical : a.IsCanonical)
    (profile : Profile) :
    (∀ exp : List Nat,
        exp.length = 4 → AreLimbs exp →
          Returns (a.montPow profile exp) (a.decode ^ value exp)) ∧
      (a ≠ zero →
        ∃ inverse,
          a.montInv profile = .ok inverse ∧
            a.montMul profile inverse = .ok one) ∧
      zero.montInv profile = .ok zero := by
  have encoded := encode_decode canonical
  refine ⟨fun exp _ areLimbs => ?_, fun nonzero => ?_, ?_⟩
  · apply returns_encode
    rw [← montPow_encode areLimbs, encoded]
  · have unit : a.decode ≠ 0 := by
      intro isZero
      rw [isZero, ← zero_eq] at encoded
      exact nonzero encoded.symm
    refine ⟨encode a.decode⁻¹, ?_, ?_⟩
    · rw [← montInv_encode, encoded]
    · calc
        a.montMul profile (encode a.decode⁻¹)
          = (encode a.decode).montMul profile (encode a.decode⁻¹) := by
            rw [encoded]
        _ = .ok one := by
            rw [montMul_encode, mul_inv_cancel₀ unit, one_eq]
  · rw [zero_eq, montInv_encode, inv_zero]

/-- The cube of two, for instance. -/
theorem cube_of_two :
    Returns ((encode 2).montPow .debug [3, 0, 0, 0])
      (2 ^ value [3, 0, 0, 0]) := by
  have power :=
    (powers_and_inverses (encode_canonical 2) .debug).1 [3, 0, 0, 0] rfl
      (by unfold AreLimbs; decide)
  rwa [decode_encode] at power

/--
Every value of 256 bits is reduced on its way through the domain, and every
canonical value comes back into it.
-/
theorem conversions_round_trip
    (profile : Profile)
    (x : MontgomeryU256) :
    (∃ converted back,
        x.toMontgomery profile = .ok converted ∧
          converted.IsCanonical ∧
          converted.fromMontgomery profile = .ok back ∧
          value back.limbs = value x.limbs % Bn254.order) ∧
      ∀ y : MontgomeryU256,
        y.IsCanonical →
          ∃ back,
            y.fromMontgomery profile = .ok back ∧
              back.toMontgomery profile = .ok y := by
  constructor
  · refine ⟨_, _, toMontgomery_eq x, encode_canonical _,
      fromMontgomery_encode, ?_⟩
    have back :=
      cast_encode ((value x.limbs : ZMod Bn254.order) * (2 ^ 256)⁻¹)
    rw [mul_assoc, inv_mul_cancel₀ radix_ne_zero, mul_one] at back
    have sameResidue := (ZMod.natCast_eq_natCast_iff' _ _ _).mp back
    rwa [Nat.mod_eq_of_lt (encode_canonical _)] at sameResidue
  · intro y canonical
    refine ⟨encode (y.decode * (2 ^ 256)⁻¹), ?_, ?_⟩
    · rw [← fromMontgomery_encode, encode_decode canonical]
    · rw [toMontgomery_eq, cast_encode, mul_assoc,
        inv_mul_cancel₀ radix_ne_zero, mul_one, encode_decode canonical]

/-- The largest value of 256 bits is reduced, and one comes back. -/
theorem largest_value_is_reduced :
    (∃ converted back,
        (ofNumber (2 ^ 256 - 1)).toMontgomery .debug = .ok converted ∧
          converted.IsCanonical ∧
          converted.fromMontgomery .debug = .ok back ∧
          value back.limbs = (2 ^ 256 - 1) % Bn254.order) ∧
      ∃ back,
        one.fromMontgomery .debug = .ok back ∧
          back.toMontgomery .debug = .ok one := by
  have isLargest : value (ofNumber (2 ^ 256 - 1)).limbs = 2 ^ 256 - 1 :=
    value_ofNumber (by norm_num)
  obtain ⟨reduced, comesBack⟩ :=
    conversions_round_trip .debug (ofNumber (2 ^ 256 - 1))
  rw [isLargest] at reduced
  refine ⟨reduced, comesBack one ?_⟩
  rw [one_eq]
  exact encode_canonical 1

end MontgomeryU256

end YieldDaemon
