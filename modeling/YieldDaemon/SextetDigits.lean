import Mathlib.Tactic

namespace SextetDigits

/-!
# Bytes in digits of six bits

Three bytes have as many bits as four digits below 64.  A byte string that ends
in the middle of such a group leaves some bits of its last digit at zero.  The
digits give back the bytes, and the digits of some bytes are those that leave
neither a single digit nor a nonzero bit at the end.
-/

/-- Numbers are reduced to digits of six bits. -/
instance neZero_sixtyFour : NeZero 64 :=
  ⟨by decide⟩

/-- The digits of some bytes, with zero bits after the last byte. -/
def digits : List UInt8 → List (Fin 64)
  | a :: b :: c :: rest =>
    Fin.ofNat 64 (a.toNat / 4) ::
      Fin.ofNat 64 (a.toNat % 4 * 16 + b.toNat / 16) ::
      Fin.ofNat 64 (b.toNat % 16 * 4 + c.toNat / 64) ::
      Fin.ofNat 64 c.toNat :: digits rest
  | [a, b] =>
    [Fin.ofNat 64 (a.toNat / 4),
      Fin.ofNat 64 (a.toNat % 4 * 16 + b.toNat / 16),
      Fin.ofNat 64 (b.toNat % 16 * 4)]
  | [a] => [Fin.ofNat 64 (a.toNat / 4), Fin.ofNat 64 (a.toNat % 4 * 16)]
  | [] => []

/-- The first byte of a group. -/
def firstByte (w x : Fin 64) : UInt8 :=
  UInt8.ofNat (w.val * 4 + x.val / 16)

/-- The second byte of a group. -/
def secondByte (x y : Fin 64) : UInt8 :=
  UInt8.ofNat (x.val % 16 * 16 + y.val / 4)

/-- The third byte of a group. -/
def thirdByte (y z : Fin 64) : UInt8 :=
  UInt8.ofNat (y.val % 4 * 64 + z.val)

/-- The bytes of some digits, where the bits after the last byte are dropped. -/
def bytes : List (Fin 64) → List UInt8
  | w :: x :: y :: z :: rest =>
    firstByte w x :: secondByte x y :: thirdByte y z :: bytes rest
  | [w, x, y] => [firstByte w x, secondByte x y]
  | [w, x] => [firstByte w x]
  | _ => []

/-- No digit is left alone, and the bits after the last byte are zero. -/
def complete : List (Fin 64) → Bool
  | _ :: _ :: _ :: _ :: rest => complete rest
  | [_, _, y] => y.val % 4 = 0
  | [_, x] => x.val % 16 = 0
  | [_] => false
  | [] => true

section Groups

variable
  (a b c : UInt8)
  (w x y z : Fin 64)

theorem toNat_firstByte : (firstByte w x).toNat = w.val * 4 + x.val / 16 :=
  UInt8.toNat_ofNat_of_lt' (by dsimp only [UInt8.size]; omega)

theorem toNat_secondByte :
    (secondByte x y).toNat = x.val % 16 * 16 + y.val / 4 :=
  UInt8.toNat_ofNat_of_lt' (by dsimp only [UInt8.size]; omega)

theorem toNat_thirdByte : (thirdByte y z).toNat = y.val % 4 * 64 + z.val :=
  UInt8.toNat_ofNat_of_lt' (by dsimp only [UInt8.size]; omega)

theorem firstByte_digits :
    firstByte (Fin.ofNat 64 (a.toNat / 4))
      (Fin.ofNat 64 (a.toNat % 4 * 16 + b.toNat / 16)) = a := by
  have aBound := a.toNat_lt
  have bBound := b.toNat_lt
  rw [← UInt8.toNat_inj, toNat_firstByte]
  simp only [Fin.ofNat]
  omega

theorem firstByte_digits_last :
    firstByte (Fin.ofNat 64 (a.toNat / 4))
      (Fin.ofNat 64 (a.toNat % 4 * 16)) = a :=
  firstByte_digits a 0

theorem secondByte_digits :
    secondByte (Fin.ofNat 64 (a.toNat % 4 * 16 + b.toNat / 16))
      (Fin.ofNat 64 (b.toNat % 16 * 4 + c.toNat / 64)) = b := by
  have bBound := b.toNat_lt
  have cBound := c.toNat_lt
  rw [← UInt8.toNat_inj, toNat_secondByte]
  simp only [Fin.ofNat]
  omega

theorem secondByte_digits_last :
    secondByte (Fin.ofNat 64 (a.toNat % 4 * 16 + b.toNat / 16))
      (Fin.ofNat 64 (b.toNat % 16 * 4)) = b :=
  secondByte_digits a b 0

theorem thirdByte_digits :
    thirdByte (Fin.ofNat 64 (b.toNat % 16 * 4 + c.toNat / 64))
      (Fin.ofNat 64 c.toNat) = c := by
  have cBound := c.toNat_lt
  rw [← UInt8.toNat_inj, toNat_thirdByte]
  simp only [Fin.ofNat]
  omega

theorem digit_firstByte :
    Fin.ofNat 64 ((firstByte w x).toNat / 4) = w := by
  apply Fin.ext
  simp only [Fin.ofNat, toNat_firstByte]
  omega

theorem digit_firstByte_secondByte :
    Fin.ofNat 64
      ((firstByte w x).toNat % 4 * 16 + (secondByte x y).toNat / 16) = x := by
  apply Fin.ext
  simp only [Fin.ofNat, toNat_firstByte, toNat_secondByte]
  omega

theorem digit_secondByte_thirdByte :
    Fin.ofNat 64
      ((secondByte x y).toNat % 16 * 4 + (thirdByte y z).toNat / 64) = y := by
  apply Fin.ext
  simp only [Fin.ofNat, toNat_secondByte, toNat_thirdByte]
  omega

theorem digit_thirdByte :
    Fin.ofNat 64 (thirdByte y z).toNat = z := by
  apply Fin.ext
  simp only [Fin.ofNat, toNat_thirdByte]
  omega

/-- Zero bits after the first byte are those of its second digit. -/
theorem digit_firstByte_last
    (spare : x.val % 16 = 0) :
    Fin.ofNat 64 ((firstByte w x).toNat % 4 * 16) = x := by
  apply Fin.ext
  simp only [Fin.ofNat, toNat_firstByte]
  omega

/-- Zero bits after the second byte are those of its second digit. -/
theorem digit_secondByte_last
    (spare : y.val % 4 = 0) :
    Fin.ofNat 64 ((secondByte x y).toNat % 16 * 4) = y := by
  apply Fin.ext
  simp only [Fin.ofNat, toNat_secondByte]
  omega

end Groups

/-- The digits of some bytes give these bytes back. -/
theorem bytes_digits (data : List UInt8) : bytes (digits data) = data := by
  induction data using digits.induct with
  | case1 a b c rest inductionHypothesis =>
      simp only [digits, bytes, firstByte_digits, secondByte_digits,
        thirdByte_digits, inductionHypothesis]
  | case2 a b =>
      simp only [digits, bytes, firstByte_digits, secondByte_digits_last]
  | case3 a =>
      simp only [digits, bytes, firstByte_digits_last]
  | case4 =>
      rfl

/-- The digits of some bytes are complete. -/
theorem complete_digits (data : List UInt8) : complete (digits data) := by
  induction data using digits.induct with
  | case1 a b c rest inductionHypothesis =>
      simpa only [digits, complete] using inductionHypothesis
  | case2 a b =>
      simp only [digits, complete, Fin.ofNat, decide_eq_true_eq]
      omega
  | case3 a =>
      simp only [digits, complete, Fin.ofNat, decide_eq_true_eq]
      omega
  | case4 =>
      rfl

/-- Complete digits are those of the bytes that they give. -/
theorem digits_bytes
    {ds : List (Fin 64)}
    (isComplete : complete ds) :
    digits (bytes ds) = ds := by
  induction ds using complete.induct with
  | case1 w x y z rest inductionHypothesis =>
      simp only [bytes, digits, digit_firstByte, digit_firstByte_secondByte,
        digit_secondByte_thirdByte, digit_thirdByte,
        inductionHypothesis isComplete]
  | case2 w x y =>
      simp only [complete, decide_eq_true_eq] at isComplete
      simp only [bytes, digits, digit_firstByte, digit_firstByte_secondByte,
        digit_secondByte_last x y isComplete]
  | case3 w x =>
      simp only [complete, decide_eq_true_eq] at isComplete
      simp only [bytes, digits, digit_firstByte,
        digit_firstByte_last w x isComplete]
  | case4 w =>
      exact absurd isComplete nofun
  | case5 =>
      rfl

/-- The complete digits are those of some bytes. -/
theorem exists_digits_iff {ds : List (Fin 64)} :
    (∃ data, digits data = ds) ↔ complete ds := by
  constructor
  · rintro ⟨data, rfl⟩
    exact complete_digits data
  · intro isComplete
    exact ⟨bytes ds, digits_bytes isComplete⟩

/-- A group of bytes has one digit more than bytes, up to four. -/
theorem length_digits_mod (data : List UInt8) :
    (4 - (digits data).length % 4) % 4 = (3 - data.length % 3) % 3 := by
  induction data using digits.induct with
  | case1 a b c rest inductionHypothesis =>
      simp only [digits, List.length_cons]
      omega
  | case2 a b =>
      rfl
  | case3 a =>
      rfl
  | case4 =>
      rfl

end SextetDigits
