import Mathlib.Tactic
import Mathlib.Data.Nat.Digits.Lemmas

namespace RadixConversion

/-!
# Conversion between number systems

A string of digits is converted digit by digit: the digits found so far in the
target base are multiplied by the source base, the next digit is added, and
what is left of the carry is appended.  Zeros in front carry no value and are
counted apart, so the conversion back gives the same string.
-/

/-- Multiply the digits by a factor from the least one on, with a carry. -/
def scale (base factor : Nat) : List Nat → Nat → List Nat × Nat
  | [], carry => ([], carry)
  | digit :: digits, carry =>
    let total := carry + digit * factor
    let (later, left) := scale base factor digits (total / base)
    (total % base :: later, left)

/-- The digits of what is left of a carry, at most `count` of them. -/
def carryDigits (base : Nat) : Nat → Nat → List Nat
  | 0, _ => []
  | count + 1, carry =>
    if 0 < carry then
      carry % base :: carryDigits base count (carry / base)
    else
      []

/-- Append one digit of the source base to the digits found so far. -/
def pushDigit (base factor count : Nat) (digits : List Nat) (value : Nat) :
    List Nat :=
  let (scaled, carry) := scale base factor digits value
  scaled ++ carryDigits base count carry

/-- How many zeros a string of digits starts with. -/
def leadingZeros (values : List Nat) : Nat :=
  (values.takeWhile (fun value => value = 0)).length

/-- Convert a string of digits from one base to another. -/
def convert (source target count : Nat) (values : List Nat) : List Nat :=
  List.replicate (leadingZeros values) 0 ++
    (values.foldl (pushDigit target source count) []).reverse

section Digits

variable {base factor count : Nat}

/-- The scaled digits and the carry are the digits of the scaled number. -/
theorem scale_digits
    (wide : 1 < base)
    (positive : 0 < factor)
    (number carry : Nat) :
    (scale base factor (Nat.digits base number) carry).1 ++
        Nat.digits base
          (scale base factor (Nat.digits base number) carry).2 =
      Nat.digits base (number * factor + carry) := by
  induction number using Nat.strongRecOn generalizing carry with
  | ind number inductionHypothesis =>
      rcases Nat.eq_zero_or_pos number with rfl | nonzero
      · simp [scale]
      · let total := carry + number % base * factor
        have later :=
          inductionHypothesis (number / base)
            (Nat.div_lt_self nonzero wide) (total / base)
        have split :
            number * factor + carry =
              total % base +
                base * (number / base * factor + total / base) := by
          calc number * factor + carry
              = (base * (number / base) + number % base) * factor +
                  carry := by rw [Nat.div_add_mod]
            _ = total + base * (number / base * factor) := by
                simp only [total]
                ring
            _ = total % base + base * (total / base) +
                  base * (number / base * factor) := by
                rw [Nat.mod_add_div]
            _ = total % base +
                  base * (number / base * factor + total / base) := by
                ring
        have scaledPositive : 0 < number * factor + carry :=
          Nat.add_pos_left (Nat.mul_pos nonzero positive) carry
        have low : total % base < base :=
          Nat.mod_lt _ (Nat.zero_lt_of_lt wide)
        rw [Nat.digits_def' wide nonzero,
          Nat.digits_def' wide scaledPositive, split,
          Nat.add_mul_mod_self_left, Nat.mod_mod,
          Nat.add_mul_div_left _ _ (Nat.zero_lt_of_lt wide),
          Nat.div_eq_of_lt low, Nat.zero_add, ← later]
        rfl

/-- The carry stays below the factor. -/
theorem scale_carry_lt
    {digits : List Nat}
    {carry : Nat}
    (digitsLt : ∀ digit ∈ digits, digit < base)
    (carryLt : carry < factor) :
    (scale base factor digits carry).2 < factor := by
  induction digits generalizing carry with
  | nil =>
      exact carryLt
  | cons digit digits inductionHypothesis =>
      refine inductionHypothesis
        (fun other member => digitsLt other (List.mem_cons_of_mem _ member))
        ?_
      have digitLt := digitsLt digit List.mem_cons_self
      rw [Nat.div_lt_iff_lt_mul (Nat.zero_lt_of_lt digitLt)]
      calc carry + digit * factor
          < factor + digit * factor := Nat.add_lt_add_right carryLt _
        _ = (digit + 1) * factor := by ring
        _ ≤ base * factor := Nat.mul_le_mul_right factor digitLt
        _ = factor * base := Nat.mul_comm base factor

theorem carryDigits_eq
    (wide : 1 < base)
    {carry : Nat}
    (bounded : carry < base ^ count) :
    carryDigits base count carry = Nat.digits base carry := by
  induction count generalizing carry with
  | zero =>
      have nothing : carry = 0 := Nat.lt_one_iff.mp bounded
      rw [nothing, Nat.digits_zero]
      rfl
  | succ count inductionHypothesis =>
      rcases Nat.eq_zero_or_pos carry with rfl | positive
      · simp [carryDigits]
      · have rest : carry / base < base ^ count := by
          rw [Nat.div_lt_iff_lt_mul (Nat.zero_lt_of_lt wide)]
          rwa [Nat.pow_succ] at bounded
        rw [carryDigits, if_pos positive, inductionHypothesis rest,
          Nat.digits_def' wide positive]

/-- Pushing a digit onto the digits of a number appends it to the number. -/
theorem pushDigit_digits
    (wide : 1 < base)
    (enough : factor ≤ base ^ count)
    {value : Nat}
    (valueLt : value < factor)
    (number : Nat) :
    pushDigit base factor count (Nat.digits base number) value =
      Nat.digits base (number * factor + value) := by
  have carryLt :
      (scale base factor (Nat.digits base number) value).2 < factor :=
    scale_carry_lt (fun _ member => Nat.digits_lt_base wide member) valueLt
  rw [← scale_digits wide (Nat.zero_lt_of_lt valueLt),
    ← carryDigits_eq wide (carryLt.trans_le enough)]
  rfl

/-- The digits pushed one after the other are those of the whole number. -/
theorem foldl_pushDigit
    (wide : 1 < base)
    (enough : factor ≤ base ^ count)
    {values : List Nat}
    (valuesLt : ∀ value ∈ values, value < factor) :
    values.foldl (pushDigit base factor count) [] =
      Nat.digits base (Nat.ofDigits factor values.reverse) := by
  induction values using List.reverseRecOn with
  | nil =>
      simp
  | append_singleton values value inductionHypothesis =>
      have before := inductionHypothesis
        (fun other member => valuesLt other (List.mem_append_left _ member))
      have valueLt := valuesLt value (by simp)
      rw [List.foldl_append, before, List.foldl_cons, List.foldl_nil,
        pushDigit_digits wide enough valueLt, List.reverse_append,
        List.reverse_singleton, List.singleton_append, Nat.ofDigits_cons,
        Nat.add_comm, Nat.mul_comm]

end Digits

section Strings

variable {base : Nat}

@[simp] theorem leadingZeros_nil : leadingZeros [] = 0 :=
  rfl

@[simp] theorem leadingZeros_zero_cons (values : List Nat) :
    leadingZeros (0 :: values) = leadingZeros values + 1 := by
  simp [leadingZeros]

theorem leadingZeros_cons_of_ne
    {value : Nat}
    (nonzero : value ≠ 0)
    (values : List Nat) :
    leadingZeros (value :: values) = 0 := by
  simp [leadingZeros, nonzero]

/-- A string of digits is its leading zeros and the digits of its number. -/
theorem zeros_append_digits
    (wide : 1 < base)
    {values : List Nat}
    (valuesLt : ∀ value ∈ values, value < base) :
    List.replicate (leadingZeros values) 0 ++
        (Nat.digits base (Nat.ofDigits base values.reverse)).reverse =
      values := by
  induction values with
  | nil =>
      simp
  | cons value values inductionHypothesis =>
      rcases Nat.eq_zero_or_pos value with rfl | positive
      · have later := inductionHypothesis
          (fun other member => valuesLt other (List.mem_cons_of_mem _ member))
        rw [leadingZeros_zero_cons, List.replicate_succ, List.cons_append,
          List.reverse_cons, Nat.ofDigits_append_zero, later]
      · have top :
            ∀ nonempty : (value :: values).reverse ≠ [],
              (value :: values).reverse.getLast nonempty ≠ 0 := by
          intro nonempty
          rw [List.getLast_reverse]
          exact positive.ne'
        rw [leadingZeros_cons_of_ne positive.ne', List.replicate_zero,
          List.nil_append, Nat.digits_ofDigits base wide _ ?_ top,
          List.reverse_reverse]
        intro digit member
        exact valuesLt digit (List.mem_reverse.mp member)

/-- The digits of a number have no zero in front. -/
theorem leadingZeros_append_digits
    (zeros number : Nat) :
    leadingZeros
        (List.replicate zeros 0 ++ (Nat.digits base number).reverse) =
      zeros := by
  induction zeros with
  | zero =>
      rcases Nat.eq_zero_or_pos number with rfl | positive
      · simp
      · have nonempty : Nat.digits base number ≠ [] :=
          Nat.digits_ne_nil_iff_ne_zero.mpr positive.ne'
        rw [← List.dropLast_append_getLast nonempty, List.reverse_append,
          List.reverse_singleton, List.singleton_append,
          List.replicate_zero, List.nil_append]
        exact leadingZeros_cons_of_ne
          (Nat.getLast_digit_ne_zero base positive.ne') _
  | succ zeros inductionHypothesis =>
      rw [List.replicate_succ, List.cons_append, leadingZeros_zero_cons,
        inductionHypothesis]

variable {source target count back : Nat} {values : List Nat}

/-- A converted string is its zeros and the digits of the same number. -/
theorem convert_eq
    (wide : 1 < target)
    (enough : source ≤ target ^ count)
    (valuesLt : ∀ value ∈ values, value < source) :
    convert source target count values =
      List.replicate (leadingZeros values) 0 ++
        (Nat.digits target (Nat.ofDigits source values.reverse)).reverse := by
  rw [convert, foldl_pushDigit wide enough valuesLt]

/-- The digits of a converted string are digits of the target base. -/
theorem convert_lt
    (wide : 1 < target)
    (enough : source ≤ target ^ count)
    (valuesLt : ∀ value ∈ values, value < source) :
    ∀ digit ∈ convert source target count values, digit < target := by
  intro digit member
  rw [convert_eq wide enough valuesLt] at member
  rcases List.mem_append.mp member with zero | digits
  · rw [List.eq_of_mem_replicate zero]
    exact Nat.zero_lt_of_lt wide
  · exact Nat.digits_lt_base wide (List.mem_reverse.mp digits)

/-- The conversion back from the target base gives the same string. -/
theorem convert_convert
    (wideSource : 1 < source)
    (wideTarget : 1 < target)
    (enough : source ≤ target ^ count)
    (enoughBack : target ≤ source ^ back)
    (valuesLt : ∀ value ∈ values, value < source) :
    convert target source back (convert source target count values) =
      values := by
  rw [convert_eq wideSource enoughBack
      (convert_lt wideTarget enough valuesLt),
    convert_eq wideTarget enough valuesLt, leadingZeros_append_digits,
    List.reverse_append, List.reverse_reverse, List.reverse_replicate,
    Nat.ofDigits_append_replicate_zero, Nat.ofDigits_digits]
  exact zeros_append_digits wideSource valuesLt

end Strings

end RadixConversion
