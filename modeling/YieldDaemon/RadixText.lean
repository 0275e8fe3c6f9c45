import Mathlib.Tactic

namespace RadixText

/-!
# Numbers as texts of digits

A number is read digit by digit into a word of fixed width, and reading fails as
soon as the word overflows.  Texts that write a number, padded with zeros or not and
in letters of either case, are read exactly if the number fits.
-/

/-- A text, as its characters. -/
abbrev Text := List Char

/-- The value of a digit, in either case of its letter. -/
def digitValue (base : Nat) (char : Char) : Option Nat :=
  let value :=
    if '0' ≤ char ∧ char ≤ '9' then
      some (char.toNat - '0'.toNat)
    else if 'a' ≤ char ∧ char ≤ 'z' then
      some (char.toNat - 'a'.toNat + 10)
    else if 'A' ≤ char ∧ char ≤ 'Z' then
      some (char.toNat - 'A'.toNat + 10)
    else
      none
  value.filter (· < base)

/-- Take one more digit into a word. -/
def pushDigit (base bits : Nat) (word : Nat) (char : Char) : Option Nat :=
  (digitValue base char).bind fun digit =>
    if word * base + digit < 2 ^ bits then
      some (word * base + digit)
    else
      none

/-- Read an unsigned word; a plus sign may stand in front of its digits. -/
def parseWord (base bits : Nat) : Text → Option Nat
  | [] => none
  | ['+'] => none
  | '+' :: digits => digits.foldlM (pushDigit base bits) 0
  | digits => digits.foldlM (pushDigit base bits) 0

/-- The digits of a text, in letters of either case, write a number. -/
inductive Writes (base : Nat) : Text → Nat → Prop where
  | digit
      {char : Char}
      {value : Nat}
      (isDigit : digitValue base char = some value) :
      Writes base [char] value
  | snoc
      {text : Text}
      {number value : Nat}
      {char : Char}
      (earlier : Writes base text number)
      (isDigit : digitValue base char = some value) :
      Writes base (text ++ [char]) (number * base + value)

variable
  {base bits number word value : Nat}
  {text : Text}
  {char : Char}

theorem pushDigit_eq_some :
    pushDigit base bits word char = some number ↔
      ∃ value,
        digitValue base char = some value ∧
          word * base + value < 2 ^ bits ∧
          word * base + value = number := by
  unfold pushDigit
  cases digitValue base char with
  | none =>
      simp
  | some value =>
      simp [Option.ite_none_right_eq_some]

theorem digitValue_lt (isDigit : digitValue base char = some value) :
    value < base := by
  unfold digitValue at isDigit
  simpa using (Option.mem_filter_iff.mp isDigit).2

theorem Writes.nonempty (writes : Writes base text number) : text ≠ [] := by
  cases writes with
  | digit => exact List.cons_ne_nil _ _
  | snoc => exact List.concat_ne_nil _ _

/-- Digits are read exactly if the number that they write fits. -/
theorem foldlM_eq_some_iff :
    text ≠ [] ∧ text.foldlM (pushDigit base bits) 0 = some number ↔
      Writes base text number ∧ number < 2 ^ bits := by
  constructor
  · rintro ⟨nonempty, read⟩
    induction text using List.reverseRecOn generalizing number with
    | nil =>
        exact absurd rfl nonempty
    | append_singleton text char inductionHypothesis =>
        rw [List.foldlM_append] at read
        obtain ⟨word, earlier, last⟩ := Option.bind_eq_some_iff.mp read
        rw [List.foldlM_cons] at last
        obtain ⟨pushed, isPushed, same⟩ := Option.bind_eq_some_iff.mp last
        obtain rfl := Option.some.inj same
        obtain ⟨value, isDigit, fits, rfl⟩ := pushDigit_eq_some.mp isPushed
        refine ⟨?_, fits⟩
        cases text with
        | nil =>
            obtain rfl := Option.some.inj earlier
            rw [Nat.zero_mul, Nat.zero_add]
            exact .digit isDigit
        | cons first text =>
            exact .snoc
              (inductionHypothesis (List.cons_ne_nil _ _) earlier).1 isDigit
  · rintro ⟨writes, fits⟩
    refine ⟨writes.nonempty, ?_⟩
    induction writes with
    | digit isDigit =>
        rw [List.foldlM_cons,
          pushDigit_eq_some.mpr ⟨_, isDigit, by simpa using fits, rfl⟩]
        simp
    | @snoc text number value char earlier isDigit inductionHypothesis =>
        have wide : 1 ≤ base := Nat.one_le_of_lt (digitValue_lt isDigit)
        have smaller : number ≤ number * base := Nat.le_mul_of_pos_right _ wide
        rw [List.foldlM_append, inductionHypothesis (by omega)]
        simp only [Option.bind_eq_bind, Option.bind_some, List.foldlM_cons,
          pushDigit_eq_some.mpr ⟨_, isDigit, fits, rfl⟩, List.foldlM_nil]
        rfl

/-- A text writes one number at most. -/
theorem Writes.unique
    {other : Nat}
    (writes : Writes base text number)
    (writesOther : Writes base text other) :
    number = other := by
  -- Both are read into a word that is wide enough for both.
  have fits (some : Nat) (least : some ≤ number + other) :
      some < 2 ^ (number + other) :=
    Nat.lt_two_pow_self.trans_le (Nat.pow_le_pow_right Nat.two_pos least)
  have read :=
    foldlM_eq_some_iff.mpr ⟨writes, fits number (Nat.le_add_right _ _)⟩
  have readOther :=
    foldlM_eq_some_iff.mpr ⟨writesOther, fits other (Nat.le_add_left _ _)⟩
  exact Option.some.inj (read.2.symm.trans readOther.2)

/-- A character that is no digit is not among the digits. -/
theorem Writes.not_mem
    (writes : Writes base text number)
    (noDigit : digitValue base char = none) :
    char ∉ text := by
  induction writes with
  | digit isDigit =>
      intro member
      rw [List.mem_singleton.mp member, isDigit] at noDigit
      exact absurd noDigit nofun
  | snoc _ isDigit inductionHypothesis =>
      intro member
      rcases List.mem_append.mp member with earlier | last
      · exact inductionHypothesis earlier
      · rw [List.mem_singleton.mp last, isDigit] at noDigit
        exact absurd noDigit nofun

/-- Zeros in front of the digits change nothing. -/
theorem Writes.zeros
    (writes : Writes base text number)
    (zeros : Nat) :
    Writes base (List.replicate zeros '0' ++ text) number := by
  have zero {value : Nat} {char : Char}
      (isDigit : digitValue base char = some value) :
      digitValue base '0' = some 0 := by
    have wide : 0 < base := Nat.zero_lt_of_lt (digitValue_lt isDigit)
    simp [digitValue, wide]
  induction zeros with
  | zero =>
      exact writes
  | succ zeros inductionHypothesis =>
      rw [List.replicate_succ, List.cons_append]
      generalize List.replicate zeros '0' ++ text = digits
        at inductionHypothesis
      clear writes
      induction inductionHypothesis with
      | @digit char value isDigit =>
          have written := (Writes.digit (zero isDigit)).snoc isDigit
          rwa [Nat.zero_mul, Nat.zero_add] at written
      | snoc _ isDigit inductionHypothesis =>
          exact inductionHypothesis.snoc isDigit

/-- A number is read exactly if it fits into the word. -/
theorem Writes.parseWord (writes : Writes base text number) :
    parseWord base bits text =
      if number < 2 ^ bits then some number else none := by
  have read :
      text.foldlM (pushDigit base bits) 0 =
        if number < 2 ^ bits then some number else none := by
    split
    · next fits =>
        exact (foldlM_eq_some_iff.mpr ⟨writes, fits⟩).2
    · next large =>
        refine Option.eq_none_iff_forall_ne_some.mpr fun other isRead => ?_
        obtain ⟨writesOther, fits⟩ :=
          foldlM_eq_some_iff.mp ⟨writes.nonempty, isRead⟩
        exact large (writes.unique writesOther ▸ fits)
  have noPlus : '+' ∉ text := writes.not_mem (by simp [digitValue])
  have nonempty := writes.nonempty
  rw [← read]
  match text with
  | [] => exact absurd rfl nonempty
  | '+' :: digits => exact absurd List.mem_cons_self noPlus
  | char :: digits =>
      rw [RadixText.parseWord]
      · exact nofun
      · intro same
        rw [same] at noPlus
        exact noPlus List.mem_cons_self
      · intro rest same
        rw [same] at noPlus
        exact noPlus List.mem_cons_self

end RadixText
