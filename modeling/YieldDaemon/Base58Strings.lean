import YieldDaemon.Base58

namespace YieldDaemon

open CheckedArithmetic RadixConversion

/-!
# Base58 strings

A string over the alphabet is the text of its digits, so the conversion between
number systems gives it back from the bytes that it decodes to.  Any other
string has a byte outside the alphabet.  The carries of both loops are u32, and
they stay far below its bound.
-/

/-- The character of a digit. -/
def base58Char (digit : Fin 58) : Char :=
  Char.ofNat (base58Byte digit).toNat

/-- Every character is in the alphabet. -/
def IsBase58 (s : String) : Prop :=
  ∀ c ∈ s.toList, ∃ digit, c = base58Char digit

instance (s : String) : Decidable (IsBase58 s) :=
  List.decidableBAll (fun c => ∃ digit, c = base58Char digit) s.toList

section Carries

variable (profile : Profile)

/-- The digits times 256 and a carry, where the carry is a u32. -/
def scaleBase58U32 : List (Fin 58) → Nat → Checked (List (Fin 58) × Nat)
  | [], carry => .ok ([], carry)
  | digit :: digits, carry => do
    let shifted ← shl profile 32 digit.val 8
    let total ← add profile 32 carry shifted
    let (later, left) ← scaleBase58U32 digits (total / 58)
    return (Fin.ofNat 58 total :: later, left)

def pushByteU32 (digits : List (Fin 58)) (byte : UInt8) :
    Checked (List (Fin 58)) := do
  let (scaled, carry) ← scaleBase58U32 profile digits byte.toNat
  return scaled ++ carryBase58 6 carry

/-- The encoder with carries of u32. -/
def bs58EncodeU32 (data : List UInt8) : Checked String :=
  if data.isEmpty then
    return ""
  else do
    let leadingZeros := (data.takeWhile (fun byte => byte = 0)).length
    let digits ← data.foldlM (pushByteU32 profile) []
    return String.ofList
      ((List.replicate leadingZeros 0 ++ digits.reverse).map base58Char)

/-- The bytes times 58 and a carry, where the carry is a u32. -/
def scaleBytesU32 : List UInt8 → Nat → Checked (List UInt8 × Nat)
  | [], carry => .ok ([], carry)
  | digit :: digits, carry => do
    let product ← mul profile 32 digit.toNat 58
    let total ← add profile 32 carry product
    let (later, left) ← scaleBytesU32 digits (total / 256)
    return (UInt8.ofNat (total % 256) :: later, left)

/-- Append a digit, or give up with the error of the source. -/
def pushBase58U32
    (digits : Except String (List UInt8))
    (byte : UInt8) : Checked (Except String (List UInt8)) :=
  match digits with
  | .error error => return .error error
  | .ok digits =>
    match base58Table[byte.toNat]? with
    | some value =>
      if value = 255 then
        return .error
          ("Invalid base58 character: " ++ (Char.ofNat byte.toNat).toString)
      else do
        let (scaled, carry) ← scaleBytesU32 profile digits value.toNat
        return .ok (scaled ++ carryBytes 4 carry)
    | none =>
      return .error
        ("Invalid base58 character: " ++ (Char.ofNat byte.toNat).toString)

/-- The decoder with carries of u32. -/
def bs58DecodeU32 (s : String) : Checked (Except String (List UInt8)) := do
  let bytes := s.toUTF8.data.toList
  let leadingOnes := (bytes.takeWhile (fun byte => byte = 49)).length
  let digits ← bytes.foldlM (pushBase58U32 profile) (.ok [])
  return digits.map (fun digits =>
    List.replicate leadingOnes 0 ++ digits.reverse)

end Carries

section CarryBounds

variable {profile : Profile}

/-- A carry below 256 stays below 256. -/
theorem scaleBase58U32_eq
    {carry : Nat}
    (small : carry < 256)
    (digits : List (Fin 58)) :
    scaleBase58U32 profile digits carry =
      .ok (timesTwoFiftySix digits carry) := by
  induction digits generalizing carry with
  | nil =>
      rfl
  | cons digit digits inductionHypothesis =>
      have digitLt := digit.isLt
      have shifted :
          shl profile 32 digit.val 8 = .ok (digit.val * 256) := by
        rw [shl_of_lt (by decide), Nat.shiftLeft_eq,
          Nat.mod_eq_of_lt (by omega)]
      have fits : carry + digit.val * 256 < 2 ^ 32 := by
        omega
      rw [scaleBase58U32, shifted, Checked.ok_bind, add_of_lt fits,
        Checked.ok_bind, inductionHypothesis (by omega)]
      rfl

theorem pushByteU32_eq (digits : List (Fin 58)) (byte : UInt8) :
    pushByteU32 profile digits byte = .ok (pushByte digits byte) := by
  rw [pushByteU32, scaleBase58U32_eq byte.toNat_lt]
  rfl

/-- The encoder does not overflow. -/
theorem bs58EncodeU32_eq (profile : Profile) (data : List UInt8) :
    bs58EncodeU32 profile data = .ok (bs58Encode data) := by
  have pushed :
      data.foldlM (pushByteU32 profile) [] = .ok (data.foldl pushByte []) :=
    Checked.foldlM_simulates id pushByte
      (fun byte _ digits => pushByteU32_eq digits byte) []
  unfold bs58EncodeU32 bs58Encode
  rw [pushed]
  split <;> rfl

/-- A carry below 58 stays below 58. -/
theorem scaleBytesU32_eq
    {carry : Nat}
    (small : carry < 58)
    (digits : List UInt8) :
    scaleBytesU32 profile digits carry =
      .ok (timesFiftyEight digits carry) := by
  induction digits generalizing carry with
  | nil =>
      rfl
  | cons digit digits inductionHypothesis =>
      have digitLt := digit.toNat_lt
      have productFits : digit.toNat * 58 < 2 ^ 32 := by
        omega
      have fits : carry + digit.toNat * 58 < 2 ^ 32 := by
        omega
      rw [scaleBytesU32, mul, fit_of_lt productFits, Checked.ok_bind,
        add_of_lt fits, Checked.ok_bind, inductionHypothesis (by omega)]
      rfl

/-- A value of the table is a digit, or stands for none. -/
theorem base58Table_lt
    {position : Nat}
    {value : UInt8}
    (listed : base58Table[position]? = some value)
    (found : value ≠ 255) :
    value.toNat < 58 := by
  have all :
      ∀ value ∈ base58Table, value ≠ 255 → value.toNat < 58 := by
    decide +kernel
  exact all value (List.mem_of_getElem? listed) found

theorem pushBase58U32_eq
    (digits : Except String (List UInt8))
    (byte : UInt8) :
    pushBase58U32 profile digits byte =
      .ok (digits.bind (fun digits => pushBase58 digits byte)) := by
  cases digits with
  | error error =>
      rfl
  | ok digits =>
      simp only [pushBase58U32, Except.bind, pushBase58]
      cases listed : base58Table[byte.toNat]? with
      | none =>
          rfl
      | some value =>
          dsimp only
          split
          · rfl
          · next found =>
              rw [scaleBytesU32_eq (base58Table_lt listed found)]
              rfl

/-- Giving up at the first error is passing the error on. -/
theorem foldl_bind_pushBase58
    (bytes : List UInt8)
    (digits : Except String (List UInt8)) :
    bytes.foldl
        (fun digits byte => digits.bind (fun digits => pushBase58 digits byte))
        digits =
      digits.bind (fun digits => bytes.foldlM pushBase58 digits) := by
  induction bytes generalizing digits with
  | nil =>
      cases digits <;> rfl
  | cons byte bytes inductionHypothesis =>
      rw [List.foldl_cons, inductionHypothesis]
      cases digits <;> rfl

/-- The decoder does not overflow. -/
theorem bs58DecodeU32_eq (profile : Profile) (s : String) :
    bs58DecodeU32 profile s = .ok (bs58Decode s) := by
  let bytes := s.toUTF8.data.toList
  have pushed :
      bytes.foldlM (pushBase58U32 profile) (.ok []) =
        .ok (bytes.foldlM pushBase58 []) := by
    refine (Checked.foldlM_simulates id
      (fun digits byte => digits.bind (fun digits => pushBase58 digits byte))
      (fun byte _ digits => pushBase58U32_eq digits byte) (.ok [])).trans ?_
    exact congrArg Except.ok (foldl_bind_pushBase58 bytes (.ok []))
  unfold bs58DecodeU32 bs58Decode
  dsimp only
  rw [pushed, Checked.ok_bind]
  cases bytes.foldlM pushBase58 [] <;> rfl

end CarryBounds

/-- A string over the alphabet is the text of its digits. -/
theorem exists_digits_of_isBase58
    {s : String}
    (valid : IsBase58 s) :
    ∃ digits : List (Fin 58), s = String.ofList (digits.map base58Char) := by
  have each :
      ∀ chars : List Char,
        (∀ c ∈ chars, ∃ digit, c = base58Char digit) →
          ∃ digits : List (Fin 58), chars = digits.map base58Char := by
    intro chars
    induction chars with
    | nil =>
        exact fun _ => ⟨[], rfl⟩
    | cons c chars inductionHypothesis =>
        intro inAlphabet
        rw [List.forall_mem_cons] at inAlphabet
        obtain ⟨digit, rfl⟩ := inAlphabet.1
        obtain ⟨digits, rfl⟩ := inductionHypothesis inAlphabet.2
        exact ⟨digit :: digits, rfl⟩
  obtain ⟨digits, chars⟩ := each s.toList valid
  exact ⟨digits, by rw [← chars, String.ofList_toList]⟩

/-- The bytes of a text are the bytes of its digits. -/
theorem toUTF8_text (digits : List (Fin 58)) :
    (String.ofList (digits.map base58Char)).toUTF8.data.toList =
      digits.map base58Byte := by
  have ascii : ∀ byte ∈ digits.map base58Byte, byte.toNat < 128 := by
    intro byte member
    obtain ⟨digit, -, rfl⟩ := List.mem_map.mp member
    exact base58Byte_lt digit
  have bytes := toUTF8_ofList_ascii ascii
  rwa [List.map_map] at bytes

/-- A decoded text converts its digits to bytes. -/
theorem bs58Decode_text (digits : List (Fin 58)) :
    ∃ data,
      bs58Decode (String.ofList (digits.map base58Char)) = .ok data ∧
        data.map UInt8.toNat = convert 58 256 4 (digits.map Fin.val) := by
  obtain ⟨pushed, decoded, pushedValue⟩ := foldlM_pushBase58 digits []
  have ones :
      ((digits.map base58Byte).takeWhile (fun byte => byte = 49)).length =
        leadingZeros (digits.map Fin.val) := by
    rw [leadingZeros, List.takeWhile_map, List.takeWhile_map,
      List.length_map, List.length_map]
    congr 2
    funext digit
    simp [base58Byte_eq_one_iff]
  refine ⟨List.replicate (leadingZeros (digits.map Fin.val)) 0 ++
    pushed.reverse, ?_, ?_⟩
  · unfold bs58Decode
    simp only [toUTF8_text, decoded, ones]
    rfl
  · rw [List.map_append, List.map_reverse, pushedValue, List.map_replicate]
    rfl

/-- Encoding what a text decodes to gives back the text. -/
theorem bs58Encode_of_text
    {data : List UInt8}
    {digits : List (Fin 58)}
    (converted :
      data.map UInt8.toNat = convert 58 256 4 (digits.map Fin.val)) :
    bs58Encode data = String.ofList (digits.map base58Char) := by
  have digitsLt : ∀ value ∈ digits.map Fin.val, value < 58 := by
    intro value member
    obtain ⟨digit, -, rfl⟩ := List.mem_map.mp member
    exact digit.isLt
  have values :
      (base58Digits data).map Fin.val = digits.map Fin.val := by
    rw [base58Digits_eq, converted]
    exact convert_convert (by decide) (by decide) (by decide) (by decide)
      digitsLt
  have same : base58Digits data = digits :=
    List.map_injective_iff.mpr Fin.val_injective values
  unfold bs58Encode
  rw [same]
  split
  · next empty =>
      obtain rfl := List.isEmpty_iff.mp empty
      rw [← same]
      rfl
  · rfl

/-- Only the bytes of the alphabet have a digit. -/
theorem exists_digit_of_table
    {byte value : UInt8}
    (listed : base58Table[byte.toNat]? = some value)
    (found : value ≠ 255) :
    ∃ digit, byte = base58Byte digit := by
  have all :
      ∀ entry ∈ base58Table.zipIdx, entry.1 ≠ 255 →
        UInt8.ofNat entry.2 = base58Byte (Fin.ofNat 58 entry.1.toNat) := by
    decide +kernel
  have here :=
    all (value, byte.toNat) (List.mk_mem_zipIdx_iff_getElem?.mpr listed) found
  rw [UInt8.ofNat_toNat] at here
  exact ⟨_, here⟩

theorem exists_digit_of_pushBase58
    {byte : UInt8}
    {digits pushed : List UInt8}
    (returned : pushBase58 digits byte = .ok pushed) :
    ∃ digit, byte = base58Byte digit := by
  unfold pushBase58 at returned
  split at returned
  · next listed =>
      split at returned
      · exact absurd returned nofun
      · next found => exact exists_digit_of_table listed found
  · exact absurd returned nofun

/-- Bytes that the decoder accepts are those of a text. -/
theorem exists_digits_of_foldlM
    {bytes digits pushed : List UInt8}
    (returned : bytes.foldlM pushBase58 digits = .ok pushed) :
    ∃ text : List (Fin 58), bytes = text.map base58Byte := by
  induction bytes generalizing digits with
  | nil =>
      exact ⟨[], rfl⟩
  | cons byte bytes inductionHypothesis =>
      rw [List.foldlM_cons] at returned
      cases first : pushBase58 digits byte with
      | error error =>
          rw [first] at returned
          exact absurd returned nofun
      | ok middle =>
          rw [first] at returned
          obtain ⟨digit, rfl⟩ := exists_digit_of_pushBase58 first
          obtain ⟨text, rfl⟩ := inductionHypothesis returned
          exact ⟨digit :: text, rfl⟩

/-- The decoder accepts only strings over the alphabet. -/
theorem isBase58_of_bs58Decode
    {s : String}
    {data : List UInt8}
    (returned : bs58Decode s = .ok data) :
    IsBase58 s := by
  unfold bs58Decode at returned
  cases pushed : s.toUTF8.data.toList.foldlM pushBase58 [] with
  | error error =>
      simp only [pushed] at returned
      exact absurd returned nofun
  | ok digits =>
      obtain ⟨text, bytes⟩ := exists_digits_of_foldlM pushed
      rw [← toUTF8_text] at bytes
      -- A string is determined by its bytes.
      have same : s = String.ofList (text.map base58Char) := by
        rw [← String.toByteArray_inj]
        exact ByteArray.ext (Array.ext' bytes)
      subst same
      intro c member
      rw [String.toList_ofList] at member
      obtain ⟨digit, -, rfl⟩ := List.mem_map.mp member
      exact ⟨digit, rfl⟩

/--
Base58 is a bijection between bytes and strings over its alphabet: both round
trips are exact, every other string is an error, and no carry overflows.
-/
theorem base58_is_bijective :
    (∀ data, bs58Decode (bs58Encode data) = .ok data) ∧
      (∀ s, IsBase58 s → ∃ data,
        bs58Decode s = .ok data ∧ bs58Encode data = s) ∧
      (∀ s, ¬ IsBase58 s → ∃ error, bs58Decode s = .error error) ∧
      ∀ profile,
        (∀ data, bs58EncodeU32 profile data = .ok (bs58Encode data)) ∧
          ∀ s, bs58DecodeU32 profile s = .ok (bs58Decode s) := by
  refine ⟨bs58Decode_bs58Encode, fun s valid => ?_, fun s invalid => ?_,
    fun profile => ⟨bs58EncodeU32_eq profile, bs58DecodeU32_eq profile⟩⟩
  · obtain ⟨digits, rfl⟩ := exists_digits_of_isBase58 valid
    obtain ⟨data, decoded, converted⟩ := bs58Decode_text digits
    exact ⟨data, decoded, bs58Encode_of_text converted⟩
  · cases returned : bs58Decode s with
    | error error => exact ⟨error, rfl⟩
    | ok data => exact absurd (isBase58_of_bs58Decode returned) invalid

/-- The digits of a text come back, and a zero is no digit. -/
theorem small_strings_are_decoded :
    (∃ data, bs58Decode "1z2" = .ok data ∧ bs58Encode data = "1z2") ∧
      ∃ error, bs58Decode "1z0" = .error error :=
  ⟨base58_is_bijective.2.1 "1z2" (by decide +kernel),
    base58_is_bijective.2.2.1 "1z0" (by decide +kernel)⟩

end YieldDaemon
