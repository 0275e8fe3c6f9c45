import YieldDaemon.AmmParser
import YieldDaemon.RadixConversion

namespace YieldDaemon

/-!
# Base58 round trip

The encoder and the decoder convert between bytes and base58 digits with the
same two loops, in opposite directions.  Both are the conversion between two
number systems, so decoding gives back the encoded bytes, zeros in front
included.
-/

theorem length_base58Alphabet : base58Alphabet.length = 58 := by
  decide +kernel

/-- Numbers are reduced to base58 digits. -/
instance neZero_fiftyEight : NeZero 58 :=
  ⟨by decide⟩

/-- The character of a digit, as its ASCII byte. -/
def base58Byte (digit : Fin 58) : UInt8 :=
  base58Alphabet.get (digit.cast length_base58Alphabet.symm)

/-- Multiply the digits by 256 from the least one on, with a carry. -/
def timesTwoFiftySix : List (Fin 58) → Nat → List (Fin 58) × Nat
  | [], carry => ([], carry)
  | digit :: digits, carry =>
    let total := carry + digit.val * 256
    let (later, left) := timesTwoFiftySix digits (total / 58)
    (Fin.ofNat 58 total :: later, left)

/-- The base58 digits of what is left of a carry, at most `count` of them. -/
def carryBase58 : Nat → Nat → List (Fin 58)
  | 0, _ => []
  | count + 1, carry =>
    if 0 < carry then
      Fin.ofNat 58 carry :: carryBase58 count (carry / 58)
    else
      []

/-- Append one byte to the number that the base58 digits represent. -/
def pushByte (digits : List (Fin 58)) (byte : UInt8) : List (Fin 58) :=
  let (scaled, carry) := timesTwoFiftySix digits byte.toNat
  -- The carry is a u32 and has at most six base58 digits.
  scaled ++ carryBase58 6 carry

/-- The base58 digits of some bytes, leading zeros included. -/
def base58Digits (data : List UInt8) : List (Fin 58) :=
  let leadingZeros := (data.takeWhile (fun byte => byte = 0)).length
  List.replicate leadingZeros 0 ++ (data.foldl pushByte []).reverse

/-- Encode bytes as base58 (Bitcoin/Solana variant). -/
def bs58Encode (data : List UInt8) : String :=
  if data.isEmpty then
    ""
  else
    String.ofList ((base58Digits data).map
      (fun digit => Char.ofNat (base58Byte digit).toNat))

open RadixConversion

theorem timesTwoFiftySix_eq (digits : List (Fin 58)) (carry : Nat) :
    scale 58 256 (digits.map Fin.val) carry =
      ((timesTwoFiftySix digits carry).1.map Fin.val,
        (timesTwoFiftySix digits carry).2) := by
  induction digits generalizing carry with
  | nil =>
      rfl
  | cons digit digits inductionHypothesis =>
      simp only [List.map_cons, scale, timesTwoFiftySix,
        inductionHypothesis]
      rfl

theorem carryBase58_eq (count carry : Nat) :
    carryDigits 58 count carry = (carryBase58 count carry).map Fin.val := by
  induction count generalizing carry with
  | zero =>
      rfl
  | succ count inductionHypothesis =>
      rw [carryDigits, carryBase58]
      split
      · rw [inductionHypothesis, List.map_cons]
        rfl
      · rfl

theorem pushByte_eq (digits : List (Fin 58)) (byte : UInt8) :
    pushDigit 58 256 6 (digits.map Fin.val) byte.toNat =
      (pushByte digits byte).map Fin.val := by
  simp only [pushDigit, pushByte, timesTwoFiftySix_eq, carryBase58_eq,
    List.map_append]

theorem leadingZeros_bytes (data : List UInt8) :
    leadingZeros (data.map UInt8.toNat) =
      (data.takeWhile (fun byte => byte = 0)).length := by
  rw [leadingZeros, List.takeWhile_map, List.length_map]
  congr 2
  funext byte
  simp [Function.comp_apply, ← UInt8.toNat_inj]

theorem foldl_pushByte_eq
    (data : List UInt8)
    (digits : List (Fin 58)) :
    (data.map UInt8.toNat).foldl (pushDigit 58 256 6)
        (digits.map Fin.val) =
      (data.foldl pushByte digits).map Fin.val := by
  induction data generalizing digits with
  | nil =>
      rfl
  | cons byte data inductionHypothesis =>
      rw [List.map_cons, List.foldl_cons, pushByte_eq, inductionHypothesis,
        List.foldl_cons]

/-- The encoder converts its bytes to base58. -/
theorem base58Digits_eq (data : List UInt8) :
    (base58Digits data).map Fin.val =
      convert 256 58 6 (data.map UInt8.toNat) := by
  have pushed := foldl_pushByte_eq data []
  rw [List.map_nil] at pushed
  rw [convert, pushed, leadingZeros_bytes, base58Digits, List.map_append,
    List.map_replicate, List.map_reverse]
  rfl

theorem timesFiftyEight_eq (digits : List UInt8) (carry : Nat) :
    scale 256 58 (digits.map UInt8.toNat) carry =
      ((timesFiftyEight digits carry).1.map UInt8.toNat,
        (timesFiftyEight digits carry).2) := by
  induction digits generalizing carry with
  | nil =>
      rfl
  | cons digit digits inductionHypothesis =>
      simp only [List.map_cons, scale, timesFiftyEight,
        inductionHypothesis, UInt8.toNat_ofNat', Nat.reducePow,
        Nat.mod_mod]

theorem carryBytes_eq (count carry : Nat) :
    carryDigits 256 count carry =
      (carryBytes count carry).map UInt8.toNat := by
  induction count generalizing carry with
  | zero =>
      rfl
  | succ count inductionHypothesis =>
      rw [carryDigits, carryBytes]
      split
      · simp only [inductionHypothesis, List.map_cons, UInt8.toNat_ofNat',
          Nat.reducePow, Nat.mod_mod]
      · rfl

/-- The table inverts the alphabet. -/
theorem base58Table_base58Byte (digit : Fin 58) :
    base58Table[(base58Byte digit).toNat]? =
      some (UInt8.ofNat digit.val) := by
  revert digit
  decide +kernel

/-- The decoder appends the value of a character of the alphabet. -/
theorem pushBase58_base58Byte (digits : List UInt8) (digit : Fin 58) :
    ∃ pushed,
      pushBase58 digits (base58Byte digit) = .ok pushed ∧
        pushed.map UInt8.toNat =
          pushDigit 256 58 4 (digits.map UInt8.toNat) digit.val := by
  have value : (UInt8.ofNat digit.val).toNat = digit.val := by
    rw [UInt8.toNat_ofNat']
    omega
  have found : UInt8.ofNat digit.val ≠ 255 := by
    intro missing
    have same := congrArg UInt8.toNat missing
    rw [value] at same
    have bound := digit.isLt
    simp only [UInt8.reduceToNat] at same
    omega
  unfold pushBase58
  rw [base58Table_base58Byte]
  refine ⟨_, if_neg found, ?_⟩
  rw [value, List.map_append, ← carryBytes_eq, pushDigit,
    timesFiftyEight_eq]

/-- The decoder converts a string of the alphabet's characters to bytes. -/
theorem foldlM_pushBase58
    (digits : List (Fin 58))
    (bytes : List UInt8) :
    ∃ pushed,
      (digits.map base58Byte).foldlM pushBase58 bytes = .ok pushed ∧
        pushed.map UInt8.toNat =
          (digits.map Fin.val).foldl (pushDigit 256 58 4)
            (bytes.map UInt8.toNat) := by
  induction digits generalizing bytes with
  | nil =>
      exact ⟨bytes, rfl, rfl⟩
  | cons digit digits inductionHypothesis =>
      obtain ⟨next, first, nextValue⟩ := pushBase58_base58Byte bytes digit
      obtain ⟨pushed, later, pushedValue⟩ := inductionHypothesis next
      refine ⟨pushed, ?_, ?_⟩
      · rw [List.map_cons, List.foldlM_cons, first]
        exact later
      · rw [pushedValue, nextValue, List.map_cons, List.foldl_cons]

theorem base58Byte_lt (digit : Fin 58) : (base58Byte digit).toNat < 128 := by
  revert digit
  decide +kernel

/-- Only the digit zero is written as a one. -/
theorem base58Byte_eq_one_iff (digit : Fin 58) :
    base58Byte digit = 49 ↔ digit.val = 0 := by
  revert digit
  decide +kernel

theorem utf8EncodeChar_ascii (code : Fin 128) :
    String.utf8EncodeChar (Char.ofNat code.val) =
      [UInt8.ofNat code.val] := by
  revert code
  decide +kernel

/-- A string of ASCII characters has these characters as its bytes. -/
theorem toUTF8_ofList_ascii
    {bytes : List UInt8}
    (ascii : ∀ byte ∈ bytes, byte.toNat < 128) :
    (String.ofList (bytes.map
      (fun byte => Char.ofNat byte.toNat))).toUTF8.data.toList = bytes := by
  rw [String.toUTF8_eq_toByteArray, String.toByteArray_ofList,
    List.utf8Encode, List.toList_data_toByteArray, List.flatMap_map]
  calc bytes.flatMap
          (fun byte => String.utf8EncodeChar (Char.ofNat byte.toNat))
      = bytes.flatMap (fun byte => [byte]) := by
        refine List.flatMap_congr ?_
        intro byte member
        have encoded := utf8EncodeChar_ascii ⟨byte.toNat, ascii byte member⟩
        rwa [UInt8.ofNat_toNat] at encoded
    _ = bytes := List.flatMap_singleton' bytes

/-- The bytes of an encoded string are the characters of its digits. -/
theorem toUTF8_bs58Encode (data : List UInt8) :
    (bs58Encode data).toUTF8.data.toList =
      (base58Digits data).map base58Byte := by
  have ascii :
      ∀ byte ∈ (base58Digits data).map base58Byte, byte.toNat < 128 := by
    intro byte member
    obtain ⟨digit, -, rfl⟩ := List.mem_map.mp member
    exact base58Byte_lt digit
  have bytes := toUTF8_ofList_ascii ascii
  rw [List.map_map] at bytes
  cases data with
  | nil =>
      rfl
  | cons byte data =>
      exact bytes

/-- Decoding an encoded string gives back its bytes, for bytes of any length. -/
theorem bs58Decode_bs58Encode (data : List UInt8) :
    bs58Decode (bs58Encode data) = .ok data := by
  obtain ⟨pushed, decoded, pushedValue⟩ :=
    foldlM_pushBase58 (base58Digits data) []
  have ones :
      ((base58Digits data).map base58Byte).takeWhile
          (fun byte => byte = 49) =
        ((base58Digits data).takeWhile
          (fun digit => digit.val = 0)).map base58Byte := by
    rw [List.takeWhile_map]
    congr 2
    funext digit
    simp [base58Byte_eq_one_iff]
  have zeros :
      ((base58Digits data).takeWhile (fun digit => digit.val = 0)).length =
        leadingZeros ((base58Digits data).map Fin.val) := by
    rw [leadingZeros, List.takeWhile_map, List.length_map]
    rfl
  have bytesLt :
      ∀ value ∈ data.map UInt8.toNat, value < 256 := by
    intro value member
    obtain ⟨byte, -, rfl⟩ := List.mem_map.mp member
    exact byte.toNat_lt
  have values :
      (List.replicate
          (leadingZeros ((base58Digits data).map Fin.val)) (0 : UInt8) ++
            pushed.reverse).map UInt8.toNat =
        data.map UInt8.toNat := by
    rw [List.map_append, List.map_reverse, pushedValue,
      List.map_replicate]
    exact (congrArg (convert 58 256 4) (base58Digits_eq data)).trans
      (convert_convert (by decide) (by decide) (by decide) (by decide)
        bytesLt)
  unfold bs58Decode
  simp only [toUTF8_bs58Encode, decoded, ones, List.length_map, zeros]
  exact congrArg Except.ok
    (List.map_injective_iff.mpr
      (fun _ _ same => UInt8.toNat_inj.mp same) values)

/-- An account survives its journey through base58 text. -/
theorem decodeAccount_bs58Encode (account : Key) :
    decodeAccount (bs58Encode account.toList) = account := by
  have sized : account.toList.length = 32 := by simp
  simp only [decodeAccount, bs58Decode_bs58Encode, dif_pos sized]
  exact Vector.toArray_inj.mp rfl

end YieldDaemon
