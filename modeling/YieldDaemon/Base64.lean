import YieldDaemon.Base58
import YieldDaemon.SextetDigits

namespace YieldDaemon

/-!
# Base64 texts

API secrets and account data come as base64.  The two decoders are written
separately, and both leave out what they do not know, so they undo the encoder
but refuse no string.
-/

/-- The digits of base64 in their order, as ASCII bytes. -/
def base64Alphabet : List UInt8 :=
  "ABCDEFGHIJKLMNOPQRSTUVWXYZabcdefghijklmnopqrstuvwxyz0123456789+/".toUTF8.data.toList

/-- The sign that fills up the last group of characters. -/
def padSign : UInt8 := '='.toUInt8

/-- `data.chunks(3)` -/
def chunksOfThree : List UInt8 → List (List UInt8)
  | a :: b :: c :: rest => [a, b, c] :: chunksOfThree rest
  | [] => []
  | rest => [rest]

/-- The character of the six lowest bits. -/
def sextetChar (bits : UInt32) : UInt8 :=
  base64Alphabet.getD (bits &&& 0x3F).toNat 0

/-- Three bytes as one number. -/
def packBytes (b0 b1 b2 : UInt8) : UInt32 :=
  (b0.toUInt32 <<< 16) ||| (b1.toUInt32 <<< 8) ||| b2.toUInt32

/-- The four characters of a chunk, which is never empty. -/
def encodeChunk (chunk : List UInt8) : List UInt8 :=
  let triple := packBytes (chunk.getD 0 0) (chunk.getD 1 0) (chunk.getD 2 0)
  [sextetChar (triple >>> 18),
    sextetChar (triple >>> 12),
    if 1 < chunk.length then sextetChar (triple >>> 6) else padSign,
    if 2 < chunk.length then sextetChar triple else padSign]

/-- Simple base64 encode. -/
def base64Encode (data : List UInt8) : String :=
  String.ofList (((chunksOfThree data).flatMap encodeChunk).map
    (fun char => Char.ofNat char.toNat))

/-- Why a decoder returns no bytes. -/
inductive DecodeError where
  | invalidUtf8
  deriving Repr, DecidableEq

/-- `chars.chunks(4)` -/
def chunksOfFour : List UInt8 → List (List UInt8)
  | a :: b :: c :: d :: rest => [a, b, c, d] :: chunksOfFour rest
  | [] => []
  | rest => [rest]

/-- Four digits as one number. -/
def packDigits (b0 b1 b2 b3 : UInt8) : UInt32 :=
  (b0.toUInt32 <<< 18) ||| (b1.toUInt32 <<< 12) ||| (b2.toUInt32 <<< 6) |||
    b3.toUInt32

/-- The bytes of a chunk of two characters at least. -/
def decodeChunk (value : UInt8 → UInt8) (chunk : List UInt8) : List UInt8 :=
  let digit (position : Nat) :=
    if position < chunk.length then value (chunk.getD position 0) else 0
  let triple := packDigits (digit 0) (digit 1) (digit 2) (digit 3)
  [((triple >>> 16) &&& 0xFF).toUInt8] ++
    (if 2 < chunk.length then [((triple >>> 8) &&& 0xFF).toUInt8] else []) ++
    (if 3 < chunk.length then [(triple &&& 0xFF).toUInt8] else [])

/-- The bytes of all chunks up to one with a single character. -/
def decodeChunks (value : UInt8 → UInt8) : List (List UInt8) → List UInt8
  | [] => []
  | chunk :: chunks =>
    if chunk.length < 2 then
      -- A single character ends the loop and is dropped.
      []
    else
      decodeChunk value chunk ++ decodeChunks value chunks

/-- The digit of a character for the withdrawals, 0 for any other. -/
def decodeChar (c : UInt8) : UInt8 :=
  if 'A'.toUInt8 ≤ c ∧ c ≤ 'Z'.toUInt8 then
    c - 'A'.toUInt8
  else if 'a'.toUInt8 ≤ c ∧ c ≤ 'z'.toUInt8 then
    c - 'a'.toUInt8 + 26
  else if '0'.toUInt8 ≤ c ∧ c ≤ '9'.toUInt8 then
    c - '0'.toUInt8 + 52
  else if c = '+'.toUInt8 then
    62
  else if c = '/'.toUInt8 then
    63
  else
    0

/-- Simple base64 decode. -/
def base64Decode (data : List UInt8) : Except DecodeError (List UInt8) :=
  match String.fromUTF8? ⟨data.toArray⟩ with
  | none => .error .invalidUtf8
  | some s =>
    let chars := s.toUTF8.data.toList.filter (· ≠ padSign)
    .ok (decodeChunks decodeChar (chunksOfFour chars))

/-- The digit of a character for the account data. -/
def base64Val (c : UInt8) : Option UInt8 :=
  if 'A'.toUInt8 ≤ c ∧ c ≤ 'Z'.toUInt8 then
    some (c - 'A'.toUInt8)
  else if 'a'.toUInt8 ≤ c ∧ c ≤ 'z'.toUInt8 then
    some (c - 'a'.toUInt8 + 26)
  else if '0'.toUInt8 ≤ c ∧ c ≤ '9'.toUInt8 then
    some (c - '0'.toUInt8 + 52)
  else if c = '+'.toUInt8 then
    some 62
  else if c = '/'.toUInt8 then
    some 63
  else
    none

/-- Simple base64 decoder (no external dependency). -/
def base64DecodeSimple (s : String) : Except DecodeError (List UInt8) :=
  -- The capacity that the source reserves has no part in the result.
  let bytes :=
    s.toUTF8.data.toList.filter
      (fun b => b ≠ padSign ∧ b ≠ '\n'.toUInt8 ∧ b ≠ '\r'.toUInt8)
  .ok
    (decodeChunks (fun c => (base64Val c).getD 0) (chunksOfFour bytes))

theorem length_base64Alphabet : base64Alphabet.length = 64 := by
  decide +kernel

/-- The character of a digit, as its ASCII byte. -/
def base64Byte (digit : Fin 64) : UInt8 :=
  base64Alphabet.get (digit.cast length_base64Alphabet.symm)

/-- The characters of some bytes, without padding. -/
def base64Chars (data : List UInt8) : List UInt8 :=
  (SextetDigits.digits data).map base64Byte

/-- The padding of some bytes. -/
def padding (data : List UInt8) : List UInt8 :=
  List.replicate ((3 - data.length % 3) % 3) padSign

/-- A text of some bytes, where the padding is optional. -/
def IsTextOf (data text : List UInt8) : Prop :=
  text = base64Chars data ∨ text = base64Chars data ++ padding data

/-- Bits below those of a multiple are added to it. -/
theorem or_eq_add
    (bits high low : Nat)
    (multiple : 2 ^ bits ∣ high)
    (small : low < 2 ^ bits) :
    high ||| low = high + low := by
  obtain ⟨factor, rfl⟩ := multiple
  exact (Nat.two_pow_add_eq_or_of_lt small factor).symm

theorem toNat_packBytes (b0 b1 b2 : UInt8) :
    (packBytes b0 b1 b2).toNat =
      b0.toNat * 2 ^ 16 + b1.toNat * 2 ^ 8 + b2.toNat := by
  have bound0 := b0.toNat_lt
  have bound1 := b1.toNat_lt
  have bound2 := b2.toNat_lt
  have fits0 : b0.toNat * 2 ^ 16 % 2 ^ 32 = b0.toNat * 2 ^ 16 :=
    Nat.mod_eq_of_lt (by omega)
  have fits1 : b1.toNat * 2 ^ 8 % 2 ^ 32 = b1.toNat * 2 ^ 8 :=
    Nat.mod_eq_of_lt (by omega)
  simp only [packBytes, UInt32.toNat_or, UInt32.toNat_shiftLeft,
    UInt8.toNat_toUInt32, UInt32.reduceToNat, Nat.reduceMod, Nat.shiftLeft_eq,
    fits0, fits1]
  rw [or_eq_add 16 (b0.toNat * 2 ^ 16) (b1.toNat * 2 ^ 8) (by omega) (by omega),
    or_eq_add 8 _ b2.toNat (by omega) (by omega)]

theorem toNat_packDigits
    {b0 b1 b2 b3 : UInt8}
    (bound0 : b0.toNat < 64)
    (bound1 : b1.toNat < 64)
    (bound2 : b2.toNat < 64)
    (bound3 : b3.toNat < 64) :
    (packDigits b0 b1 b2 b3).toNat =
      b0.toNat * 2 ^ 18 + b1.toNat * 2 ^ 12 + b2.toNat * 2 ^ 6 +
        b3.toNat := by
  have fits0 : b0.toNat * 2 ^ 18 % 2 ^ 32 = b0.toNat * 2 ^ 18 :=
    Nat.mod_eq_of_lt (by omega)
  have fits1 : b1.toNat * 2 ^ 12 % 2 ^ 32 = b1.toNat * 2 ^ 12 :=
    Nat.mod_eq_of_lt (by omega)
  have fits2 : b2.toNat * 2 ^ 6 % 2 ^ 32 = b2.toNat * 2 ^ 6 :=
    Nat.mod_eq_of_lt (by omega)
  simp only [packDigits, UInt32.toNat_or, UInt32.toNat_shiftLeft,
    UInt8.toNat_toUInt32, UInt32.reduceToNat, Nat.reduceMod, Nat.shiftLeft_eq,
    fits0, fits1, fits2]
  rw [or_eq_add 18 (b0.toNat * 2 ^ 18) (b1.toNat * 2 ^ 12) (by omega)
      (by omega),
    or_eq_add 12 _ (b2.toNat * 2 ^ 6) (by omega) (by omega),
    or_eq_add 6 _ b3.toNat (by omega) (by omega)]

/-- Six bits of a number are a digit of it. -/
theorem sextetChar_eq (bits : UInt32) :
    sextetChar bits = base64Byte (Fin.ofNat 64 bits.toNat) := by
  have masked : (bits &&& 0x3F).toNat = bits.toNat % 64 := by
    rw [UInt32.toNat_and]
    exact Nat.and_two_pow_sub_one_eq_mod bits.toNat 6
  have inRange : bits.toNat % 64 < base64Alphabet.length := by
    rw [length_base64Alphabet]
    exact Nat.mod_lt _ (by decide)
  rw [sextetChar, masked, List.getD_eq_getElem?_getD,
    List.getElem?_eq_getElem inRange]
  rfl

/-- Eight bits of a number are a byte of it. -/
theorem lowByte_eq (bits : UInt32) :
    (bits &&& 0xFF).toUInt8 = UInt8.ofNat bits.toNat := by
  rw [← UInt8.toNat_inj, UInt32.toNat_toUInt8, UInt32.toNat_and,
    UInt8.toNat_ofNat']
  exact (congrArg (· % 256) (Nat.and_two_pow_sub_one_eq_mod bits.toNat 8)).trans
    (Nat.mod_mod _ _)

section Encoder

variable (a b c : UInt8)

/-- Six bits of three bytes, from a given bit on. -/
theorem sextetChar_packBytes (shift : UInt32) :
    sextetChar (packBytes a b c >>> shift) =
      base64Byte
        (Fin.ofNat 64
          ((a.toNat * 2 ^ 16 + b.toNat * 2 ^ 8 + c.toNat) /
            2 ^ (shift.toNat % 32))) := by
  rw [sextetChar_eq, UInt32.toNat_shiftRight, Nat.shiftRight_eq_div_pow,
    toNat_packBytes]

/-- Numbers with the same six lowest bits have the same digit. -/
theorem ofNat_eq_ofNat
    {left right : Nat}
    (same : left % 64 = right % 64) :
    Fin.ofNat 64 left = Fin.ofNat 64 right :=
  Fin.ext same

theorem firstChar_eq :
    sextetChar (packBytes a b c >>> 18) =
      base64Byte (Fin.ofNat 64 (a.toNat / 4)) := by
  have bBound := b.toNat_lt
  have cBound := c.toNat_lt
  rw [sextetChar_packBytes]
  refine congrArg base64Byte (ofNat_eq_ofNat ?_)
  simp only [UInt32.reduceToNat, Nat.reduceMod, Nat.reducePow]
  omega

theorem secondChar_eq :
    sextetChar (packBytes a b c >>> 12) =
      base64Byte (Fin.ofNat 64 (a.toNat % 4 * 16 + b.toNat / 16)) := by
  have bBound := b.toNat_lt
  have cBound := c.toNat_lt
  rw [sextetChar_packBytes]
  refine congrArg base64Byte (ofNat_eq_ofNat ?_)
  simp only [UInt32.reduceToNat, Nat.reduceMod, Nat.reducePow]
  omega

theorem thirdChar_eq :
    sextetChar (packBytes a b c >>> 6) =
      base64Byte (Fin.ofNat 64 (b.toNat % 16 * 4 + c.toNat / 64)) := by
  have cBound := c.toNat_lt
  rw [sextetChar_packBytes]
  refine congrArg base64Byte (ofNat_eq_ofNat ?_)
  simp only [UInt32.reduceToNat, Nat.reduceMod, Nat.reducePow]
  omega

theorem fourthChar_eq :
    sextetChar (packBytes a b c) = base64Byte (Fin.ofNat 64 c.toNat) := by
  rw [sextetChar_eq, toNat_packBytes]
  refine congrArg base64Byte (ofNat_eq_ofNat ?_)
  omega

theorem encodeChunk_three :
    encodeChunk [a, b, c] =
      [base64Byte (Fin.ofNat 64 (a.toNat / 4)),
        base64Byte (Fin.ofNat 64 (a.toNat % 4 * 16 + b.toNat / 16)),
        base64Byte (Fin.ofNat 64 (b.toNat % 16 * 4 + c.toNat / 64)),
        base64Byte (Fin.ofNat 64 c.toNat)] := by
  rw [← firstChar_eq a b c, ← secondChar_eq a b c, ← thirdChar_eq a b c,
    ← fourthChar_eq a b c]
  rfl

theorem encodeChunk_two :
    encodeChunk [a, b] =
      [base64Byte (Fin.ofNat 64 (a.toNat / 4)),
        base64Byte (Fin.ofNat 64 (a.toNat % 4 * 16 + b.toNat / 16)),
        base64Byte (Fin.ofNat 64 (b.toNat % 16 * 4)), padSign] := by
  rw [← firstChar_eq a b 0, ← secondChar_eq a b 0]
  exact congrArg
    (fun third =>
      [sextetChar (packBytes a b 0 >>> 18),
        sextetChar (packBytes a b 0 >>> 12), third, padSign])
    (thirdChar_eq a b 0)

theorem encodeChunk_one :
    encodeChunk [a] =
      [base64Byte (Fin.ofNat 64 (a.toNat / 4)),
        base64Byte (Fin.ofNat 64 (a.toNat % 4 * 16)), padSign, padSign] := by
  rw [← firstChar_eq a 0 0]
  exact congrArg
    (fun second =>
      [sextetChar (packBytes a 0 0 >>> 18), second, padSign, padSign])
    (secondChar_eq a 0 0)

end Encoder

/-- The encoder writes the characters of its bytes and their padding. -/
theorem flatMap_encodeChunk (data : List UInt8) :
    (chunksOfThree data).flatMap encodeChunk =
      base64Chars data ++ padding data := by
  induction data using SextetDigits.digits.induct with
  | case1 a b c rest inductionHypothesis =>
      have samePadding : padding (a :: b :: c :: rest) = padding rest := by
        simp only [padding, List.length_cons]
        congr 2
        omega
      rw [chunksOfThree, List.flatMap_cons, inductionHypothesis,
        encodeChunk_three, samePadding]
      rfl
  | case2 a b =>
      exact encodeChunk_two a b
  | case3 a =>
      exact encodeChunk_one a
  | case4 =>
      rfl

theorem base64Byte_lt (digit : Fin 64) : (base64Byte digit).toNat < 128 := by
  revert digit
  decide +kernel

/-- The bytes of an encoded string. -/
theorem toUTF8_base64Encode (data : List UInt8) :
    (base64Encode data).toUTF8.data.toList =
      base64Chars data ++ padding data := by
  rw [base64Encode, flatMap_encodeChunk]
  apply toUTF8_ofList_ascii
  intro byte member
  rcases List.mem_append.mp member with isChar | isPadding
  · obtain ⟨digit, -, rfl⟩ := List.mem_map.mp isChar
    exact base64Byte_lt digit
  · rw [List.eq_of_mem_replicate isPadding]
    decide

/-- The digits of the executor are those of the withdrawals. -/
theorem base64Val_getD (c : UInt8) : (base64Val c).getD 0 = decodeChar c := by
  rw [base64Val, decodeChar]
  split_ifs <;> rfl

theorem base64Val_base64Byte (digit : Fin 64) :
    base64Val (base64Byte digit) = some (UInt8.ofNat digit.val) := by
  revert digit
  decide +kernel

theorem toNat_decodeChar (digit : Fin 64) :
    (decodeChar (base64Byte digit)).toNat = digit.val := by
  rw [← base64Val_getD, base64Val_base64Byte]
  exact UInt8.toNat_ofNat_of_lt' (digit.isLt.trans (by decide))

section Decoder

variable (w x y z : Fin 64)

/-- The number of the digits of four characters. -/
def packChars : UInt32 :=
  packDigits (decodeChar (base64Byte w)) (decodeChar (base64Byte x))
    (decodeChar (base64Byte y)) (decodeChar (base64Byte z))

theorem toNat_packChars :
    (packChars w x y z).toNat =
      w.val * 2 ^ 18 + x.val * 2 ^ 12 + y.val * 2 ^ 6 + z.val := by
  rw [packChars, toNat_packDigits] <;> simp only [toNat_decodeChar, Fin.isLt]

/-- Numbers with the same eight lowest bits have the same byte. -/
theorem byte_eq_of_mod
    {left right : Nat}
    (same : left % 256 = right % 256) :
    UInt8.ofNat left = UInt8.ofNat right := by
  rw [← UInt8.toNat_inj, UInt8.toNat_ofNat', UInt8.toNat_ofNat']
  exact same

theorem firstByte_eq :
    ((packChars w x y z >>> 16) &&& 0xFF).toUInt8 =
      SextetDigits.firstByte w x := by
  rw [lowByte_eq, UInt32.toNat_shiftRight, Nat.shiftRight_eq_div_pow,
    toNat_packChars]
  refine byte_eq_of_mod ?_
  simp only [UInt32.reduceToNat, Nat.reduceMod, Nat.reducePow]
  omega

theorem secondByte_eq :
    ((packChars w x y z >>> 8) &&& 0xFF).toUInt8 =
      SextetDigits.secondByte x y := by
  rw [lowByte_eq, UInt32.toNat_shiftRight, Nat.shiftRight_eq_div_pow,
    toNat_packChars]
  refine byte_eq_of_mod ?_
  simp only [UInt32.reduceToNat, Nat.reduceMod, Nat.reducePow]
  omega

theorem thirdByte_eq :
    (packChars w x y z &&& 0xFF).toUInt8 = SextetDigits.thirdByte y z := by
  rw [lowByte_eq, toNat_packChars]
  refine byte_eq_of_mod ?_
  omega

theorem decodeChunk_four :
    decodeChunk decodeChar
        [base64Byte w, base64Byte x, base64Byte y, base64Byte z] =
      [SextetDigits.firstByte w x, SextetDigits.secondByte x y,
        SextetDigits.thirdByte y z] := by
  rw [← firstByte_eq w x y z, ← secondByte_eq w x y z,
    ← thirdByte_eq w x y z]
  rfl

/-- Missing characters count as the digit 0. -/
theorem decodeChunk_three :
    decodeChunk decodeChar [base64Byte w, base64Byte x, base64Byte y] =
      [SextetDigits.firstByte w x, SextetDigits.secondByte x y] := by
  rw [← firstByte_eq w x y 0, ← secondByte_eq w x y 0]
  rfl

theorem decodeChunk_two :
    decodeChunk decodeChar [base64Byte w, base64Byte x] =
      [SextetDigits.firstByte w x] := by
  rw [← firstByte_eq w x 0 0]
  rfl

end Decoder

/-- The decoders read the bytes of the digits. -/
theorem decodeChunks_map_base64Byte (ds : List (Fin 64)) :
    decodeChunks decodeChar (chunksOfFour (ds.map base64Byte)) =
      SextetDigits.bytes ds := by
  induction ds using SextetDigits.complete.induct with
  | case1 w x y z rest inductionHypothesis =>
      simp only [List.map_cons, chunksOfFour, decodeChunks, List.length_cons]
      rw [if_neg (by omega), inductionHypothesis, decodeChunk_four]
      rfl
  | case2 w x y =>
      exact congrArg (· ++ []) (decodeChunk_three w x y)
  | case3 w x =>
      exact congrArg (· ++ []) (decodeChunk_two w x)
  | case4 w =>
      rfl
  | case5 =>
      rfl

/-- The characters of digits are no padding and no line breaks. -/
theorem base64Byte_plain (digit : Fin 64) :
    base64Byte digit ≠ padSign ∧ base64Byte digit ≠ '\n'.toUInt8 ∧
      base64Byte digit ≠ '\r'.toUInt8 := by
  revert digit
  decide +kernel

/-- Both decoders keep the characters of a text and leave out its padding. -/
theorem filter_text
    {keeps : UInt8 → Bool}
    (keepsDigits : ∀ digit, keeps (base64Byte digit) = true)
    (dropsPadding : keeps padSign = false)
    (data : List UInt8) :
    (base64Chars data ++ padding data).filter keeps = base64Chars data := by
  have chars : (base64Chars data).filter keeps = base64Chars data := by
    refine List.filter_eq_self.mpr ?_
    intro char member
    obtain ⟨digit, -, rfl⟩ := List.mem_map.mp member
    exact keepsDigits digit
  have none : (padding data).filter keeps = [] := by
    refine List.filter_eq_nil_iff.mpr ?_
    intro char member
    rw [List.eq_of_mem_replicate member, dropsPadding]
    exact Bool.false_ne_true
  rw [List.filter_append, chars, none, List.append_nil]

/-- The digits of some bytes are decoded to these bytes. -/
theorem decodeChunks_base64Chars (data : List UInt8) :
    decodeChunks decodeChar (chunksOfFour (base64Chars data)) = data :=
  (decodeChunks_map_base64Byte (SextetDigits.digits data)).trans
    (SextetDigits.bytes_digits data)

/-- The decoder of the executor reads a string without a failure. -/
theorem base64DecodeSimple_eq (s : String) :
    base64DecodeSimple s =
      .ok
        (decodeChunks decodeChar
          (chunksOfFour
            (s.toUTF8.data.toList.filter
              (fun b => b ≠ padSign ∧ b ≠ '\n'.toUInt8 ∧
                b ≠ '\r'.toUInt8)))) := by
  rw [base64DecodeSimple, funext base64Val_getD]

/-- The decoder of the withdrawals reads the bytes of any string. -/
theorem base64Decode_toUTF8 (s : String) :
    base64Decode s.toUTF8.data.toList =
      .ok
        (decodeChunks decodeChar
          (chunksOfFour (s.toUTF8.data.toList.filter (· ≠ padSign)))) := by
  have decoded : String.fromUTF8? ⟨s.toUTF8.data.toList.toArray⟩ = some s := by
    have valid : s.toUTF8.IsValidUTF8 := s.isValidUTF8
    rw [Array.toArray_toList, String.fromUTF8?, dif_pos valid]
    rfl
  rw [base64Decode, decoded]

/-- Both decoders undo the encoder. -/
theorem decoders_undo_base64Encode (data : List UInt8) :
    base64Decode (base64Encode data).toUTF8.data.toList = .ok data ∧
      base64DecodeSimple (base64Encode data) = .ok data := by
  constructor
  · rw [base64Decode_toUTF8, toUTF8_base64Encode,
      filter_text
        (fun digit => decide_eq_true (base64Byte_plain digit).1)
        (by decide),
      decodeChunks_base64Chars]
  · rw [base64DecodeSimple_eq, toUTF8_base64Encode,
      filter_text (fun digit => decide_eq_true (base64Byte_plain digit))
        (by decide),
      decodeChunks_base64Chars]

/-- The digit of a character of the alphabet. -/
def base64Digit (c : UInt8) : Option (Fin 64) :=
  (base64Val c).map (fun value => Fin.ofNat 64 value.toNat)

/-- The digits up to the first other character, and what follows them. -/
def splitDigits : List UInt8 → List (Fin 64) × List UInt8
  | [] => ([], [])
  | c :: rest =>
    match base64Digit c with
    | some digit =>
      let (digits, left) := splitDigits rest
      (digit :: digits, left)
    | none => ([], c :: rest)

/-- Complete digits are followed by all of their padding or by nothing. -/
def WellFormed (text : List UInt8) : Prop :=
  SextetDigits.complete (splitDigits text).1 ∧
    ((splitDigits text).2 = [] ∨
      (splitDigits text).2 =
        List.replicate ((4 - (splitDigits text).1.length % 4) % 4) padSign)

instance (text : List UInt8) : Decidable (WellFormed text) :=
  inferInstanceAs (Decidable (_ ∧ _))

/-- The bytes without the line breaks that the executor leaves out. -/
def withoutLineBreaks (bytes : List UInt8) : List UInt8 :=
  bytes.filter (fun b => b ≠ '\n'.toUInt8 ∧ b ≠ '\r'.toUInt8)

/-- The decoder fails on what is not a text of any bytes. -/
def RefusesNonText
    (decoded : Except DecodeError (List UInt8))
    (text : List UInt8) :
    Prop :=
  (¬ ∃ data, IsTextOf data text) → ∃ error, decoded = .error error

theorem base64Digit_base64Byte (digit : Fin 64) :
    base64Digit (base64Byte digit) = some digit := by
  have value : (UInt8.ofNat digit.val).toNat = digit.val :=
    UInt8.toNat_ofNat_of_lt' (digit.isLt.trans (by decide))
  rw [base64Digit, base64Val_base64Byte, Option.map_some, value]
  exact congrArg some (Fin.ext (Nat.mod_eq_of_lt digit.isLt))

/-- Only the character of a digit has this digit. -/
theorem base64Byte_of_base64Digit
    {c : UInt8}
    {digit : Fin 64}
    (found : base64Digit c = some digit) :
    c = base64Byte digit := by
  have all :
      ∀ code : Fin 256,
        (base64Digit (UInt8.ofNat code.val)).all
          (fun digit => UInt8.ofNat code.val = base64Byte digit) = true := by
    decide +kernel
  have ofCode := all ⟨c.toNat, c.toNat_lt⟩
  rw [UInt8.ofNat_toNat, found, Option.all_some] at ofCode
  exact of_decide_eq_true ofCode

/-- The split gives back the text. -/
theorem append_splitDigits (text : List UInt8) :
    (splitDigits text).1.map base64Byte ++ (splitDigits text).2 = text := by
  induction text with
  | nil =>
      rfl
  | cons c rest inductionHypothesis =>
      rw [splitDigits]
      split
      · next digit found =>
          rw [base64Byte_of_base64Digit found]
          exact congrArg (base64Byte digit :: ·) inductionHypothesis
      · rfl

/-- The split ends in front of the padding. -/
theorem splitDigits_append
    (ds : List (Fin 64))
    (count : Nat) :
    splitDigits (ds.map base64Byte ++ List.replicate count padSign) =
      (ds, List.replicate count padSign) := by
  induction ds with
  | nil =>
      cases count with
      | zero => rfl
      | succ count => rfl
  | cons digit ds inductionHypothesis =>
      rw [List.map_cons, List.cons_append, splitDigits,
        base64Digit_base64Byte]
      simp only [inductionHypothesis]

/-- The well-formed texts are those of some bytes. -/
theorem exists_isTextOf_iff {text : List UInt8} :
    (∃ data, IsTextOf data text) ↔ WellFormed text := by
  constructor
  · rintro ⟨data, rfl | rfl⟩
    · have split := splitDigits_append (SextetDigits.digits data) 0
      rw [List.replicate_zero, List.append_nil] at split
      rw [WellFormed, base64Chars, split]
      exact ⟨SextetDigits.complete_digits data, .inl rfl⟩
    · rw [WellFormed, base64Chars, padding, splitDigits_append,
        SextetDigits.length_digits_mod]
      exact ⟨SextetDigits.complete_digits data, .inr rfl⟩
  · rintro ⟨complete, padded⟩
    obtain ⟨data, isDigits⟩ := SextetDigits.exists_digits_iff.mpr complete
    have whole := append_splitDigits text
    rw [← isDigits] at whole padded
    rw [SextetDigits.length_digits_mod] at padded
    refine ⟨data, padded.imp (fun isNil => ?_) (fun isPadding => ?_)⟩
    · rw [← whole, isNil, List.append_nil]
      rfl
    · rw [← whole, isPadding]
      rfl

/-- A decoder that never fails is right about texts only. -/
theorem refusesNonText_iff
    {decoded : Except DecodeError (List UInt8)}
    {text : List UInt8}
    (succeeds : ∃ data, decoded = .ok data) :
    RefusesNonText decoded text ↔ WellFormed text := by
  obtain ⟨data, rfl⟩ := succeeds
  rw [← exists_isTextOf_iff]
  constructor
  · intro refuses
    by_contra noText
    obtain ⟨error, fails⟩ := refuses noText
    exact absurd fails nofun
  · intro isText noText
    exact absurd isText noText

/-- The decoders refuse what is no text only where there is nothing to refuse. -/
theorem decoders_refuse_nonTexts_iff (s : String) :
    (RefusesNonText (base64Decode s.toUTF8.data.toList)
        s.toUTF8.data.toList ↔
      WellFormed s.toUTF8.data.toList) ∧
    (RefusesNonText (base64DecodeSimple s)
        (withoutLineBreaks s.toUTF8.data.toList) ↔
      WellFormed (withoutLineBreaks s.toUTF8.data.toList)) :=
  ⟨refusesNonText_iff ⟨_, base64Decode_toUTF8 s⟩,
    refusesNonText_iff ⟨_, base64DecodeSimple_eq s⟩⟩

/-- Four exclamation marks are read as three zero bytes, for instance. -/
theorem exclamation_marks_are_decoded :
    (base64Decode "!!!!".toUTF8.data.toList = .ok [0, 0, 0] ∧
      ¬ RefusesNonText (base64Decode "!!!!".toUTF8.data.toList)
        "!!!!".toUTF8.data.toList) ∧
    base64DecodeSimple "!!!!" = .ok [0, 0, 0] ∧
      ¬ RefusesNonText (base64DecodeSimple "!!!!")
        (withoutLineBreaks "!!!!".toUTF8.data.toList) := by
  have decoded := base64Decode_toUTF8 "!!!!"
  have simpleDecoded := base64DecodeSimple_eq "!!!!"
  refine ⟨⟨decoded.trans (by decide +kernel), ?_⟩,
    simpleDecoded.trans (by decide +kernel), ?_⟩
  · rw [refusesNonText_iff ⟨_, decoded⟩]
    decide +kernel
  · rw [refusesNonText_iff ⟨_, simpleDecoded⟩]
    decide +kernel

end YieldDaemon
