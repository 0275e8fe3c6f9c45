import YieldDaemon.BundleSubmission
import YieldDaemon.ByteDecoder

namespace YieldDaemon

open ByteDecoder

/-!
# Serialized messages

The message of a transaction is what its signature covers.  Lists are written
with a length prefix of one to three bytes, seven bits in each.  The decoder
follows the documented wire format and not the serializer.
-/

theorem toNat_shiftRight_seven (value : UInt16) :
    (value >>> 7).toNat = value.toNat / 128 := by
  simp [UInt16.toNat_shiftRight, Nat.shiftRight_eq_div_pow]

/-- Solana compact-u16 encoding (variable-length unsigned integer). -/
def compactU16Encode (value : UInt16) : List UInt8 :=
  let elem := (value &&& 0x7f).toUInt8
  let val := value >>> 7
  if 0 < val then
    (elem ||| 0x80) :: compactU16Encode val
  else
    [elem]
termination_by value.toNat
decreasing_by
  have shifted := toNat_shiftRight_seven value
  have positive : (0 : UInt16).toNat < (value >>> 7).toNat :=
    UInt16.lt_iff_toNat_lt.mp ‹_›
  rw [UInt16.toNat_zero] at positive
  omega

/--
Read a length of at most 16 bits: 0 to 127 in one byte, up to 16383 in two
bytes and up to 65535 in three, where the high bit marks that more follow.
-/
def compactU16 : Decoder Nat := do
  let first ← byte
  if first.toNat < 128 then
    return first.toNat
  let second ← byte
  if second.toNat < 128 then
    guard (0 < second.toNat)
    return first.toNat % 128 + 128 * second.toNat
  let third ← byte
  guard (0 < third.toNat ∧ third.toNat < 4)
  return first.toNat % 128 + 128 * (second.toNat % 128) +
    16384 * third.toNat

theorem toNat_low_seven (value : UInt16) :
    (value &&& 0x7f).toUInt8.toNat = value.toNat % 128 := by
  have mask : (0x7f : UInt16).toNat = 2 ^ 7 - 1 := rfl
  rw [UInt16.toNat_toUInt8, UInt16.toNat_and, mask,
    Nat.and_two_pow_sub_one_eq_mod]
  omega

theorem toNat_high_bit
    {elem : UInt8}
    (low : elem.toNat < 128) :
    (elem ||| 0x80).toNat = elem.toNat + 128 := by
  have bit : (0x80 : UInt8).toNat = 2 ^ 7 * 1 := rfl
  rw [UInt8.toNat_or, bit, Nat.or_comm,
    ← Nat.two_pow_add_eq_or_of_lt low, Nat.add_comm]

/-- The encoding of a value by its low seven bits and the rest. -/
theorem compactU16Encode_eq (value : UInt16) :
    compactU16Encode value =
      if value.toNat < 128 then
        [UInt8.ofNat value.toNat]
      else
        UInt8.ofNat (value.toNat % 128 + 128) ::
          compactU16Encode (value >>> 7) := by
  have low := toNat_low_seven value
  have rest := toNat_shiftRight_seven value
  have more : (0 : UInt16) < value >>> 7 ↔ ¬ value.toNat < 128 := by
    rw [UInt16.lt_iff_toNat_lt, rest, UInt16.toNat_zero]
    omega
  rw [compactU16Encode]
  simp only [more]
  by_cases short : value.toNat < 128
  · rw [if_pos short, if_neg (not_not.mpr short)]
    congr 1
    apply UInt8.toNat_inj.mp
    rw [low, UInt8.toNat_ofNat']
    omega
  · rw [if_neg short, if_pos short]
    congr 1
    apply UInt8.toNat_inj.mp
    rw [toNat_high_bit (by omega), low, UInt8.toNat_ofNat']
    omega

/-- A byte without the high bit is the last one. -/
theorem toNat_last {low : Nat} (small : low < 128) :
    (UInt8.ofNat low).toNat = low := by
  rw [UInt8.toNat_ofNat']
  omega

theorem toNat_more {low : Nat} (small : low < 128) :
    (UInt8.ofNat (low + 128)).toNat = low + 128 := by
  rw [UInt8.toNat_ofNat']
  omega

theorem reads_one_byte
    {low : Nat}
    (small : low < 128) :
    Reads compactU16 [UInt8.ofNat low] low := by
  refine (reads_byte _).bind ?_
  rw [toNat_last small, if_pos small]
  exact Reads.pure low

theorem reads_two_bytes
    {low high : Nat}
    (lowSmall : low < 128)
    (highSmall : high < 128)
    (positive : 0 < high) :
    Reads compactU16 [UInt8.ofNat (low + 128), UInt8.ofNat high]
      (low + 128 * high) := by
  refine (reads_byte _).bind ?_
  rw [toNat_more lowSmall, if_neg (by omega)]
  refine (reads_byte _).bind ?_
  rw [toNat_last highSmall, if_pos highSmall, Nat.add_mod_right,
    Nat.mod_eq_of_lt lowSmall]
  simp only [guard, if_pos positive, pure_bind]
  exact Reads.pure _

theorem reads_three_bytes
    {low middle high : Nat}
    (lowSmall : low < 128)
    (middleSmall : middle < 128)
    (last : 0 < high ∧ high < 4) :
    Reads compactU16
      [UInt8.ofNat (low + 128), UInt8.ofNat (middle + 128),
        UInt8.ofNat high]
      (low + 128 * middle + 16384 * high) := by
  refine (reads_byte _).bind ?_
  rw [toNat_more lowSmall, if_neg (by omega)]
  refine (reads_byte _).bind ?_
  rw [toNat_more middleSmall, if_neg (by omega)]
  refine (reads_byte _).bind ?_
  rw [toNat_last (by omega), Nat.add_mod_right, Nat.mod_eq_of_lt lowSmall,
    Nat.add_mod_right, Nat.mod_eq_of_lt middleSmall]
  simp only [guard, if_pos last, pure_bind]
  exact Reads.pure _

/-- A length is read back from its encoding. -/
theorem reads_compactU16 (value : UInt16) :
    Reads compactU16 (compactU16Encode value) value.toNat := by
  have rest := toNat_shiftRight_seven value
  have restTwice := toNat_shiftRight_seven (value >>> 7)
  have bound := value.toNat_lt
  rw [rest] at restTwice
  rcases Nat.lt_or_ge value.toNat 128 with short | long
  · rw [compactU16Encode_eq, if_pos short]
    exact reads_one_byte short
  rw [compactU16Encode_eq, if_neg (Nat.not_lt.mpr long),
    compactU16Encode_eq, rest]
  rcases Nat.lt_or_ge (value.toNat / 128) 128 with short | longer
  · have reads :=
      reads_two_bytes (Nat.mod_lt value.toNat (by decide)) short (by omega)
    rw [if_pos short]
    rwa [Nat.mod_add_div] at reads
  · have reads :=
      reads_three_bytes
        (Nat.mod_lt value.toNat (by decide))
        (Nat.mod_lt (value.toNat / 128) (by decide))
        (show 0 < value.toNat / 128 / 128 ∧ value.toNat / 128 / 128 < 4 by
          omega)
    have shortest : value.toNat / 128 / 128 < 128 := by
      omega
    have sum :
        value.toNat % 128 + 128 * (value.toNat / 128 % 128) +
            16384 * (value.toNat / 128 / 128) =
          value.toNat := by
      omega
    rw [if_neg (Nat.not_lt.mpr longer), compactU16Encode_eq, restTwice,
      if_pos shortest]
    rwa [sum] at reads

namespace SolanaInstruction

/-- One instruction as it stands in a message. -/
def serialize (ix : SolanaInstruction) : List UInt8 :=
  [ix.programIdIdx] ++
    compactU16Encode (UInt16.ofNat ix.accountIndices.length) ++
    ix.accountIndices ++
    compactU16Encode (UInt16.ofNat ix.data.length) ++
    ix.data

/-- Read one instruction. -/
def decode : Decoder SolanaInstruction := do
  let programIdIdx ← byte
  let accounts ← compactU16
  let accountIndices ← replicate byte accounts
  let length ← compactU16
  let data ← replicate byte length
  return ⟨programIdIdx, accountIndices, data⟩

/-- Both lists of the instruction have a length of 16 bits. -/
structure IsShort (ix : SolanaInstruction) : Prop where
  accountIndices : ix.accountIndices.length < 2 ^ 16
  data : ix.data.length < 2 ^ 16

end SolanaInstruction

namespace SolanaTransaction

/-- The fields have the widths of the source's types. -/
structure IsTyped (tx : SolanaTransaction) : Prop where
  recentBlockhash : tx.recentBlockhash.length = 32
  accountKeys : ∀ key ∈ tx.accountKeys, key.length = 32
  numSigners : tx.numSigners < 256
  numReadonlySigned : tx.numReadonlySigned < 256
  numReadonlyUnsigned : tx.numReadonlyUnsigned < 256

/-- All lists of the transaction have a length of 16 bits. -/
structure IsShort (tx : SolanaTransaction) : Prop where
  accountKeys : tx.accountKeys.length < 2 ^ 16
  instructions : tx.instructions.length < 2 ^ 16
  eachInstruction : ∀ ix ∈ tx.instructions, ix.IsShort

/-- Serialize the transaction message (the part that gets signed). -/
def serializeMessage (tx : SolanaTransaction) : List UInt8 :=
  [UInt8.ofNat tx.numSigners, UInt8.ofNat tx.numReadonlySigned,
      UInt8.ofNat tx.numReadonlyUnsigned] ++
    compactU16Encode (UInt16.ofNat tx.accountKeys.length) ++
    tx.accountKeys.flatten ++
    tx.recentBlockhash ++
    compactU16Encode (UInt16.ofNat tx.instructions.length) ++
    tx.instructions.flatMap SolanaInstruction.serialize

/-- Read a message by the documented wire format. -/
def decodeMessage : Decoder SolanaTransaction := do
  let numSigners ← byte
  let numReadonlySigned ← byte
  let numReadonlyUnsigned ← byte
  let keys ← compactU16
  let accountKeys ← replicate (replicate byte 32) keys
  let recentBlockhash ← replicate byte 32
  let count ← compactU16
  let instructions ← replicate SolanaInstruction.decode count
  return {
    recentBlockhash := recentBlockhash
    instructions := instructions
    accountKeys := accountKeys
    numSigners := numSigners.toNat
    numReadonlySigned := numReadonlySigned.toNat
    numReadonlyUnsigned := numReadonlyUnsigned.toNat }

end SolanaTransaction

/-- The length of a short list is read back. -/
theorem reads_length
    {Element : Type}
    {elements : List Element}
    (short : elements.length < 2 ^ 16) :
    Reads compactU16
      (compactU16Encode (UInt16.ofNat elements.length))
      elements.length := by
  have reads := reads_compactU16 (UInt16.ofNat elements.length)
  rwa [UInt16.toNat_ofNat', Nat.mod_eq_of_lt short] at reads

theorem SolanaInstruction.reads_decode
    {ix : SolanaInstruction}
    (short : ix.IsShort) :
    Reads SolanaInstruction.decode ix.serialize ix := by
  unfold decode serialize
  simp only [List.append_assoc]
  refine (reads_byte ix.programIdIdx).bind ?_
  refine (reads_length short.accountIndices).bind ?_
  refine (reads_bytes rfl).bind ?_
  refine (reads_length short.data).bind ?_
  exact (reads_bytes rfl).map
    (SolanaInstruction.mk ix.programIdIdx ix.accountIndices)

/-- A message is read back as the transaction that was serialized. -/
theorem SolanaTransaction.reads_decodeMessage
    {tx : SolanaTransaction}
    (typed : tx.IsTyped)
    (short : tx.IsShort) :
    Reads decodeMessage tx.serializeMessage tx := by
  have keys :
      Reads (replicate (replicate byte 32) tx.accountKeys.length)
        tx.accountKeys.flatten tx.accountKeys := by
    rw [← List.flatMap_id]
    exact reads_replicate
      (fun key member => reads_bytes (typed.accountKeys key member))
  have instructions :
      Reads (replicate SolanaInstruction.decode tx.instructions.length)
        (tx.instructions.flatMap SolanaInstruction.serialize)
        tx.instructions :=
    reads_replicate
      (fun ix member =>
        SolanaInstruction.reads_decode
        (short.eachInstruction ix member))
  unfold decodeMessage serializeMessage
  simp only [List.append_assoc, List.cons_append]
  refine (reads_byte _).bind ?_
  refine (reads_byte _).bind ?_
  refine (reads_byte _).bind ?_
  refine (reads_length short.accountKeys).bind ?_
  refine keys.bind ?_
  refine (reads_bytes typed.recentBlockhash).bind ?_
  refine (reads_length short.instructions).bind ?_
  have whole :=
    instructions.map (fun read =>
      ({ recentBlockhash := tx.recentBlockhash
         instructions := read
         accountKeys := tx.accountKeys
         numSigners := (UInt8.ofNat tx.numSigners).toNat
         numReadonlySigned := (UInt8.ofNat tx.numReadonlySigned).toNat
         numReadonlyUnsigned :=
          (UInt8.ofNat tx.numReadonlyUnsigned).toNat } :
        SolanaTransaction))
  have fields :
      (UInt8.ofNat tx.numSigners).toNat = tx.numSigners ∧
        (UInt8.ofNat tx.numReadonlySigned).toNat = tx.numReadonlySigned ∧
        (UInt8.ofNat tx.numReadonlyUnsigned).toNat =
          tx.numReadonlyUnsigned :=
    ⟨UInt8.toNat_ofNat_of_lt' typed.numSigners,
      UInt8.toNat_ofNat_of_lt' typed.numReadonlySigned,
      UInt8.toNat_ofNat_of_lt' typed.numReadonlyUnsigned⟩
  obtain ⟨signers, readonlySigned, readonlyUnsigned⟩ := fields
  simp only [signers, readonlySigned, readonlyUnsigned] at whole ⊢
  exact whole

/--
The documented format gives back the transaction and the suffix after its
message, so no other transaction has the same signed bytes.
-/
theorem SolanaTransaction.message_determines_transaction
    {tx : SolanaTransaction}
    (typed : tx.IsTyped)
    (short : tx.IsShort) :
    (∀ suffix,
      decodeMessage.run (tx.serializeMessage ++ suffix) =
        some (tx, suffix)) ∧
      ∀ other : SolanaTransaction,
        other.IsTyped → other.IsShort →
        other.serializeMessage = tx.serializeMessage → other = tx := by
  refine ⟨reads_decodeMessage typed short, ?_⟩
  intro other otherTyped otherShort sameMessage
  have reads := reads_decodeMessage otherTyped otherShort
  rw [sameMessage] at reads
  exact reads.value_unique (reads_decodeMessage typed short)

/-- One key, one blockhash and one instruction of three bytes. -/
def smallTransaction : SolanaTransaction where
  recentBlockhash := List.replicate 32 0xAA
  instructions := [⟨0, [0], [1, 2, 3]⟩]
  accountKeys := [List.replicate 32 0xBB]
  numSigners := 1
  numReadonlySigned := 0
  numReadonlyUnsigned := 0

theorem smallTransaction_typed : smallTransaction.IsTyped := by
  constructor <;> decide

theorem smallTransaction_short : smallTransaction.IsShort where
  accountKeys := by decide
  instructions := by decide
  eachInstruction := by
    intro ix member
    obtain rfl := List.mem_singleton.mp member
    constructor <;> decide

theorem small_message_is_read_back :
    SolanaTransaction.decodeMessage.run
        (smallTransaction.serializeMessage ++ [7]) =
      some (smallTransaction, [7]) :=
  (SolanaTransaction.message_determines_transaction smallTransaction_typed
    smallTransaction_short).1 [7]

end YieldDaemon
