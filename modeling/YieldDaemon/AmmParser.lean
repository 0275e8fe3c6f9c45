import Mathlib.Data.Nat.Digits.Lemmas
import YieldDaemon.StateShadow

namespace YieldDaemon

open CheckedArithmetic

/-!
# Swap instructions of mempool transactions

A transaction is recognised by the eight bytes at the start of its data.  Each
of the three programs has its own positions for the pool, the token accounts
and the user among the base58 account names.
-/

/-- The digits of base58 in their order, as ASCII bytes. -/
def base58Alphabet : List UInt8 :=
  "123456789ABCDEFGHJKLMNPQRSTUVWXYZabcdefghijkmnopqrstuvwxyz".toUTF8.data.toList

/-- The value of every ASCII byte as a digit, where 255 stands for none. -/
def base58Table : List UInt8 :=
  base58Alphabet.zipIdx.foldl
    (fun table entry => table.set entry.1.toNat (UInt8.ofNat entry.2))
    (List.replicate 128 255)

/-- Multiply the digits by 58 from the least one on, with a carry. -/
def timesFiftyEight : List UInt8 → Nat → List UInt8 × Nat
  | [], carry => ([], carry)
  | digit :: digits, carry =>
    let total := carry + digit.toNat * 58
    let (later, left) := timesFiftyEight digits (total / 256)
    (UInt8.ofNat (total % 256) :: later, left)

/-- The bytes of what is left of a carry, at most `count` of them. -/
def carryBytes : Nat → Nat → List UInt8
  | 0, _ => []
  | count + 1, carry =>
    if 0 < carry then
      UInt8.ofNat (carry % 256) :: carryBytes count (carry / 256)
    else
      []

/-- Append one base58 digit to the number that the bytes represent. -/
def pushBase58 (digits : List UInt8) (byte : UInt8) :
    Except String (List UInt8) :=
  match base58Table[byte.toNat]? with
  | some value =>
    if value = 255 then
      .error ("Invalid base58 character: " ++ (Char.ofNat byte.toNat).toString)
    else
      let (scaled, carry) := timesFiftyEight digits value.toNat
      -- The carry is a u32 and has at most four bytes.
      .ok (scaled ++ carryBytes 4 carry)
  | none =>
    .error ("Invalid base58 character: " ++ (Char.ofNat byte.toNat).toString)

/-- Decode base58 string to bytes. -/
def bs58Decode (s : String) : Except String (List UInt8) := do
  let bytes := s.toUTF8.data.toList
  let leadingOnes := (bytes.takeWhile (fun byte => byte = 49)).length
  let digits ← bytes.foldlM pushBase58 []
  return List.replicate leadingOnes 0 ++ digits.reverse

/-- The fields of a mempool transaction that the parser reads. -/
structure MempoolTransaction where
  accounts : List String
  data : List UInt8

/-- Parsed swap instruction from a mempool transaction. -/
structure SwapInstruction where
  poolId : Key
  tokenIn : Key
  tokenOut : Key
  amountIn : Nat
  minAmountOut : Nat
  user : Key
  deriving DecidableEq

/-- Decode a base58 account string to 32 bytes, or return zeroes on failure. -/
def decodeAccount (s : String) : Key :=
  match bs58Decode s with
  | .ok bytes =>
    if sized : bytes.length = 32 then
      ⟨bytes.toArray, by simpa using sized⟩
    else
      Vector.replicate 32 0
  | .error _ => Vector.replicate 32 0

/-- Get decoded account at index, or return zeroes if out of bounds. -/
def accountAt (accounts : List String) (idx : Nat) : Key :=
  match accounts[idx]? with
  | some s => decodeAccount s
  | none => Vector.replicate 32 0

/-- The integer with the given bytes, the least significant one first. -/
def leValue (bytes : List UInt8) : Nat :=
  Nat.ofDigits 256 (bytes.map UInt8.toNat)

/-- Where a program keeps the parts of a swap. -/
structure SwapLayout where
  discriminator : List UInt8
  dataLen : Nat
  accountsLen : Nat
  poolId : Nat
  tokenIn : Nat
  tokenOut : Nat
  user : Nat

namespace SwapLayout

/-- Raydium V4: `amm_id`, `user_source`, `user_dest` and `user_owner`. -/
def raydium : SwapLayout where
  discriminator := [0x09, 0x00, 0x00, 0x00, 0x00, 0x00, 0x00, 0x00]
  dataLen := 24
  accountsLen := 18
  poolId := 1
  tokenIn := 15
  tokenOut := 16
  user := 17

/--
Orca Whirlpool: `whirlpool`, the owner accounts of both tokens and
`token_authority`.
-/
def orca : SwapLayout where
  discriminator := [0xf8, 0xc6, 0x9e, 0x91, 0xe1, 0x75, 0x87, 0xc8]
  dataLen := 16
  accountsLen := 11
  poolId := 2
  tokenIn := 5
  tokenOut := 7
  user := 1

/-- Meteora DLMM: `lb_pair`, `user_token_in`, `user_token_out`, `sender`. -/
def meteora : SwapLayout where
  discriminator := [0xe4, 0x45, 0xa5, 0x2e, 0x51, 0xcb, 0x9a, 0x1d]
  dataLen := 24
  accountsLen := 10
  poolId := 0
  tokenIn := 5
  tokenOut := 6
  user := 8

/--
Read a swap of a known program.  The minimum output is optional for Orca only,
the other two require 24 bytes of data.
-/
def read (layout : SwapLayout) (tx : MempoolTransaction) :
    Option SwapInstruction :=
  if tx.data.length < layout.dataLen ∨
      tx.accounts.length < layout.accountsLen then
    none
  else
    some {
      poolId := accountAt tx.accounts layout.poolId
      tokenIn := accountAt tx.accounts layout.tokenIn
      tokenOut := accountAt tx.accounts layout.tokenOut
      amountIn := leValue ((tx.data.drop 8).take 8)
      minAmountOut :=
        if 24 ≤ tx.data.length then
          leValue ((tx.data.drop 16).take 8)
        else
          0
      user := accountAt tx.accounts layout.user }

end SwapLayout

/-- Parse a mempool transaction to extract swap instruction. -/
def parseSwapInstruction (tx : MempoolTransaction) :
    Option SwapInstruction :=
  if tx.data.length < 8 then
    none
  else
    let discriminator := tx.data.take 8
    if discriminator = SwapLayout.raydium.discriminator then
      SwapLayout.raydium.read tx
    else if discriminator = SwapLayout.orca.discriminator then
      SwapLayout.orca.read tx
    else if discriminator = SwapLayout.meteora.discriminator then
      SwapLayout.meteora.read tx
    else
      none

theorem leValue_lt (bytes : List UInt8) :
    leValue bytes < 256 ^ bytes.length := by
  have digits : ∀ digit ∈ bytes.map UInt8.toNat, digit < 256 := by
    intro digit member
    obtain ⟨byte, -, rfl⟩ := List.mem_map.mp member
    exact byte.toNat_lt
  have bounded := Nat.ofDigits_lt_base_pow_length (by decide) digits
  rwa [List.length_map] at bounded

theorem length_leBytes (count value : Nat) :
    (leBytes count value).length = count := by
  simp [leBytes]

theorem leBytes_succ (count value : Nat) :
    leBytes (count + 1) value =
      UInt8.ofNat value :: leBytes count (value / 256) := by
  simp only [leBytes, List.range_succ_eq_map, List.map_cons, List.map_map,
    pow_zero, Nat.div_one]
  congr 1
  apply List.map_congr_left
  intro i _
  simp only [Function.comp_apply, Nat.pow_succ, Nat.div_div_eq_div_mul,
    Nat.mul_comm 256]

/-- Reading back written bytes wraps the integer to their width. -/
theorem leValue_leBytes (count value : Nat) :
    leValue (leBytes count value) = value % 256 ^ count := by
  induction count generalizing value with
  | zero =>
      simp [leValue, leBytes, Nat.mod_one]
  | succ count inductionHypothesis =>
      have later := inductionHypothesis (value / 256)
      have split :
          value % 256 ^ (count + 1) =
            value % 256 + 256 * (value / 256 % 256 ^ count) := by
        rw [Nat.pow_succ', Nat.mod_mul]
      unfold leValue at later ⊢
      rw [leBytes_succ, List.map_cons, Nat.ofDigits_cons, later, split]
      rfl

/-- Writing back read bytes changes nothing. -/
theorem leBytes_leValue (bytes : List UInt8) :
    leBytes bytes.length (leValue bytes) = bytes := by
  induction bytes with
  | nil =>
      rfl
  | cons byte bytes inductionHypothesis =>
      have first :
          leValue (byte :: bytes) = byte.toNat + 256 * leValue bytes := by
        rw [leValue, List.map_cons, Nat.ofDigits_cons]
        rfl
      have small := byte.toNat_lt
      have low : UInt8.ofNat (byte.toNat + 256 * leValue bytes) = byte := by
        rw [← UInt8.toNat_inj, UInt8.toNat_ofNat']
        omega
      have high : (byte.toNat + 256 * leValue bytes) / 256 = leValue bytes := by
        omega
      rw [List.length_cons, leBytes_succ, first, low, high,
        inductionHypothesis]

theorem SwapLayout.read_amount_lt
    {layout : SwapLayout}
    {tx : MempoolTransaction}
    {swap : SwapInstruction}
    (parsed : layout.read tx = some swap) :
    swap.amountIn < 2 ^ 64 := by
  unfold read at parsed
  split at parsed
  · exact absurd parsed nofun
  · obtain rfl := Option.some.inj parsed
    have eight : ((tx.data.drop 8).take 8).length ≤ 8 :=
      List.length_take_le 8 _
    calc leValue ((tx.data.drop 8).take 8)
        < 256 ^ ((tx.data.drop 8).take 8).length := leValue_lt _
      _ ≤ 256 ^ 8 := Nat.pow_le_pow_right (by decide) eight

/-- What is parsed has been read by one of the three layouts. -/
theorem parseSwapInstruction_cases
    {tx : MempoolTransaction}
    {swap : SwapInstruction}
    (parsed : parseSwapInstruction tx = some swap) :
    SwapLayout.raydium.read tx = some swap ∨
      SwapLayout.orca.read tx = some swap ∨
      SwapLayout.meteora.read tx = some swap := by
  simp only [parseSwapInstruction] at parsed
  split at parsed
  · exact absurd parsed nofun
  split at parsed
  · exact .inl parsed
  split at parsed
  · exact .inr (.inl parsed)
  split at parsed
  · exact .inr (.inr parsed)
  · exact absurd parsed nofun

/-- A parsed swap brings in a 64-bit amount. -/
theorem parseSwapInstruction_amount_lt
    {tx : MempoolTransaction}
    {swap : SwapInstruction}
    (parsed : parseSwapInstruction tx = some swap) :
    swap.amountIn < 2 ^ 64 := by
  rcases parseSwapInstruction_cases parsed with read | read | read
  · exact SwapLayout.read_amount_lt read
  · exact SwapLayout.read_amount_lt read
  · exact SwapLayout.read_amount_lt read

end YieldDaemon
