import YieldDaemon.LiveBundles
import YieldDaemon.RadixText

namespace YieldDaemon

open Attempts CheckedArithmetic RadixText

/-!
# Balances of the vault

The vault asks a node for its balances.  Nodes of Solana answer with a number or
a decimal text, nodes of the other chains with a hexadecimal text that counts the
smallest unit of the chain, and the vault reads either into 64 bits.
-/

inductive ChainType where
  | solana
  | ethereum
  | arbitrum
  | base
  | polygon
  deriving DecidableEq

/-- Chain-agnostic vault interface. -/
structure OnChainVault where
  chain : ChainType
  vaultAddress : String
  walletAddress : String

/-- `&text[2..]`, which panics inside a character and behind the end. -/
def sliceFromTwo (text : String) : Checked String :=
  match text.toList with
  | first :: second :: rest =>
      if first.utf8Size = 1 ∧ second.utf8Size = 1 then
        .ok (String.ofList rest)
      else if first.utf8Size = 2 then
        .ok (String.ofList (second :: rest))
      else
        .error .indexOutOfRange
  | [first] =>
      if first.utf8Size = 2 then .ok "" else .error .indexOutOfRange
  | [] => .error .indexOutOfRange

/-- `text.trim_start_matches("0x")` -/
def trimStartHex : Text → Text
  | '0' :: 'x' :: rest => trimStartHex rest
  | text => text

namespace OnChainVault

/-- `toLowercase` is Unicode lower-casing; unknown names mean Solana. -/
def new
    (toLowercase : String → String)
    (chain vaultAddress walletAddress : String) : OnChainVault :=
  let name := toLowercase chain
  let chain : ChainType :=
    if name = "solana" then .solana
    else if name = "ethereum" ∨ name = "eth" then .ethereum
    else if name = "arbitrum" ∨ name = "arb" then .arbitrum
    else if name = "base" then .base
    else if name = "polygon" ∨ name = "matic" then .polygon
    else .solana
  ⟨chain, vaultAddress, walletAddress⟩

/-- The hexadecimal balance of a response, 0 if it is none or too large. -/
def hexBalance (resp : JsonTree) : Nat :=
  let hexText := ((resp.index "result").asStr).getD "0x0"
  (parseWord 16 64 (trimStartHex hexText.toList)).getD 0

/-- Get the vault's current balance in the native token (lamports/wei). -/
def getNativeBalance
    (vault : OnChainVault)
    (rpcUrl : String)
    (answer : Except String JsonTree) : Live Nat :=
  if vault.chain = .solana then do
    let resp ←
      Live.post ⟨rpcUrl, .rpcCall "getBalance" [.string vault.vaultAddress]⟩
        answer
    return (((resp.index "result").index "value").asU64).getD 0
  else do
    let resp ←
      Live.post
        ⟨rpcUrl,
          .rpcCall "eth_getBalance"
            [.string vault.vaultAddress, .string "latest"]⟩
        answer
    return hexBalance resp

/-- The amount of the first token account of a response. -/
def tokenAmount (resp : JsonTree) : Option Nat := do
  let accounts ← ((resp.index "result").index "value").asArray
  let account ← accounts.head?
  let info :=
    (((account.index "account").index "data").index "parsed").index "info"
  let text ← ((info.index "tokenAmount").index "amount").asStr
  parseWord 10 64 text.toList

/-- Get SPL token balance (Solana) or ERC20 balance (EVM). -/
def getTokenBalance
    (vault : OnChainVault)
    (rpcUrl tokenMint : String)
    (answer : Except String JsonTree) : Live Nat :=
  if vault.chain = .solana then do
    let resp ←
      Live.post
        ⟨rpcUrl,
          .rpcCall "getTokenAccountsByOwner"
            [.string vault.vaultAddress,
              .object [("mint", .string tokenMint)],
              .object [("encoding", .string "jsonParsed")]]⟩
        answer
    return (tokenAmount resp).getD 0
  else do
    let addressDigits ← Live.ofChecked (sliceFromTwo vault.vaultAddress)
    let paddedAddr := "0x70a08231000000000000000000000000" ++ addressDigits
    let resp ←
      Live.post
        ⟨rpcUrl,
          .rpcCall "eth_call"
            [.object [("to", .string tokenMint), ("data", .string paddedAddr)],
              .string "latest"]⟩
        answer
    return hexBalance resp

/-- Transfer tokens from vault to a destination, which is not built yet. -/
def transferToExchange
    (_vault : OnChainVault)
    (_rpcUrl _destination : String)
    (_amount : Nat)
    (_tokenMint : Option String) : Live String :=
  Live.ofText (.error "Transfer requires keeper module integration")

/-- A hexadecimal text, padded or not and in letters of either case. -/
def hexText (digits : Text) : String :=
  String.ofList ('0' :: 'x' :: digits)

/-- A response of a node reports a balance in the native token. -/
def ReportsNative (chain : ChainType) (resp : JsonTree) (balance : Nat) :
    Prop :=
  if chain = .solana then
    (resp.index "result").index "value" = .integer balance
  else
    ∃ digits,
      Writes 16 digits balance ∧
        resp.index "result" = .string (hexText digits)

/-- A response of a node reports a balance of a token. -/
def ReportsToken (chain : ChainType) (resp : JsonTree) (balance : Nat) : Prop :=
  if chain = .solana then
    ∃ account others digits,
      Writes 10 digits balance ∧
        (resp.index "result").index "value" = .array (account :: others) ∧
        ((((((account.index "account").index "data").index
          "parsed").index "info").index "tokenAmount").index "amount") =
            .string (String.ofList digits)
  else
    ∃ digits,
      Writes 16 digits balance ∧
        resp.index "result" = .string (hexText digits)

/-- What 64 bits hold of a balance. -/
def readable (balance : Nat) : Nat :=
  if balance < 2 ^ 64 then balance else 0

/-- Digits have no prefix to trim. -/
theorem trimStartHex_of_writes
    {digits : Text}
    {number : Nat}
    (writes : Writes 16 digits number) :
    trimStartHex digits = digits := by
  have noPrefix : 'x' ∉ digits := writes.not_mem (by decide)
  rw [trimStartHex]
  rintro rest rfl
  exact noPrefix (by simp)

theorem getD_parseWord
    {base number : Nat}
    {digits : Text}
    (writes : Writes base digits number) :
    (parseWord base 64 digits).getD 0 = readable number := by
  rw [writes.parseWord, readable]
  split <;> rfl

/-- A hexadecimal text is read as far as 64 bits hold it. -/
theorem hexBalance_of_hexText
    {resp : JsonTree}
    {digits : Text}
    {number : Nat}
    (writes : Writes 16 digits number)
    (reported : resp.index "result" = .string (hexText digits)) :
    hexBalance resp = readable number := by
  rw [hexBalance, reported]
  have text :
      (((JsonTree.string (hexText digits)).asStr).getD "0x0").toList =
        '0' :: 'x' :: digits :=
    String.toList_ofList
  rw [text, trimStartHex, trimStartHex_of_writes writes,
    getD_parseWord writes]

/-- A number of a response is read as far as 64 bits hold it. -/
theorem getD_asU64 (balance : Nat) :
    ((JsonTree.integer balance).asU64).getD 0 = readable balance := by
  rw [JsonTree.asU64, readable]
  by_cases fits : balance < 2 ^ 64
  · have within : (0 : Int) ≤ balance ∧ (balance : Int) ≤ 18446744073709551615 := by
      omega
    rw [if_pos within, if_pos fits]
    rfl
  · have outside :
        ¬ ((0 : Int) ≤ balance ∧ (balance : Int) ≤ 18446744073709551615) := by
      omega
    rw [if_neg outside, if_neg fits]
    rfl

variable
  {vault : OnChainVault}
  {rpcUrl tokenMint : String}
  {resp : JsonTree}
  {balance : Nat}

theorem getNativeBalance_of_reports
    (reports : ReportsNative vault.chain resp balance) :
    (vault.getNativeBalance rpcUrl (.ok resp)).result =
      .ok (readable balance) := by
  unfold getNativeBalance ReportsNative at *
  split at reports
  next isSolana =>
    rw [if_pos isSolana, ← getD_asU64, ← reports]
    rfl
  next isOther =>
    obtain ⟨digits, writes, reported⟩ := reports
    rw [if_neg isOther, ← hexBalance_of_hexText writes reported]
    rfl

/-- What a vault on Solana asks about a token. -/
def accountsCall (vault : OnChainVault) (tokenMint : String) : JsonTree :=
  .rpcCall "getTokenAccountsByOwner"
    [.string vault.vaultAddress,
      .object [("mint", .string tokenMint)],
      .object [("encoding", .string "jsonParsed")]]

/-- `balanceOf` with an argument of one word. -/
def balanceOfCall (tokenMint : String) (word : Text) : JsonTree :=
  .rpcCall "eth_call"
    [.object [
      ("to", .string tokenMint),
      ("data", .string (String.ofList ("0x70a08231".toList ++ word)))],
      .string "latest"]

theorem getTokenBalance_of_solana
    (isSolana : vault.chain = .solana)
    (reports : ReportsToken vault.chain resp balance) :
    vault.getTokenBalance rpcUrl tokenMint (.ok resp) =
      { posted := [⟨rpcUrl, vault.accountsCall tokenMint⟩]
        result := .ok (readable balance) } := by
  rw [ReportsToken, if_pos isSolana] at reports
  obtain ⟨account, others, digits, writes, listed, amount⟩ := reports
  have amountText :
      (JsonTree.string (String.ofList digits)).asStr =
        some (String.ofList digits) :=
    rfl
  have read : (tokenAmount resp).getD 0 = readable balance := by
    rw [tokenAmount, listed, ← getD_parseWord writes]
    simp only [JsonTree.asArray, Option.bind_eq_bind, Option.bind_some,
      List.head?_cons, amount, amountText, String.toList_ofList]
  rw [getTokenBalance, if_pos isSolana, ← read]
  rfl

theorem sliceFromTwo_hexText (digits : Text) :
    sliceFromTwo (hexText digits) = .ok (String.ofList digits) := by
  rw [sliceFromTwo, hexText, String.toList_ofList]
  exact if_pos ⟨rfl, rfl⟩

theorem getTokenBalance_of_evm
    {digits : Text}
    (isEvm : vault.chain ≠ .solana)
    (isAddress : vault.vaultAddress = hexText digits)
    (reports : ReportsToken vault.chain resp balance) :
    vault.getTokenBalance rpcUrl tokenMint (.ok resp) =
      { posted :=
          [⟨rpcUrl,
            balanceOfCall tokenMint (List.replicate 24 '0' ++ digits)⟩]
        result := .ok (readable balance) } := by
  rw [ReportsToken, if_neg isEvm] at reports
  obtain ⟨balanceDigits, writes, reported⟩ := reports
  have callData :
      "0x70a08231000000000000000000000000" ++ String.ofList digits =
        String.ofList
          ("0x70a08231".toList ++ (List.replicate 24 '0' ++ digits)) := by
    rw [← List.append_assoc, String.ofList_append]
    rfl
  rw [getTokenBalance, if_neg isEvm, isAddress, sliceFromTwo_hexText,
    ← hexBalance_of_hexText writes reported, balanceOfCall, ← callData]
  rfl

/--
Whatever the chain, a balance that a node reports is read exactly as long as 64
bits hold it, and as nothing from there on.  On a chain other than Solana, a
call for a token carries the whole address of the vault in one word of 32 bytes.
-/
theorem vault_reads_balances
    (rpcUrl tokenMint : String)
    (resp : JsonTree)
    (balance : Nat) :
    (ReportsNative vault.chain resp balance →
        (vault.getNativeBalance rpcUrl (.ok resp)).result =
          .ok (readable balance)) ∧
      (ReportsToken vault.chain resp balance →
        (vault.chain = .solana →
            vault.getTokenBalance rpcUrl tokenMint (.ok resp) =
              { posted := [⟨rpcUrl, vault.accountsCall tokenMint⟩]
                result := .ok (readable balance) }) ∧
          (vault.chain ≠ .solana →
            ∀ digits address,
              digits.length = 40 →
              Writes 16 digits address →
              vault.vaultAddress = hexText digits →
                ∃ word,
                  word.length = 64 ∧
                    Writes 16 word address ∧
                    vault.getTokenBalance rpcUrl tokenMint (.ok resp) =
                      { posted := [⟨rpcUrl, balanceOfCall tokenMint word⟩]
                        result := .ok (readable balance) })) := by
  refine ⟨getNativeBalance_of_reports, fun reports =>
    ⟨fun isSolana => getTokenBalance_of_solana isSolana reports, ?_⟩⟩
  intro isEvm digits address complete writes isAddress
  refine ⟨List.replicate 24 '0' ++ digits, ?_, writes.zeros 24,
    getTokenBalance_of_evm isEvm isAddress reports⟩
  rw [List.length_append, List.length_replicate, complete]

/-- A vault with 20 ether reads that it has nothing. -/
theorem twenty_ether_are_read_as_nothing :
    (OnChainVault.getNativeBalance
        ⟨.ethereum, "0xAb5801a7D398351b8bE11C439e05C5B3259aeC9B",
          "0xAb5801a7D398351b8bE11C439e05C5B3259aeC9B"⟩
        "http://localhost:8545"
        (.ok (.object [("result", .string "0x1158e460913d00000")]))).result =
      .ok 0 := by
  have ether :
      Writes 16 "1158e460913d00000".toList 20000000000000000000 :=
    (@foldlM_eq_some_iff 16 128 _ _).mp ⟨by decide, by decide⟩ |>.1
  exact (@vault_reads_balances
    ⟨.ethereum, "0xAb5801a7D398351b8bE11C439e05C5B3259aeC9B",
      "0xAb5801a7D398351b8bE11C439e05C5B3259aeC9B"⟩
    "http://localhost:8545" "" _ 20000000000000000000).1 ⟨_, ether, rfl⟩

end OnChainVault

end YieldDaemon
