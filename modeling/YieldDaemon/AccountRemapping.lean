import YieldDaemon.BundleSubmission

namespace YieldDaemon

open CheckedArithmetic

/-!
# Account keys of a swap transaction

The executor collects the accounts of all instructions into one list of keys
and gives every index of an instruction the position of its account in that
list.  The list grows from one instruction to the next, and an index that has
been given a position keeps its account.
-/

namespace SwapIx

/-- An index into a list of keys names the account that it named before. -/
def Resolves
    (keys accounts : List (List UInt8))
    (original remapped : UInt8) : Prop :=
  ∃ account,
    accounts[original.toNat]? = some account ∧
      keys[remapped.toNat]? = some account

/-- An instruction with the same data, its indices resolved in the keys. -/
structure Remaps
    (keys : List (List UInt8))
    (swap : SwapIx)
    (ix : SolanaInstruction) : Prop where
  data : ix.data = swap.ix.data
  program :
    Resolves keys swap.accounts swap.ix.programIdIdx ix.programIdIdx
  accounts :
    List.Forall₂ (Resolves keys swap.accounts) swap.ix.accountIndices
      ix.accountIndices

variable {keys longer accounts : List (List UInt8)}

/-- More keys at the end change no position. -/
theorem Resolves.extend
    {original remapped : UInt8}
    (resolves : Resolves keys accounts original remapped)
    (longerKeys : keys <+: longer) :
    Resolves longer accounts original remapped := by
  obtain ⟨account, named, found⟩ := resolves
  obtain ⟨more, rfl⟩ := longerKeys
  have inside := (List.getElem?_eq_some_iff.mp found).1
  exact ⟨account, named, (List.getElem?_append_left inside).trans found⟩

theorem Remaps.extend
    {swap : SwapIx}
    {ix : SolanaInstruction}
    (remaps : swap.Remaps keys ix)
    (longerKeys : keys <+: longer) :
    swap.Remaps longer ix where
  data := remaps.data
  program := remaps.program.extend longerKeys
  accounts :=
    remaps.accounts.imp (fun _ _ resolves => resolves.extend longerKeys)

end SwapIx

namespace LiveExecutor

section Keys

variable {allAccounts accounts distinctKeys : List (List UInt8)}

/-- The collected keys are the old ones and the accounts. -/
theorem mem_collectAccounts {key : List UInt8} :
    key ∈ collectAccounts allAccounts accounts ↔
      key ∈ allAccounts ∨ key ∈ accounts := by
  induction accounts generalizing allAccounts with
  | nil =>
      simp [collectAccounts]
  | cons account accounts inductionHypothesis =>
      unfold collectAccounts at inductionHypothesis ⊢
      rw [List.foldl_cons, inductionHypothesis, List.mem_cons]
      split
      · next known =>
          constructor
          · rintro (old | later)
            · exact .inl old
            · exact .inr (.inr later)
          · rintro (old | rfl | later)
            · exact .inl old
            · exact .inl known
            · exact .inr later
      · rw [List.mem_append, List.mem_singleton, or_assoc]

/-- New keys come after the old ones. -/
theorem prefix_collectAccounts :
    allAccounts <+: collectAccounts allAccounts accounts := by
  induction accounts generalizing allAccounts with
  | nil =>
      exact List.prefix_refl _
  | cons account accounts inductionHypothesis =>
      unfold collectAccounts at inductionHypothesis ⊢
      rw [List.foldl_cons]
      split
      · exact inductionHypothesis
      · exact (List.prefix_append _ _).trans inductionHypothesis

/-- No key is collected twice. -/
theorem nodup_collectAccounts (distinct : allAccounts.Nodup) :
    (collectAccounts allAccounts accounts).Nodup := by
  induction accounts generalizing allAccounts with
  | nil =>
      exact distinct
  | cons account accounts inductionHypothesis =>
      unfold collectAccounts at inductionHypothesis ⊢
      rw [List.foldl_cons]
      split
      · exact inductionHypothesis distinct
      · next fresh =>
          refine inductionHypothesis ?_
          rw [List.nodup_append]
          refine ⟨distinct, List.nodup_singleton account, ?_⟩
          rintro old isOld new isNew rfl
          exact fresh (List.mem_singleton.mp isNew ▸ isOld)

/-- Distinct keys among 256 are at most 256. -/
theorem length_le_of_within
    (distinct : allAccounts.Nodup)
    (within : allAccounts ⊆ distinctKeys)
    (few : distinctKeys.length ≤ 256) :
    allAccounts.length ≤ 256 :=
  (List.subperm_of_subset distinct within).length_le.trans few

/-- An index of an instruction is given the position of its account. -/
theorem remapIndex_resolves
    {idx : UInt8}
    (inRange : idx.toNat < accounts.length)
    (collected : accounts ⊆ allAccounts)
    (few : allAccounts.length ≤ 256) :
    ∃ remapped,
      remapIndex allAccounts accounts idx = .ok remapped ∧
        SwapIx.Resolves allAccounts accounts idx remapped := by
  let account := accounts[idx.toNat]
  have member : account ∈ allAccounts := collected (List.getElem_mem inRange)
  obtain ⟨position, found⟩ :=
    Option.isSome_iff_exists.mp (List.isSome_idxOf?.mpr member)
  obtain ⟨inside, here, -⟩ := List.idxOf?_eq_some_iff.mp found
  have exactly : (UInt8.ofNat position).toNat = position := by
    rw [UInt8.toNat_ofNat']
    exact Nat.mod_eq_of_lt (inside.trans_le few)
  refine ⟨UInt8.ofNat position, ?_, account, by simp [account, inRange], ?_⟩
  · rw [remapIndex, index_of_lt inRange, Checked.ok_bind]
    change Except.ok
      (UInt8.ofNat ((allAccounts.idxOf? account).getD 0)) = _
    rw [found]
    rfl
  · rw [exactly, List.getElem?_eq_getElem inside, here]

/-- One instruction is remapped against the keys collected with it. -/
theorem addInstruction_remaps
    {swap : SwapIx}
    {instructions : List SolanaInstruction}
    (inRange : swap.InRange)
    (few : (collectAccounts allAccounts swap.accounts).length ≤ 256) :
    ∃ ix,
      addInstruction (allAccounts, instructions) swap =
          .ok (collectAccounts allAccounts swap.accounts,
            instructions ++ [ix]) ∧
        swap.Remaps (collectAccounts allAccounts swap.accounts) ix := by
  have collected :
      swap.accounts ⊆ collectAccounts allAccounts swap.accounts :=
    fun _ member => mem_collectAccounts.mpr (.inr member)
  obtain ⟨programIdIdx, programRemapped, program⟩ :=
    remapIndex_resolves inRange.1 collected few
  obtain ⟨accountIndices, indicesRemapped, pairs⟩ :=
    Checked.mapM_relates
      (fun idx member =>
        remapIndex_resolves (inRange.2 idx member) collected few)
  refine ⟨⟨programIdIdx, accountIndices, swap.ix.data⟩, ?_,
    rfl, program, pairs⟩
  simp only [addInstruction]
  rw [programRemapped, Checked.ok_bind, indicesRemapped]
  rfl

end Keys

/-- The distinct keys of the signer and of all instructions. -/
def distinctKeys (executor : LiveExecutor) (swapIxs : List SwapIx) :
    List (List UInt8) :=
  (executor.pubkey :: swapIxs.flatMap SwapIx.accounts).dedup

/-- Instructions are remapped one after the other, in their order. -/
theorem foldlM_addInstruction
    {swapIxs : List SwapIx}
    {allAccounts allowed : List (List UInt8)}
    (instructions : List SolanaInstruction)
    (inRange : ∀ swap ∈ swapIxs, swap.InRange)
    (distinct : allAccounts.Nodup)
    (within : allAccounts ⊆ allowed)
    (swapsWithin : ∀ swap ∈ swapIxs, swap.accounts ⊆ allowed)
    (few : allowed.length ≤ 256) :
    ∃ keys remapped,
      swapIxs.foldlM addInstruction (allAccounts, instructions) =
          .ok (keys, instructions ++ remapped) ∧
        keys.Nodup ∧
        allAccounts <+: keys ∧
        List.Forall₂ (SwapIx.Remaps keys) swapIxs remapped := by
  induction swapIxs generalizing allAccounts instructions with
  | nil =>
      exact ⟨allAccounts, [], by simp, distinct, List.prefix_refl _, .nil⟩
  | cons swap swapIxs inductionHypothesis =>
      rw [List.forall_mem_cons] at inRange swapsWithin
      let collected := collectAccounts allAccounts swap.accounts
      have collectedDistinct : collected.Nodup :=
        nodup_collectAccounts distinct
      have collectedWithin : collected ⊆ allowed := by
        intro key member
        rcases mem_collectAccounts.mp member with old | new
        · exact within old
        · exact swapsWithin.1 new
      obtain ⟨ix, added, remaps⟩ :=
        @addInstruction_remaps allAccounts swap instructions inRange.1
          (length_le_of_within collectedDistinct collectedWithin few)
      obtain ⟨keys, remapped, later, keysDistinct, grown, pairs⟩ :=
        inductionHypothesis (instructions ++ [ix]) inRange.2
          collectedDistinct collectedWithin swapsWithin.2
      refine ⟨keys, ix :: remapped, ?_, keysDistinct,
        prefix_collectAccounts.trans grown, .cons (remaps.extend grown) pairs⟩
      rw [List.foldlM_cons, added, Checked.ok_bind, later,
        List.append_assoc]
      rfl

/--
A live execution of instructions in range, with at most 256 distinct keys,
signs a transaction whose keys are distinct and start with the signer, and
whose instructions are the given ones with every index resolved in the keys.
-/
theorem executeArbitrage_remaps
    {executor : LiveExecutor}
    {swapIxs : List SwapIx}
    (live : executor.dryRun = false)
    (inRange : ∀ swap ∈ swapIxs, swap.InRange)
    (few : (executor.distinctKeys swapIxs).length ≤ 256)
    (blockhash : List UInt8) :
    ∃ tx,
      executor.executeArbitrage blockhash swapIxs = .ok (.signing tx) ∧
        tx.accountKeys.Nodup ∧
        tx.accountKeys.head? = some executor.pubkey ∧
        List.Forall₂ (SwapIx.Remaps tx.accountKeys) swapIxs
          tx.instructions := by
  have signerWithin :
      [executor.pubkey] ⊆ executor.distinctKeys swapIxs :=
    List.cons_subset.mpr
      ⟨List.mem_dedup.mpr List.mem_cons_self, List.nil_subset _⟩
  have swapsWithin :
      ∀ swap ∈ swapIxs,
        swap.accounts ⊆ executor.distinctKeys swapIxs := by
    intro swap member key isKey
    exact List.mem_dedup.mpr (List.mem_cons_of_mem _
      (List.mem_flatMap.mpr ⟨swap, member, isKey⟩))
  obtain ⟨keys, remapped, collected, distinct, grown, pairs⟩ :=
    foldlM_addInstruction [] inRange (List.nodup_singleton _) signerWithin
      swapsWithin few
  obtain ⟨more, rfl⟩ := grown
  refine ⟨⟨blockhash, remapped, [executor.pubkey] ++ more, 1, 0, 0⟩, ?_,
    distinct, rfl, pairs⟩
  rw [executeArbitrage, live]
  simp only [Bool.false_eq_true, ↓reduceIte]
  rw [collected]
  rfl

/-- A key that repeats one byte. -/
def plainKey (byte : UInt8) : List UInt8 :=
  List.replicate 32 byte

/-- A hop with its pool twice among its accounts. -/
def firstHop : SwapIx :=
  ⟨[plainKey 5, plainKey 6, plainKey 5], ⟨1, [0, 2], [10]⟩⟩

/-- A hop with the signer among its accounts. -/
def secondHop : SwapIx :=
  ⟨[plainKey 7, plainKey 6, plainKey 5], ⟨1, [2, 0], [11]⟩⟩

/-- Both hops share their program and the pool of the first one. -/
theorem shared_accounts_are_remapped :
    ∃ tx,
      executeArbitrage ⟨plainKey 7, false⟩ (plainKey 9)
          [firstHop, secondHop] = .ok (.signing tx) ∧
        tx.accountKeys.Nodup ∧
        tx.accountKeys.head? = some (plainKey 7) ∧
        List.Forall₂ (SwapIx.Remaps tx.accountKeys) [firstHop, secondHop]
          tx.instructions := by
  have first : firstHop.InRange := ⟨by decide +kernel, by decide +kernel⟩
  have second : secondHop.InRange := ⟨by decide +kernel, by decide +kernel⟩
  refine executeArbitrage_remaps rfl ?_ (by decide +kernel) _
  exact List.forall_mem_cons.mpr ⟨first, List.forall_mem_singleton.mpr second⟩

end LiveExecutor

end YieldDaemon
