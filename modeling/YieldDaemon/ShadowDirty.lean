import YieldDaemon.ShadowOperations

namespace YieldDaemon

open CheckedArithmetic LabelledRun

/-!
# The dirty counter

`spec_dirty_count` is raised with the first swap of a pool and reset with all
flags, but a confirmed update clears the flag of its pool alone.  The counter
is therefore the number of dirty pools exactly as long as no update meets a
dirty pool.
-/

namespace StateShadow

/-- The registered pools whose flag is set. -/
def dirtyPools (shadow : StateShadow) : Finset PoolIdx :=
  {pool | pool.val < shadow.poolCount ∧ shadow.specDirty pool = 1}

/-- The counter is the number of dirty pools. -/
def DirtyCounted (shadow : StateShadow) : Prop :=
  shadow.specDirtyCount = shadow.dirtyPools.card

/-- Flags are bits, and a pool is not dirty before it is registered. -/
structure Flagged (shadow : StateShadow) : Prop where
  bit : ∀ pool, shadow.specDirty pool ≤ 1
  unregistered :
    ∀ pool : PoolIdx, shadow.poolCount ≤ pool.val →
      shadow.specDirty pool = 0

theorem mem_dirtyPools {shadow : StateShadow} {pool : PoolIdx} :
    pool ∈ shadow.dirtyPools ↔
      pool.val < shadow.poolCount ∧ shadow.specDirty pool = 1 := by
  simp [dirtyPools]

theorem flagged_new : Flagged new :=
  ⟨fun _ => Nat.zero_le 1, fun _ _ => rfl⟩

theorem dirtyCounted_new : DirtyCounted new := by
  have clean : new.dirtyPools = ∅ := by
    ext pool
    simp [mem_dirtyPools, new]
  rw [DirtyCounted, clean]
  rfl

/-- With bits for flags a pool is dirty or its flag is clear. -/
theorem Flagged.not_mem_dirtyPools
    {shadow : StateShadow}
    (flagged : shadow.Flagged)
    (pool : PoolIdx) :
    pool ∉ shadow.dirtyPools ↔ shadow.specDirty pool = 0 := by
  rw [mem_dirtyPools]
  constructor
  · intro notDirty
    by_contra set
    have registered : pool.val < shadow.poolCount := by
      by_contra beyond
      exact set (flagged.unregistered pool (Nat.not_lt.mp beyond))
    have bit := flagged.bit pool
    exact notDirty ⟨registered, by omega⟩
  · rintro clear ⟨-, set⟩
    omega

section Operations

variable {before : StateShadow}

/-- A registration adds a clean pool. -/
theorem dirtyPools_register
    (flagged : before.Flagged)
    (room : before.poolCount < maxPools)
    (entry : Registration)
    (pool : PoolIdx)
    (xPerY yPerX : Nat) :
    (((before.writeRegistration pool entry).withPrices pool xPerY
        yPerX).countPool room).dirtyPools = before.dirtyPools := by
  ext other
  rw [mem_dirtyPools, mem_dirtyPools]
  change (other.val < before.poolCount + 1 ∧ before.specDirty other = 1) ↔ _
  constructor
  · rintro ⟨-, set⟩
    refine ⟨?_, set⟩
    by_contra beyond
    have clear := flagged.unregistered other (Nat.not_lt.mp beyond)
    omega
  · rintro ⟨registered, set⟩
    exact ⟨Nat.lt_succ_of_lt registered, set⟩

/-- An update takes its pool out of the dirty ones. -/
theorem dirtyPools_update
    (pool : PoolIdx)
    (reserveX reserveY slot xPerY yPerX : Nat) :
    ((before.writeUpdate pool reserveX reserveY slot).withPrices pool xPerY
        yPerX).dirtyPools = before.dirtyPools.erase pool := by
  ext other
  rw [Finset.mem_erase, mem_dirtyPools, mem_dirtyPools]
  change (other.val < before.poolCount ∧
    Function.update before.specDirty pool 0 other = 1) ↔ _
  by_cases same : other = pool
  · subst same
    simp
  · rw [Function.update_of_ne same]
    exact ⟨fun dirty => ⟨same, dirty⟩, fun dirty => dirty.2⟩

/-- Marking a registered pool puts it among the dirty ones. -/
theorem dirtyPools_markDirty
    (flagged : before.Flagged)
    {pool : PoolIdx}
    (registered : pool.val < before.poolCount) :
    (before.markDirty pool).dirtyPools = insert pool before.dirtyPools := by
  unfold markDirty
  split
  · ext other
    rw [Finset.mem_insert, mem_dirtyPools, mem_dirtyPools]
    by_cases same : other = pool
    · subst same
      simp [registered]
    · simp [same]
  · next set =>
      have dirty : pool ∈ before.dirtyPools := by
        by_contra notDirty
        exact set ((flagged.not_mem_dirtyPools pool).mp notDirty)
      rw [Finset.insert_eq_of_mem dirty]

/-- Marking a pool keeps the counter right. -/
theorem dirtyCounted_markDirty
    (flagged : before.Flagged)
    (counted : before.DirtyCounted)
    {pool : PoolIdx}
    (registered : pool.val < before.poolCount) :
    (before.markDirty pool).DirtyCounted := by
  rw [DirtyCounted, dirtyPools_markDirty flagged registered]
  by_cases clear : before.specDirty pool = 0
  · have notDirty := (flagged.not_mem_dirtyPools pool).mpr clear
    rw [Finset.card_insert_of_notMem notDirty, ← counted, markDirty,
      if_pos clear]
  · have dirty : pool ∈ before.dirtyPools := by
      by_contra notDirty
      exact clear ((flagged.not_mem_dirtyPools pool).mp notDirty)
    rw [Finset.insert_eq_of_mem dirty, ← counted, markDirty, if_neg clear]

/-- An update keeps the counter right exactly for a clean pool. -/
theorem dirtyCounted_update_iff
    (flagged : before.Flagged)
    (counted : before.DirtyCounted)
    (pool : PoolIdx)
    (reserveX reserveY slot xPerY yPerX : Nat) :
    ((before.writeUpdate pool reserveX reserveY slot).withPrices pool xPerY
        yPerX).DirtyCounted ↔ before.specDirty pool = 0 := by
  rw [DirtyCounted, dirtyPools_update, ← flagged.not_mem_dirtyPools]
  change before.specDirtyCount = _ ↔ _
  rw [counted]
  constructor
  · intro same dirty
    exact absurd same.symm (Finset.card_erase_lt_of_mem dirty).ne
  · intro notDirty
    rw [Finset.erase_eq_of_notMem notDirty]

/-- After a revert no pool is dirty. -/
theorem dirtyCounted_revertSpeculative (shadow : StateShadow) :
    shadow.revertSpeculative.DirtyCounted := by
  have clean : shadow.revertSpeculative.dirtyPools = ∅ := by
    ext pool
    rw [mem_dirtyPools]
    change (pool.val < shadow.poolCount ∧
      (if pool.val < shadow.poolCount then 0 else _) = 1) ↔ _
    constructor
    · rintro ⟨registered, set⟩
      rw [if_pos registered] at set
      exact absurd set Nat.zero_ne_one
    · intro member
      exact absurd member (Finset.notMem_empty pool)
  rw [DirtyCounted, clean]
  rfl

end Operations

end StateShadow

namespace ShadowOp

open StateShadow

/-- An update meets a pool without speculative reserves. -/
def UpdatesClean (before : StateShadow) : ShadowOp → Prop
  | update idx _ _ _ =>
    ∀ pool : PoolIdx, idx = pool.val → before.specDirty pool = 0
  | _ => True

variable
  {profile : Profile}
  {before after : StateShadow}
  {op : ShadowOp}

/-- A flag is clear, set or left as it was. -/
theorem bit_step
    (flagged : before.Flagged)
    (performed : Performs profile before op after)
    (pool : PoolIdx) :
    after.specDirty pool ≤ 1 := by
  have bit : (before.view pool).dirty ≤ 1 := flagged.bit pool
  change (after.view pool).dirty ≤ 1
  rcases view_cases performed pool with ⟨entry, rfl, registered⟩ | ⟨-, taken⟩
  · rw [registered]
    exact bit
  · generalize before.view pool = row at bit taken
    generalize after.view pool = next at taken ⊢
    cases taken with
    | unchanged =>
        exact bit
    | updated =>
        exact Nat.zero_le 1
    | swapped =>
        change (if row.dirty = 0 then 1 else row.dirty) ≤ 1
        split
        · exact le_refl 1
        · exact bit
    | reverted =>
        exact Nat.zero_le 1
    | newBlock =>
        exact Nat.zero_le 1

/-- Every operation keeps the flags in order. -/
theorem flagged_step
    (flagged : before.Flagged)
    (performed : Performs profile before op after) :
    after.Flagged := by
  refine ⟨bit_step flagged performed, fun pool beyond => ?_⟩
  cases op with
  | register entry =>
      obtain ⟨idx, returned⟩ := performs_register performed
      rcases registerPool_cases returned with
        ⟨-, rfl⟩ | ⟨room, xPerY, yPerX, -, rfl⟩
      · exact flagged.unregistered pool beyond
      · exact flagged.unregistered pool ((Nat.le_succ _).trans beyond)
  | update idx reserveX reserveY slot =>
      obtain ⟨target, xPerY, yPerX, rfl, -, rfl⟩ :=
        updateReserves_cases (performs_update performed)
      have clear := flagged.unregistered pool beyond
      change Function.update before.specDirty target 0 pool = 0
      rw [Function.update_apply]
      split
      · rfl
      · exact clear
  | swap idx amountIn xToY =>
      obtain ⟨sameCount, target, afterFee, newIn, k, rfl, -, -, views⟩ :=
        view_swap performed
      have registered := (performs_swap performed).1
      have other : pool ≠ target := by
        rintro rfl
        omega
      have sameRow := (views pool).trans (if_neg other)
      exact (congrArg PoolView.dirty sameRow).trans
        (flagged.unregistered pool (sameCount ▸ beyond))
  | revert =>
      obtain rfl := performs_revert performed
      exact (if_neg (Nat.not_lt.mpr beyond)).trans
        (flagged.unregistered pool beyond)
  | newBlock slot =>
      obtain rfl := performs_newBlock performed
      exact (if_neg (Nat.not_lt.mpr beyond)).trans
        (flagged.unregistered pool beyond)

/-- An operation keeps the counter right unless it updates a dirty pool. -/
theorem dirtyCounted_step
    (flagged : before.Flagged)
    (counted : before.DirtyCounted)
    (performed : Performs profile before op after) :
    after.DirtyCounted ↔ op.UpdatesClean before := by
  cases op with
  | register entry =>
      refine iff_of_true ?_ trivial
      obtain ⟨idx, returned⟩ := performs_register performed
      rcases registerPool_cases returned with
        ⟨-, rfl⟩ | ⟨room, xPerY, yPerX, -, rfl⟩
      · exact counted
      · rw [DirtyCounted, dirtyPools_register flagged]
        exact counted
  | update idx reserveX reserveY slot =>
      obtain ⟨target, xPerY, yPerX, rfl, -, rfl⟩ :=
        updateReserves_cases (performs_update performed)
      rw [dirtyCounted_update_iff flagged counted]
      constructor
      · intro clear pool samePool
        rwa [Fin.ext samePool.symm]
      · intro clean
        exact clean target rfl
  | swap idx amountIn xToY =>
      refine iff_of_true ?_ trivial
      obtain ⟨registered, amountOut, applied⟩ := performs_swap performed
      obtain ⟨target, -, newIn, k, rfl, -, -, rfl⟩ :=
        applySpeculativeSwap_cases applied
      -- Writing the reserves changes neither the flags nor the counter.
      have sameFlags :
          (before.writeSwap target xToY newIn (k / newIn)).Flagged :=
        ⟨flagged.bit, flagged.unregistered⟩
      exact dirtyCounted_markDirty sameFlags counted registered
  | revert =>
      obtain rfl := performs_revert performed
      exact iff_of_true (dirtyCounted_revertSpeculative before) trivial
  | newBlock slot =>
      obtain rfl := performs_newBlock performed
      exact iff_of_true (dirtyCounted_revertSpeculative _) trivial

/--
In a run the counter is always the number of dirty pools exactly when no
confirmed update of the run meets a dirty pool.
-/
theorem dirty_count_tracks_flags_iff
    {profile : Profile}
    {ops : List ShadowOp}
    {reached : StateShadow}
    (run : Run (Performs profile) StateShadow.new ops reached) :
    EveryState (Performs profile) DirtyCounted StateShadow.new ops ↔
      EveryStep (Performs profile) UpdatesClean StateShadow.new ops :=
  everyState_iff_everyStep Flagged (performs_deterministic profile)
    flagged_step dirtyCounted_step run flagged_new dirtyCounted_new

/-- A first pool after a confirmed update to 8 and 8. -/
def updatedToEight (shadow : StateShadow) : StateShadow :=
  (shadow.writeUpdate Trade.levelPool 8 8 7).withPrices
    Trade.levelPool priceScale priceScale

/-- The 6 by 6 pool after a swap of 3. -/
def swappedSix : StateShadow :=
  ((Trade.levelShadow 6).writeSwap Trade.levelPool true 9 4).markDirty
    Trade.levelPool

theorem performs_six :
    Performs .debug StateShadow.new (.register (Trade.levelEntry 6))
      (Trade.levelShadow 6) :=
  ⟨trivial, rfl⟩

/-- An update of a clean pool and a swap after it are counted. -/
theorem update_before_swap_is_counted :
    EveryState (Performs .debug) DirtyCounted StateShadow.new
      [.register (Trade.levelEntry 6), .update 0 8 8 7, .swap 0 3 true] := by
  have updated :
      Performs .debug (Trade.levelShadow 6) (.update 0 8 8 7)
        (updatedToEight (Trade.levelShadow 6)) := ⟨trivial, rfl⟩
  have swapped :
      Performs .debug (updatedToEight (Trade.levelShadow 6))
        (.swap 0 3 true) _ :=
    ⟨Nat.zero_lt_one, rfl⟩
  have deterministic := performs_deterministic .debug
  apply (dirty_count_tracks_flags_iff
    (.cons performs_six (.cons updated (.cons swapped (.nil _))))).mpr
  refine (EveryStep.cons_iff deterministic performs_six).mpr ⟨trivial, ?_⟩
  refine (EveryStep.cons_iff deterministic updated).mpr ⟨?_, ?_⟩
  · intro pool _
    rfl
  · exact (EveryStep.cons_iff deterministic swapped).mpr
      ⟨trivial, EveryStep.nil⟩

/-- An update of a swapped pool clears its flag and leaves the counter at 1. -/
theorem update_after_swap_is_miscounted :
    ∃ drifted,
      Run (Performs .debug) StateShadow.new
          [.register (Trade.levelEntry 6), .swap 0 3 true, .update 0 8 8 7]
          drifted ∧
        drifted.specDirtyCount = 1 ∧ drifted.dirtyPools = ∅ ∧
        ¬ drifted.DirtyCounted := by
  have swapped :
      Performs .debug (Trade.levelShadow 6) (.swap 0 3 true) swappedSix :=
    ⟨Nat.zero_lt_one, rfl⟩
  have updated :
      Performs .debug swappedSix (.update 0 8 8 7)
        (updatedToEight swappedSix) := ⟨trivial, rfl⟩
  have nothingDirty : (updatedToEight swappedSix).dirtyPools = ∅ := by
    rw [updatedToEight, dirtyPools_update]
    ext pool
    rw [Finset.mem_erase, mem_dirtyPools]
    refine iff_of_false ?_ (Finset.notMem_empty pool)
    rintro ⟨other, registered, -⟩
    exact other (Fin.ext (Nat.lt_one_iff.mp registered))
  refine ⟨updatedToEight swappedSix,
    .cons performs_six (.cons swapped (.cons updated (.nil _))),
    rfl, nothingDirty, ?_⟩
  intro counted
  rw [DirtyCounted, nothingDirty] at counted
  exact absurd counted Nat.one_ne_zero

end ShadowOp

end YieldDaemon
