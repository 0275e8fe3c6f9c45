import YieldDaemon.AmmPool
import YieldDaemon.KeyedLog

namespace YieldDaemon

/-!
# Pool registry

A map of the known pools and an index of their identifiers by token pair.  A
registration overwrites the pool in the map, but only ever adds to the index.
-/

/-- Registry of known AMM pool states, updated via RPC polling or Geyser. -/
structure PoolRegistry where
  pools : Key → Option AmmPool
  /-- Index: token pair -> list of pool IDs -/
  pairIndex : Key × Key → List Key
  ownId : ∀ id pool, pools id = some pool → pool.poolId = id

/-- The arguments of one registration. -/
structure PoolRegistration where
  pool : AmmPool
  tokenA : Key
  tokenB : Key
  deriving DecidableEq

namespace PoolRegistration

/-- The identifier of the registered pool. -/
def id (call : PoolRegistration) : Key :=
  call.pool.poolId

/-- The registration is for the two tokens, in either order. -/
def ForPair (call : PoolRegistration) (tokenA tokenB : Key) : Prop :=
  (call.tokenA = tokenA ∧ call.tokenB = tokenB) ∨
    (call.tokenB = tokenA ∧ call.tokenA = tokenB)

/-- How often the registration adds its pool to the list of a pair. -/
def times (tokenA tokenB : Key) (call : PoolRegistration) : Nat :=
  (if (call.tokenA, call.tokenB) = (tokenA, tokenB) then 1 else 0) +
    (if (call.tokenB, call.tokenA) = (tokenA, tokenB) then 1 else 0)

variable
  {call : PoolRegistration}
  {tokenA tokenB : Key}

theorem times_pos_iff :
    0 < call.times tokenA tokenB ↔ call.ForPair tokenA tokenB := by
  rw [times, ForPair, ← Prod.mk_inj, ← Prod.mk_inj]
  by_cases forward : (call.tokenA, call.tokenB) = (tokenA, tokenB)
  · rw [if_pos forward]
    exact iff_of_true (by omega) (.inl forward)
  · rw [if_neg forward, Nat.zero_add, or_iff_right forward]
    by_cases backward : (call.tokenB, call.tokenA) = (tokenA, tokenB)
    · rw [if_pos backward]
      exact iff_of_true Nat.one_pos backward
    · rw [if_neg backward]
      exact iff_of_false (lt_irrefl 0) backward

/-- Only a registration for one token twice adds its pool twice. -/
theorem times_le_one_iff :
    call.times tokenA tokenB ≤ 1 ↔
      (call.ForPair tokenA tokenB → tokenA ≠ tokenB) := by
  rw [times]
  constructor
  · rintro atMostOnce (⟨rfl, rfl⟩ | ⟨rfl, rfl⟩) same
    · rw [if_pos rfl, if_pos (by rw [same])] at atMostOnce
      exact absurd atMostOnce (by decide)
    · rw [if_pos (by rw [same]), if_pos rfl] at atMostOnce
      exact absurd atMostOnce (by decide)
  · intro apart
    split
    · next forward =>
        obtain ⟨first, second⟩ := Prod.mk.inj forward
        have oneWay :
            (call.tokenB, call.tokenA) ≠ (tokenA, tokenB) := by
          rintro backward
          obtain ⟨isFirst, -⟩ := Prod.mk.inj backward
          exact apart (.inl ⟨first, second⟩) (isFirst.symm.trans second)
        rw [if_neg oneWay]
    · split <;> decide

end PoolRegistration

namespace PoolRegistry

/-- The registry without pools. -/
def new : PoolRegistry where
  pools := fun _ => none
  pairIndex := fun _ => []
  ownId := nofun

/-- Append an identifier to the list of a token pair. -/
def pushId
    (index : Key × Key → List Key)
    (pair : Key × Key)
    (id : Key) :
    Key × Key → List Key :=
  Function.update index pair (index pair ++ [id])

/-- Register a pool for two tokens. -/
def registerPool
    (registry : PoolRegistry)
    (call : PoolRegistration) :
    PoolRegistry where
  pools := Function.update registry.pools call.id (some call.pool)
  pairIndex :=
    pushId
      (pushId registry.pairIndex (call.tokenA, call.tokenB) call.id)
      (call.tokenB, call.tokenA) call.id
  ownId := by
    intro id pool found
    rw [Function.update_apply] at found
    split at found
    · next isOwn =>
        obtain rfl := Option.some.inj found
        exact isOwn.symm
    · exact registry.ownId id pool found

/-- The pools of a token pair that are still known. -/
def getPoolsForPair
    (registry : PoolRegistry)
    (tokenA tokenB : Key) :
    List AmmPool :=
  (registry.pairIndex (tokenA, tokenB)).filterMap registry.pools

/-- The registry after a sequence of registrations. -/
def registered (calls : List PoolRegistration) : PoolRegistry :=
  calls.foldl registerPool new

section Registered

variable
  {calls : List PoolRegistration}
  {tokenA tokenB id : Key}

theorem registered_concat (call : PoolRegistration) :
    registered (calls ++ [call]) = (registered calls).registerPool call := by
  rw [registered, List.foldl_append]
  rfl

/-- The map holds the latest registration of every pool. -/
theorem registered_pools :
    (registered calls).pools id =
      (KeyedLog.latest PoolRegistration.id calls id).map
        PoolRegistration.pool := by
  induction calls using List.reverseRecOn with
  | nil =>
      rfl
  | append_singleton calls call inductionHypothesis =>
      rw [registered_concat, KeyedLog.latest_concat]
      simp only [registerPool, Function.update_apply, inductionHypothesis]
      split
      · next same => rw [if_pos same.symm, Option.map_some]
      · next other => rw [if_neg (Ne.symm other)]

theorem pushId_apply
    (index : Key × Key → List Key)
    (pair other : Key × Key) :
    pushId index pair id other =
      index other ++ List.replicate (if pair = other then 1 else 0) id := by
  rw [pushId, Function.update_apply]
  split
  · next same => rw [if_pos same.symm, same, List.replicate_one]
  · next apart => rw [if_neg (Ne.symm apart), List.replicate_zero, List.append_nil]

/-- The index lists every registration of a pair. -/
theorem registered_pairIndex :
    (registered calls).pairIndex (tokenA, tokenB) =
      KeyedLog.listed PoolRegistration.id
        (PoolRegistration.times tokenA tokenB) calls := by
  induction calls using List.reverseRecOn with
  | nil =>
      rfl
  | append_singleton calls call inductionHypothesis =>
      rw [registered_concat, KeyedLog.listed, List.flatMap_append,
        ← KeyedLog.listed, ← inductionHypothesis, List.flatMap_singleton]
      simp only [registerPool, pushId_apply, List.append_assoc,
        List.replicate_append_replicate, PoolRegistration.times]

/-- A pool in a list of known identifiers is known by its own one. -/
theorem mem_getPoolsForPair {pool : AmmPool} :
    pool ∈ (registered calls).getPoolsForPair tokenA tokenB ↔
      pool.poolId ∈
          KeyedLog.listed PoolRegistration.id
            (PoolRegistration.times tokenA tokenB) calls ∧
        (registered calls).pools pool.poolId = some pool := by
  rw [getPoolsForPair, registered_pairIndex, List.mem_filterMap]
  constructor
  · rintro ⟨id, listed, found⟩
    obtain rfl := (registered calls).ownId id pool found
    exact ⟨listed, found⟩
  · rintro ⟨listed, found⟩
    exact ⟨pool.poolId, listed, found⟩

/-- The pools of a list of known identifiers have these identifiers. -/
theorem map_poolId_filterMap
    {registry : PoolRegistry}
    {ids : List Key}
    (known : ∀ id ∈ ids, ∃ pool, registry.pools id = some pool) :
    (ids.filterMap registry.pools).map AmmPool.poolId = ids := by
  induction ids with
  | nil =>
      rfl
  | cons id ids inductionHypothesis =>
      obtain ⟨pool, found⟩ := known id List.mem_cons_self
      rw [List.filterMap_cons_some found, List.map_cons,
        registry.ownId id pool found,
        inductionHypothesis
          (fun other member => known other (List.mem_cons_of_mem id member))]

theorem getPoolsForPair_ids :
    ((registered calls).getPoolsForPair tokenA tokenB).map AmmPool.poolId =
      KeyedLog.listed PoolRegistration.id
        (PoolRegistration.times tokenA tokenB) calls := by
  rw [getPoolsForPair, registered_pairIndex]
  apply map_poolId_filterMap
  intro id listed
  obtain ⟨call, member, -, rfl⟩ := KeyedLog.mem_listed.mp listed
  obtain ⟨last, found⟩ :=
    KeyedLog.exists_latest PoolRegistration.id member
  exact ⟨last.pool, by rw [registered_pools, found, Option.map_some]⟩

/--
Every pool whose latest registration is for the two tokens is listed exactly
once, in its latest state, and no other pool is.
-/
structure ListsLatest
    (calls : List PoolRegistration)
    (tokenA tokenB : Key) :
    Prop where
  once :
    (((registered calls).getPoolsForPair tokenA tokenB).map
      AmmPool.poolId).Nodup
  latest :
    ∀ pool, pool ∈ (registered calls).getPoolsForPair tokenA tokenB ↔
      ∃ call,
        KeyedLog.latest PoolRegistration.id calls pool.poolId = some call ∧
          call.pool = pool ∧ call.ForPair tokenA tokenB

/-- The list is right when the index of identifiers is. -/
theorem listsLatest_iff_index :
    ListsLatest calls tokenA tokenB ↔
      KeyedLog.ListsLatest PoolRegistration.id
        (PoolRegistration.times tokenA tokenB) calls := by
  constructor
  · rintro ⟨once, latest⟩
    rw [getPoolsForPair_ids] at once
    refine ⟨once, fun id => ?_⟩
    constructor
    · intro listed
      obtain ⟨call, member, -, rfl⟩ := KeyedLog.mem_listed.mp listed
      obtain ⟨last, found⟩ :=
        KeyedLog.exists_latest PoolRegistration.id member
      have isOwn : last.pool.poolId = call.id :=
        (KeyedLog.latest_mem found).2
      have known : (registered calls).pools last.pool.poolId = some last.pool := by
        rw [isOwn, registered_pools, found, Option.map_some]
      obtain ⟨other, otherFound, -, forPair⟩ :=
        (latest last.pool).mp
          (mem_getPoolsForPair.mpr ⟨isOwn.symm ▸ listed, known⟩)
      exact ⟨other, isOwn ▸ otherFound,
        PoolRegistration.times_pos_iff.mpr forPair⟩
    · rintro ⟨last, found, indexed⟩
      obtain rfl : last.pool.poolId = id := (KeyedLog.latest_mem found).2
      exact (mem_getPoolsForPair.mp ((latest last.pool).mpr
        ⟨last, found, rfl, PoolRegistration.times_pos_iff.mp indexed⟩)).1
  · rintro ⟨once, latest⟩
    refine ⟨getPoolsForPair_ids ▸ once, fun pool => ?_⟩
    rw [mem_getPoolsForPair, latest, registered_pools]
    constructor
    · rintro ⟨⟨last, found, indexed⟩, known⟩
      rw [found, Option.map_some] at known
      exact ⟨last, found, Option.some.inj known,
        PoolRegistration.times_pos_iff.mp indexed⟩
    · rintro ⟨call, found, isPool, forPair⟩
      exact ⟨⟨call, found, PoolRegistration.times_pos_iff.mpr forPair⟩,
        by rw [found, Option.map_some, isPool]⟩

/--
The registrations for the two tokens are for different tokens, and no later
registration is for the same pool.
-/
def RegisteredOnce
    (calls : List PoolRegistration)
    (tokenA tokenB : Key) :
    Prop :=
  (∀ call ∈ calls, call.ForPair tokenA tokenB → tokenA ≠ tokenB) ∧
    KeyedLog.NeverReplaced PoolRegistration.id
      (fun call => call.ForPair tokenA tokenB) calls

theorem listsLatest_iff :
    ListsLatest calls tokenA tokenB ↔
      RegisteredOnce calls tokenA tokenB := by
  rw [listsLatest_iff_index, KeyedLog.listsLatest_iff, RegisteredOnce]
  simp only [PoolRegistration.times_le_one_iff,
    PoolRegistration.times_pos_iff]

end Registered

end PoolRegistry

end YieldDaemon
