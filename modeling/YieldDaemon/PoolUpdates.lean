import YieldDaemon.AsteEvents
import YieldDaemon.ShadowOperations

namespace YieldDaemon

open CheckedArithmetic

/-!
# Confirmed updates in any order

A pool update overwrites the confirmed reserves and the slot of its pool
without a look at the slot it replaces.  Whatever the order of delivery, the
pool ends with the update that is delivered last.
-/

namespace StateShadow

/-- The confirmed entries of one pool. -/
structure Confirmed where
  reserveX : Nat
  reserveY : Nat
  slot : Nat
  deriving DecidableEq

def confirmed (shadow : StateShadow) (pool : PoolIdx) : Confirmed where
  reserveX := shadow.reserveX pool
  reserveY := shadow.reserveY pool
  slot := shadow.lastUpdatedSlot pool

/-- An update replaces the confirmed entries of its pool. -/
theorem confirmed_updateReserves
    {profile : Profile}
    {before after : StateShadow}
    {pool : PoolIdx}
    {reserveX reserveY slot : Nat}
    (returned :
      before.updateReserves profile pool.val reserveX reserveY slot =
        .ok after) :
    after.poolCount = before.poolCount ∧
      after.confirmed pool = ⟨reserveX, reserveY, slot⟩ := by
  obtain ⟨target, xPerY, yPerX, samePool, -, rfl⟩ :=
    updateReserves_cases returned
  obtain rfl : pool = target := Fin.ext samePool
  refine ⟨rfl, ?_⟩
  simp [confirmed, withPrices, writeUpdate]

/-- A reserve whose Q32.32 image has 128 bits. -/
def priceLimit : Nat := 2 ^ 96

/-- A release build wraps a price that is too large for a debug build. -/
theorem fixedPointPrice_returns
    {profile : Profile}
    {numerator : Nat}
    (fits : profile = .debug → numerator < priceLimit)
    (previous divisor : Nat) :
    ∃ price,
      fixedPointPrice profile previous numerator divisor = .ok price := by
  unfold fixedPointPrice
  by_cases positive : 0 < divisor
  · rw [if_pos positive]
    apply Checked.bind_returns
    · cases profile with
      | debug =>
          have fits := fits rfl
          unfold priceLimit at fits
          exact ⟨_, fit_of_lt (by unfold priceScale; omega)⟩
      | release =>
          exact mul_release_returns 128 numerator priceScale
    · intro scaled _
      exact Checked.bind_returns
        ⟨scaled / divisor, div_eq_ok.mpr ⟨positive.ne', rfl⟩⟩
        (fun price _ => ⟨price % 2 ^ 64, rfl⟩)
  · exact ⟨previous, if_neg positive⟩

/-- What an update needs in a debug build. -/
structure Acceptable
    (shadow : StateShadow)
    (pool : PoolIdx)
    (update : Confirmed) : Prop where
  registered : pool.val < shadow.poolCount
  smallX : update.reserveX < priceLimit
  smallY : update.reserveY < priceLimit

/-- A release build takes every update of a pool of the arrays. -/
theorem updateReserves_returns
    {profile : Profile}
    {shadow : StateShadow}
    {pool : PoolIdx}
    {update : Confirmed}
    (acceptable : profile = .debug → shadow.Acceptable pool update) :
    ∃ after,
      shadow.updateReserves profile pool.val update.reserveX
        update.reserveY update.slot = .ok after := by
  unfold updateReserves
  apply Checked.bind_returns
  · refine ⟨(), ?_⟩
    cases profile with
    | debug =>
        exact debugAssert_debug_eq_ok.mpr
          (decide_eq_true (acceptable rfl).registered)
    | release =>
        exact debugAssert_release _
  · intro _ _
    rw [poolIndex_val, Checked.ok_bind]
    unfold recomputePrice
    simp only [Function.update_self]
    apply Checked.bind_returns
    · exact fixedPointPrice_returns
        (fun debugBuild => (acceptable debugBuild).smallX) _ _
    · intro xPerY _
      apply Checked.bind_returns
      · exact fixedPointPrice_returns
          (fun debugBuild => (acceptable debugBuild).smallY) _ _
      · exact fun yPerX _ => ⟨_, rfl⟩

end StateShadow

/-- A pool update in flight, with the time that its processing takes. -/
structure Delivery where
  update : StateShadow.Confirmed
  elapsedNanos : Nat

/-- The update as an event for the pool of the given index. -/
def Delivery.arrival (poolIdx : Nat) (delivery : Delivery) : Arrival where
  event :=
    .poolUpdate poolIdx delivery.update.reserveX delivery.update.reserveY
      delivery.update.slot
  elapsedNanos := delivery.elapsedNanos

namespace Aste

/-- Process events in their order of arrival, for their effect only. -/
def processAll (target : Target) (engine : Aste) (arrivals : List Arrival) :
    Checked Aste :=
  arrivals.foldlM
    (fun engine arrival => do
      let (_, next) ←
        engine.processEvent target arrival.elapsedNanos arrival.event
      return next)
    engine

variable
  {target : Target}
  {engine next : Aste}
  {pool : PoolIdx}

/-- Processing an update leaves it as the confirmed entries of its pool. -/
theorem processEvent_poolUpdate
    {elapsedNanos profit reserveX reserveY slot : Nat}
    (processed :
      engine.processEvent target elapsedNanos
          (.poolUpdate pool.val reserveX reserveY slot) =
        .ok (profit, next)) :
    next.shadow.confirmed pool = ⟨reserveX, reserveY, slot⟩ := by
  simp only [processEvent, beginCycle, updateLatency, Checked.bind_eq_ok,
    Checked.pure_eq_ok, Except.ok.injEq, Prod.mk.injEq] at processed
  obtain ⟨counted, ⟨cycleCount, -, rfl⟩, shadow, updating, tracked,
    ⟨average, -, rfl⟩, -, rfl⟩ := processed
  exact (StateShadow.confirmed_updateReserves updating).2

/--
What a debug build needs for a list of updates: the pool is registered, the
reserves leave room for the price, the counters have room and no update takes
36 years.
-/
structure Accepts
    (engine : Aste)
    (pool : PoolIdx)
    (deliveries : List Delivery) : Prop where
  registered : pool.val < engine.shadow.poolCount
  small :
    ∀ delivery ∈ deliveries,
      delivery.update.reserveX < StateShadow.priceLimit ∧
        delivery.update.reserveY < StateShadow.priceLimit
  quick : ∀ delivery ∈ deliveries, delivery.elapsedNanos < clockLimit
  cyclesLeft : engine.cycleCount + deliveries.length < 2 ^ 64
  latencyLow : engine.stats.avgCycleLatencyNs < clockLimit

/-- An accepted update is processed, and the next one is accepted as well. -/
theorem processEvent_returns
    {delivery : Delivery}
    {later : List Delivery}
    (accepts :
      target.profile = .debug → engine.Accepts pool (delivery :: later)) :
    ∃ next,
      engine.processEvent target delivery.elapsedNanos
          (delivery.arrival pool.val).event = .ok (0, next) ∧
        (target.profile = .debug → next.Accepts pool later) := by
  obtain ⟨cycleCount, counting, room⟩ :=
    cycle_counted (fun debugBuild => (accepts debugBuild).cyclesLeft)
  obtain ⟨shadow, updating⟩ :=
    StateShadow.updateReserves_returns
      (fun debugBuild =>
        { registered := (accepts debugBuild).registered
          smallX :=
            ((accepts debugBuild).small delivery List.mem_cons_self).1
          smallY :=
            ((accepts debugBuild).small delivery List.mem_cons_self).2 })
  obtain ⟨average, averaging, averageLow⟩ :=
    latencyAverage_returns
      (fun debugBuild => (accepts debugBuild).latencyLow)
      (fun debugBuild =>
        (Nat.mod_le delivery.elapsedNanos (2 ^ 64)).trans_lt
          ((accepts debugBuild).quick delivery List.mem_cons_self))
  obtain ⟨samePools, -⟩ := StateShadow.confirmed_updateReserves updating
  simp only [processEvent, Delivery.arrival, beginCycle, updateLatency,
    counting, updating, averaging, Checked.ok_bind, Checked.pure_eq_ok]
  refine ⟨_, rfl, fun debugBuild => ?_⟩
  exact {
    registered := samePools ▸ (accepts debugBuild).registered
    small := fun other member =>
      (accepts debugBuild).small other (List.mem_cons_of_mem delivery member)
    quick := fun other member =>
      (accepts debugBuild).quick other (List.mem_cons_of_mem delivery member)
    cyclesLeft := room debugBuild
    latencyLow := averageLow debugBuild }

/-- Accepted updates are processed in any order. -/
theorem processAll_returns
    {deliveries : List Delivery}
    (accepts : target.profile = .debug → engine.Accepts pool deliveries) :
    ∃ final,
      engine.processAll target
          (deliveries.map (Delivery.arrival pool.val)) = .ok final := by
  induction deliveries generalizing engine with
  | nil =>
      exact ⟨engine, rfl⟩
  | cons delivery later inductionHypothesis =>
      obtain ⟨next, processed, nextAccepts⟩ := processEvent_returns accepts
      obtain ⟨final, laterProcessed⟩ := inductionHypothesis nextAccepts
      refine ⟨final, ?_⟩
      have elapsed :
          (delivery.arrival pool.val).elapsedNanos =
            delivery.elapsedNanos := rfl
      rw [processAll, List.map_cons, List.foldlM_cons, elapsed, processed]
      exact laterProcessed

/-- After updates the pool shows the one that was delivered last. -/
theorem processAll_last
    {final : Aste}
    (earlier : List Arrival)
    (last : Delivery)
    (processed :
      engine.processAll target (earlier ++ [last.arrival pool.val]) =
        .ok final) :
    final.shadow.confirmed pool = last.update := by
  simp only [processAll, List.foldlM_append, List.foldlM_cons,
    List.foldlM_nil, Checked.bind_eq_ok, Checked.pure_eq_ok,
    Except.ok.injEq] at processed
  obtain ⟨before, -, after, ⟨⟨profit, reached⟩, lastProcessed, rfl⟩, rfl⟩ :=
    processed
  exact processEvent_poolUpdate lastProcessed

/--
Updates of a pool with distinct slots leave it with the update delivered last,
and so with a given one of them exactly if that one is delivered last.  A
release build processes them all, and a debug build those that it has room for.
-/
theorem last_delivery_is_confirmed
    {target : Target}
    {engine : Aste}
    {pool : PoolIdx}
    {deliveries : List Delivery}
    (distinct : (deliveries.map (·.update.slot)).Nodup)
    (nonempty : deliveries ≠ []) :
    (∀ final,
      engine.processAll target
          (deliveries.map (Delivery.arrival pool.val)) = .ok final →
        final.shadow.confirmed pool =
            (deliveries.getLast nonempty).update ∧
          ∀ delivery ∈ deliveries,
            final.shadow.confirmed pool = delivery.update ↔
              deliveries.getLast nonempty = delivery) ∧
      ((target.profile = .debug → engine.Accepts pool deliveries) →
        ∃ final,
          engine.processAll target
            (deliveries.map (Delivery.arrival pool.val)) = .ok final) := by
  refine ⟨fun final processed => ?_, processAll_returns⟩
  have shape :
      deliveries.map (Delivery.arrival pool.val) =
        deliveries.dropLast.map (Delivery.arrival pool.val) ++
          [(deliveries.getLast nonempty).arrival pool.val] := by
    rw [← List.map_singleton, ← List.map_append,
      List.dropLast_append_getLast]
  have shown :
      final.shadow.confirmed pool =
        (deliveries.getLast nonempty).update :=
    processAll_last _ _ (shape ▸ processed)
  refine ⟨shown, fun delivery member => ?_⟩
  rw [shown]
  constructor
  · intro sameUpdate
    exact List.inj_on_of_nodup_map distinct
      (List.getLast_mem nonempty) member (congrArg (·.slot) sameUpdate)
  · intro last
    rw [last]

/-- An engine with the 6 by 6 pool, last updated in slot 100. -/
def sixEngine : Aste :=
  { new AsteConfig.default with shadow := Trade.levelShadow 6 }

/-- The updates of two slots after that. -/
def olderUpdate : Delivery := ⟨⟨8, 8, 101⟩, 800⟩

def newerUpdate : Delivery := ⟨⟨9, 7, 102⟩, 900⟩

/-- In order of their slots the updates leave the newer one. -/
theorem newer_update_delivered_last :
    ∃ final,
      sixEngine.processAll ⟨.debug, exactFloats, stableSort⟩
          ([olderUpdate, newerUpdate].map (Delivery.arrival 0)) =
        .ok final ∧
      final.shadow.confirmed Trade.levelPool = ⟨9, 7, 102⟩ ∧
      ∀ delivery ∈ [olderUpdate, newerUpdate],
        final.shadow.confirmed Trade.levelPool = delivery.update ↔
          newerUpdate = delivery := by
  have accepts :
      sixEngine.Accepts Trade.levelPool [olderUpdate, newerUpdate] :=
    { registered := Nat.zero_lt_one
      small := by decide
      quick := by decide
      cyclesLeft := by decide
      latencyLow := by decide }
  obtain ⟨shows, returns⟩ :=
    last_delivery_is_confirmed (by decide)
      (List.cons_ne_nil olderUpdate [newerUpdate])
  obtain ⟨final, processed⟩ := returns (fun _ => accepts)
  exact ⟨final, processed, shows final processed⟩

/-- The older update wins when it arrives late. -/
theorem older_update_overwrites_newer :
    ∃ late,
      sixEngine.processAll ⟨.debug, exactFloats, stableSort⟩
          ([newerUpdate, olderUpdate].map (Delivery.arrival 0)) = .ok late ∧
        sixEngine.shadow.lastUpdatedSlot Trade.levelPool <
          olderUpdate.update.slot ∧
        olderUpdate.update.slot < newerUpdate.update.slot ∧
        late.shadow.confirmed Trade.levelPool = olderUpdate.update ∧
        late.shadow.confirmed Trade.levelPool ≠ newerUpdate.update := by
  refine ⟨_, rfl, ?_, ?_, rfl, ?_⟩
  · exact Nat.lt_succ_self 100
  · exact Nat.lt_succ_self 101
  · intro same
    exact absurd (congrArg (·.slot) same)
      (show olderUpdate.update.slot ≠ newerUpdate.update.slot by decide)

end Aste

end YieldDaemon
