import Mathlib.Data.List.MinMax
import YieldDaemon.AmmParser
import YieldDaemon.PoolRegistry

namespace YieldDaemon

open CheckedArithmetic

/-!
# Route optimizer

Two-leg arbitrage over the pools of the swapped pair.  Every pool is compared
with every other one, and the first pair with the largest profit is the route.
-/

/-- The optimizer, without its unused latency bound. -/
structure RouteOptimizer where
  minProfit : Nat

namespace RouteOptimizer

open PoolRegistry

/-- The best route so far and its profit. -/
structure BestRoute where
  route : Option ArbitrageRoute
  profit : Nat

/-- Every pool with every pool at another position. -/
def comparedPairs (pools : List AmmPool) : List (AmmPool × AmmPool) :=
  pools.zipIdx.flatMap
    (fun (first, i) =>
      pools.zipIdx.filterMap
        (fun (second, j) => if i = j then none else some (first, second)))

/-- Buy on the first pool, sell on the second one. -/
def routeOf
    (swap : SwapInstruction)
    (pair : AmmPool × AmmPool)
    (profit : Nat) :
    ArbitrageRoute where
  legs := [
    { poolId := pair.1.poolId.toList
      tokenIn := swap.tokenIn.toList
      tokenOut := swap.tokenOut.toList
      direction := .xToY },
    { poolId := pair.2.poolId.toList
      tokenIn := swap.tokenOut.toList
      tokenOut := swap.tokenIn.toList
      direction := .yToX }]
  expectedProfit := profit % 2 ^ 64

/-- Keep the better one of the best route so far and that of a pair. -/
def considerPair
    (profile : Profile)
    (optimizer : RouteOptimizer)
    (swap : SwapInstruction)
    (best : BestRoute)
    (pair : AmmPool × AmmPool) :
    Checked BestRoute := do
  let (_, profit) ← AmmPool.optimalArbInput profile pair.1 pair.2 100000
  return if best.profit < profit ∧ optimizer.minProfit ≤ profit then
      ⟨some (routeOf swap pair profit), profit⟩
    else
      best

/-- Scan all pools for direct (2-leg) arbitrage opportunities. -/
def findArbitrage
    (profile : Profile)
    (optimizer : RouteOptimizer)
    (registry : PoolRegistry)
    (swap : SwapInstruction) :
    Checked (Option ArbitrageRoute) := do
  let pools := registry.getPoolsForPair swap.tokenIn swap.tokenOut
  if pools.length < 2 then
    return none
  else do
    let best ←
      (comparedPairs pools).foldlM (considerPair profile optimizer swap)
        ⟨none, 0⟩
    return best.route

section Pairs

variable {pools : List AmmPool}

theorem mem_comparedPairs {pair : AmmPool × AmmPool} :
    pair ∈ comparedPairs pools ↔
      ∃ i j : Nat, i ≠ j ∧ pools[i]? = some pair.1 ∧ pools[j]? = some pair.2 := by
  simp only [comparedPairs, List.mem_flatMap, List.mem_filterMap,
    List.mem_zipIdx_iff_getElem?, Prod.exists, Option.ite_none_left_eq_some]
  constructor
  · rintro ⟨first, i, atI, second, j, atJ, apart, isPair⟩
    obtain rfl := Option.some.inj isPair
    exact ⟨i, j, apart, atI, atJ⟩
  · rintro ⟨i, j, apart, atI, atJ⟩
    exact ⟨pair.1, i, atI, pair.2, j, atJ, apart, rfl⟩

/-- Pools of different identifiers are compared with other pools only. -/
theorem comparedPairs_apart
    (once : (pools.map AmmPool.poolId).Nodup)
    {pair : AmmPool × AmmPool}
    (member : pair ∈ comparedPairs pools) :
    pair.1.poolId ≠ pair.2.poolId := by
  obtain ⟨i, j, apart, atI, atJ⟩ := mem_comparedPairs.mp member
  intro same
  have inRange : i < (pools.map AmmPool.poolId).length := by
    rw [List.length_map]
    exact (List.getElem?_eq_some_iff.mp atI).1
  refine apart ((List.getElem?_inj inRange once).mp ?_)
  rw [List.getElem?_map, List.getElem?_map, atI, atJ, Option.map_some,
    Option.map_some, same]

/-- Fewer than two pools are not compared. -/
theorem comparedPairs_of_lt_two (few : pools.length < 2) :
    comparedPairs pools = [] := by
  rw [List.eq_nil_iff_forall_not_mem]
  intro pair member
  obtain ⟨i, j, apart, atI, atJ⟩ := mem_comparedPairs.mp member
  have iInRange := (List.getElem?_eq_some_iff.mp atI).1
  have jInRange := (List.getElem?_eq_some_iff.mp atJ).1
  omega

end Pairs

/-! The route of the best pair. -/

section Best

variable
  {profile : Profile}
  {optimizer : RouteOptimizer}
  {swap : SwapInstruction}
  {pairs : List (AmmPool × AmmPool)}

/-- The profit of a pair, and nothing if the search does not return. -/
def pairProfit (profile : Profile) (pair : AmmPool × AmmPool) : Nat :=
  match AmmPool.optimalArbInput profile pair.1 pair.2 100000 with
  | .ok (_, profit) => profit
  | .error _ => 0

/-- The search returns for every pair. -/
def AllReturn
    (profile : Profile)
    (pairs : List (AmmPool × AmmPool)) :
    Prop :=
  ∀ pair ∈ pairs,
    ∃ best, AmmPool.optimalArbInput profile pair.1 pair.2 100000 = .ok best

instance (pairs : List (AmmPool × AmmPool)) :
    Decidable (AllReturn profile pairs) :=
  decidable_of_iff
    (∀ pair ∈ pairs,
      (AmmPool.optimalArbInput profile pair.1 pair.2 100000).isOk)
    (by
      refine forall₂_congr fun pair _ => ?_
      cases AmmPool.optimalArbInput profile pair.1 pair.2 100000 with
      | error reason => exact iff_of_false Bool.false_ne_true nofun
      | ok best => exact iff_of_true rfl ⟨best, rfl⟩)

/-- The profit of a pair is positive and large enough. -/
def Worthwhile
    (profile : Profile)
    (minProfit : Nat)
    (pair : AmmPool × AmmPool) :
    Prop :=
  0 < pairProfit profile pair ∧ minProfit ≤ pairProfit profile pair

instance (minProfit : Nat) :
    DecidablePred (Worthwhile profile minProfit) :=
  fun _ => inferInstanceAs (Decidable (_ ∧ _))

/-- The first pair with the largest profit that is worthwhile. -/
def bestPair
    (profile : Profile)
    (minProfit : Nat)
    (pairs : List (AmmPool × AmmPool)) :
    Option (AmmPool × AmmPool) :=
  (pairs.filter (Worthwhile profile minProfit)).argmax (pairProfit profile)

/-- The better one of the best pair so far and another pair. -/
def betterPair
    (profile : Profile)
    (minProfit : Nat)
    (best : Option (AmmPool × AmmPool))
    (pair : AmmPool × AmmPool) :
    Option (AmmPool × AmmPool) :=
  if best.elim 0 (pairProfit profile) < pairProfit profile pair ∧
      minProfit ≤ pairProfit profile pair then
    some pair
  else
    best

theorem bestPair_concat (minProfit : Nat) (pair : AmmPool × AmmPool) :
    bestPair profile minProfit (pairs ++ [pair]) =
      betterPair profile minProfit (bestPair profile minProfit pairs)
        pair := by
  unfold bestPair
  rw [List.filter_append]
  by_cases worthwhile : Worthwhile profile minProfit pair
  · rw [List.filter_singleton, decide_eq_true worthwhile, cond_true,
      List.argmax_concat]
    cases List.argmax (pairProfit profile)
        (pairs.filter (Worthwhile profile minProfit)) with
    | none =>
        exact (if_pos worthwhile).symm
    | some best =>
        simp only [betterPair, Option.elim_some, worthwhile.2, and_true]
  · rw [List.filter_singleton, decide_eq_false worthwhile, cond_false,
      List.append_nil]
    refine (if_neg ?_).symm
    rintro ⟨better, enough⟩
    exact worthwhile ⟨Nat.zero_lt_of_lt better, enough⟩

/-- Keeping the better one of each two pairs finds the best one. -/
theorem foldl_betterPair (minProfit : Nat) :
    pairs.foldl (betterPair profile minProfit) none =
      bestPair profile minProfit pairs := by
  induction pairs using List.reverseRecOn with
  | nil =>
      rfl
  | append_singleton pairs pair inductionHypothesis =>
      rw [List.foldl_append, inductionHypothesis, bestPair_concat]
      rfl

/-- The loop variables when the best pair so far is known. -/
def bestRouteOf
    (profile : Profile)
    (swap : SwapInstruction)
    (best : Option (AmmPool × AmmPool)) :
    BestRoute where
  route := best.map (fun pair => routeOf swap pair (pairProfit profile pair))
  profit := best.elim 0 (pairProfit profile)

/-- A pair is considered by its profit. -/
theorem considerPair_eq
    {pair : AmmPool × AmmPool}
    (returns :
      ∃ best,
        AmmPool.optimalArbInput profile pair.1 pair.2 100000 = .ok best)
    (best : Option (AmmPool × AmmPool)) :
    considerPair profile optimizer swap (bestRouteOf profile swap best) pair =
      .ok (bestRouteOf profile swap
        (betterPair profile optimizer.minProfit best pair)) := by
  obtain ⟨⟨input, profit⟩, computed⟩ := returns
  have isProfit : pairProfit profile pair = profit := by
    rw [pairProfit, computed]
  rw [considerPair, computed, Checked.ok_bind, betterPair, isProfit]
  by_cases better :
      best.elim 0 (pairProfit profile) < profit ∧
        optimizer.minProfit ≤ profit
  · rw [if_pos better, bestRouteOf, bestRouteOf, Option.map_some,
      Option.elim_some, isProfit]
    exact congrArg Except.ok (if_pos better)
  · rw [if_neg better]
    exact congrArg Except.ok (if_neg better)

/-- The pairs of pools that are compared for a swap. -/
def comparedFor
    (registry : PoolRegistry)
    (swap : SwapInstruction) :
    List (AmmPool × AmmPool) :=
  comparedPairs (registry.getPoolsForPair swap.tokenIn swap.tokenOut)

/-- The optimizer returns the route of the best pair, if every search returns. -/
theorem findArbitrage_eq_ok
    {registry : PoolRegistry}
    {result : Option ArbitrageRoute} :
    findArbitrage profile optimizer registry swap = .ok result ↔
      AllReturn profile (comparedFor registry swap) ∧
        result =
          (bestPair profile optimizer.minProfit
            (comparedFor registry swap)).map
              (fun pair =>
                routeOf swap pair (pairProfit profile pair)) := by
  set pairs := comparedFor registry swap
  have loop (allReturn : AllReturn profile pairs) :
      pairs.foldlM (considerPair profile optimizer swap) ⟨none, 0⟩ =
        .ok (bestRouteOf profile swap
          (bestPair profile optimizer.minProfit pairs)) := by
    rw [← foldl_betterPair]
    exact Checked.foldlM_simulates (bestRouteOf profile swap)
      (betterPair profile optimizer.minProfit)
      (fun pair member best => considerPair_eq (allReturn pair member) best)
      none
  unfold findArbitrage
  dsimp only
  split
  · next few =>
      have noPairs : pairs = [] := comparedPairs_of_lt_two few
      rw [noPairs]
      constructor
      · intro returned
        exact ⟨nofun, (Except.ok.inj returned).symm⟩
      · rintro ⟨-, rfl⟩
        rfl
  · rw [Checked.bind_eq_ok]
    constructor
    · rintro ⟨best, returned, isResult⟩
      have allReturn : AllReturn profile pairs := by
        intro pair member
        obtain ⟨before, after, considered⟩ :=
          Checked.foldlM_ran returned member
        obtain ⟨found, computed, -⟩ := Checked.bind_eq_ok.mp considered
        exact ⟨found, computed⟩
      obtain rfl := Except.ok.inj ((loop allReturn).symm.trans returned)
      exact ⟨allReturn, (Except.ok.inj isResult).symm⟩
    · rintro ⟨allReturn, rfl⟩
      exact ⟨_, loop allReturn, rfl⟩

end Best

section Itself

variable
  {calls : List PoolRegistration}
  {tokenA tokenB : Key}

/-- No swap of the two tokens makes the optimizer compare a pool with itself. -/
def NeverAgainstItself
    (registry : PoolRegistry)
    (tokenA tokenB : Key) :
    Prop :=
  ∀ swap : SwapInstruction,
    swap.tokenIn = tokenA → swap.tokenOut = tokenB →
      ∀ pair ∈ comparedFor registry swap, pair.1.poolId ≠ pair.2.poolId

/--
The list of a pair holds each of its pools once, so that no pool is compared
with itself, exactly when no registration for the pair is ever repeated.
-/
theorem pools_listed_once_iff
    (calls : List PoolRegistration)
    (tokenA tokenB : Key) :
    (ListsLatest calls tokenA tokenB ∧
        NeverAgainstItself (registered calls) tokenA tokenB) ↔
      RegisteredOnce calls tokenA tokenB := by
  rw [← listsLatest_iff, and_iff_left_iff_imp]
  rintro listsLatest swap rfl rfl pair member
  exact comparedPairs_apart listsLatest.once member

/-- A pool with the given reserves and a fee of 0.3%. -/
def poolOf
    (id : UInt8)
    (reserveX reserveY : Nat)
    (fits : reserveX < 2 ^ 128 ∧ reserveY < 2 ^ 128) :
    AmmPool where
  reserveX := reserveX
  reserveY := reserveY
  feeNumerator := 3
  feeDenominator := 1000
  poolId := Vector.replicate 32 id
  reserveXFits := fits.1
  reserveYFits := fits.2

/-- The tokens of the examples. -/
def exampleTokenA : Key :=
  Vector.replicate 32 0xAA

def exampleTokenB : Key :=
  Vector.replicate 32 0xBB

/-- One pool, registered again with fresh reserves. -/
def refreshedPool : List PoolRegistration := [
  ⟨poolOf 1 1000000 2000000 (by decide), exampleTokenA, exampleTokenB⟩,
  ⟨poolOf 1 1100000 1900000 (by decide), exampleTokenA, exampleTokenB⟩]

/-- A refreshed pool is listed twice and compared with itself. -/
theorem refreshed_pool_is_listed_twice :
    ¬ ListsLatest refreshedPool exampleTokenA exampleTokenB ∧
      ¬ NeverAgainstItself (registered refreshedPool)
        exampleTokenA exampleTokenB := by
  constructor
  · rintro ⟨once, -⟩
    exact absurd once (by decide +kernel)
  · intro apart
    let swap : SwapInstruction :=
      ⟨exampleTokenA, exampleTokenA, exampleTokenB, 0, 0, exampleTokenA⟩
    let fresh := poolOf 1 1100000 1900000 (by decide)
    have compared : (fresh, fresh) ∈ comparedFor (registered refreshedPool) swap := by
      decide +kernel
    exact apart swap rfl rfl (fresh, fresh) compared rfl

end Itself

/-! Routes that can be taken. -/

section Routes

variable
  {profile : Profile}
  {optimizer : RouteOptimizer}
  {calls : List PoolRegistration}
  {swap : SwapInstruction}
  {pair : AmmPool × AmmPool}

/-- Swap an amount on a pool in a direction. -/
def swapOn
    (profile : Profile)
    (pool : AmmPool)
    (amountIn : Nat) :
    SwapDirection → Checked Nat
  | .xToY => pool.swapXToY profile amountIn
  | .yToX => pool.swapYToX profile amountIn

/-- The direction of a leg is that of its tokens on its pool. -/
def LegPossible (calls : List PoolRegistration) (leg : RouteLeg) : Prop :=
  ∃ call ∈ calls,
    call.id.toList = leg.poolId ∧
      (leg.direction = .xToY ↔ leg.tokenIn = call.tokenA.toList)

/-- The legs in their order turn the first amount into the second one. -/
def LegsTrade
    (profile : Profile)
    (calls : List PoolRegistration) :
    List RouteLeg → Nat → Nat → Prop
  | [], amountIn, amountOut => amountIn = amountOut
  | leg :: legs, amountIn, amountOut =>
      ∃ call ∈ calls,
        call.id.toList = leg.poolId ∧
          ∃ middle,
            swapOn profile call.pool amountIn leg.direction = .ok middle ∧
              LegsTrade profile calls legs middle amountOut

/-- Every leg is possible, and the legs gain the expected profit. -/
structure RouteSound
    (profile : Profile)
    (calls : List PoolRegistration)
    (route : ArbitrageRoute) :
    Prop where
  possible : ∀ leg ∈ route.legs, LegPossible calls leg
  gains :
    ∃ input < 2 ^ 128,
      LegsTrade profile calls route.legs input
        (input + route.expectedProfit)

/-- A listed pool was registered. -/
theorem registration_of_mem
    {tokenA tokenB : Key}
    {pool : AmmPool}
    (member : pool ∈ (registered calls).getPoolsForPair tokenA tokenB) :
    ∃ call ∈ calls, call.pool = pool := by
  obtain ⟨-, known⟩ := mem_getPoolsForPair.mp member
  rw [registered_pools, Option.map_eq_some_iff] at known
  obtain ⟨call, found, isPool⟩ := known
  exact ⟨call, (KeyedLog.latest_mem found).1, isPool⟩

theorem registrations_of_mem
    (member : pair ∈ comparedFor (registered calls) swap) :
    (∃ call ∈ calls, call.pool = pair.1) ∧
      ∃ call ∈ calls, call.pool = pair.2 := by
  obtain ⟨i, j, -, atI, atJ⟩ := mem_comparedPairs.mp member
  exact ⟨registration_of_mem (List.mem_of_getElem? atI),
    registration_of_mem (List.mem_of_getElem? atJ)⟩

/-- What is said of the registration of a pool that is registered once. -/
theorem exists_registration_iff
    (once : (calls.map PoolRegistration.id).Nodup)
    {call : PoolRegistration}
    (member : call ∈ calls)
    (holds : PoolRegistration → Prop) :
    (∃ other ∈ calls,
        other.id.toList = call.pool.poolId.toList ∧ holds other) ↔
      holds call := by
  constructor
  · rintro ⟨other, otherMember, same, otherHolds⟩
    have sameId : other.id = call.id := Vector.toList_inj.mp same
    rwa [← List.inj_on_of_nodup_map once otherMember member sameId]
  · exact fun callHolds => ⟨call, member, rfl, callHolds⟩

/--
The first pool was registered with `token_in` as its X and the second one with
another token than `token_out`, and the profit is not changed by the cast to
u64, or is changed to one that another input gains.
-/
structure PairFits
    (profile : Profile)
    (calls : List PoolRegistration)
    (swap : SwapInstruction)
    (pair : AmmPool × AmmPool) :
    Prop where
  buys :
    ∀ call ∈ calls, call.id = pair.1.poolId → call.tokenA = swap.tokenIn
  sells :
    ∀ call ∈ calls, call.id = pair.2.poolId → call.tokenA ≠ swap.tokenOut
  gains :
    pairProfit profile pair < 2 ^ 64 ∨
      ∃ input < 2 ^ 128,
        AmmPool.Gains profile pair.1 pair.2 input
          (pairProfit profile pair % 2 ^ 64)

/-- What holds of every registration of a pool that is registered once. -/
theorem forall_registration_iff
    (once : (calls.map PoolRegistration.id).Nodup)
    {call : PoolRegistration}
    (member : call ∈ calls)
    (holds : PoolRegistration → Prop) :
    (∀ other ∈ calls, other.id = call.pool.poolId → holds other) ↔
      holds call := by
  constructor
  · exact fun all => all call member rfl
  · intro callHolds other otherMember same
    rwa [List.inj_on_of_nodup_map once otherMember member same]

/-- The legs of the route of a pair are its two swaps. -/
theorem legsTrade_iff
    (once : (calls.map PoolRegistration.id).Nodup)
    {buy sell : PoolRegistration}
    (buyMember : buy ∈ calls)
    (sellMember : sell ∈ calls)
    {input gain profit : Nat} :
    LegsTrade profile calls (routeOf swap (buy.pool, sell.pool) profit).legs
        input (input + gain) ↔
      AmmPool.Gains profile buy.pool sell.pool input gain := by
  unfold routeOf LegsTrade
  rw [exists_registration_iff once buyMember]
  unfold LegsTrade
  simp only [exists_registration_iff once sellMember, swapOn, LegsTrade,
    AmmPool.Gains, exists_eq_right]

/-- A positive profit of a pair is gained by an input. -/
theorem pairProfit_gains
    (positive : 0 < pairProfit profile pair) :
    ∃ input < 2 ^ 128,
      AmmPool.Gains profile pair.1 pair.2 input (pairProfit profile pair) := by
  cases computed : AmmPool.optimalArbInput profile pair.1 pair.2 100000 with
  | error reason =>
      rw [pairProfit, computed] at positive
      exact absurd positive (lt_irrefl 0)
  | ok best =>
      obtain ⟨input, profit⟩ := best
      have isProfit : pairProfit profile pair = profit := by
        rw [pairProfit, computed]
      rw [isProfit] at positive ⊢
      obtain ⟨small, gains⟩ :=
        AmmPool.optimalArbInput_gains (by decide) positive computed
      exact ⟨input, small.trans (by decide), gains⟩

/-- The route of a pair is sound when the pair fits the swap. -/
theorem routeSound_iff
    (once : (calls.map PoolRegistration.id).Nodup)
    (member : pair ∈ comparedFor (registered calls) swap)
    (positive : 0 < pairProfit profile pair) :
    RouteSound profile calls
        (routeOf swap pair (pairProfit profile pair)) ↔
      PairFits profile calls swap pair := by
  obtain ⟨⟨buy, buyMember, isBuy⟩, sell, sellMember, isSell⟩ :=
    registrations_of_mem member
  obtain ⟨first, second⟩ := pair
  subst isBuy isSell
  have possible :
      (∀ leg ∈ (routeOf swap (buy.pool, sell.pool)
          (pairProfit profile (buy.pool, sell.pool))).legs,
        LegPossible calls leg) ↔
      buy.tokenA = swap.tokenIn ∧ sell.tokenA ≠ swap.tokenOut := by
    simp only [routeOf, LegPossible, List.forall_mem_cons,
      exists_registration_iff once buyMember,
      exists_registration_iff once sellMember]
    simp [Vector.toList_inj, eq_comm]
  have gains :
      (∃ input < 2 ^ 128,
        LegsTrade profile calls
          (routeOf swap (buy.pool, sell.pool)
            (pairProfit profile (buy.pool, sell.pool))).legs input
          (input + pairProfit profile (buy.pool, sell.pool) % 2 ^ 64)) ↔
      (pairProfit profile (buy.pool, sell.pool) < 2 ^ 64 ∨
        ∃ input < 2 ^ 128,
          AmmPool.Gains profile buy.pool sell.pool input
            (pairProfit profile (buy.pool, sell.pool) % 2 ^ 64)) := by
    simp only [legsTrade_iff once buyMember sellMember]
    refine ⟨.inr, ?_⟩
    rintro (exact | gains)
    · rw [Nat.mod_eq_of_lt exact]
      exact pairProfit_gains positive
    · exact gains
  constructor
  · rintro ⟨legs, input⟩
    obtain ⟨buys, sells⟩ := possible.mp legs
    exact ⟨(forall_registration_iff once buyMember _).mpr buys,
      (forall_registration_iff once sellMember _).mpr sells, gains.mp input⟩
  · rintro ⟨buys, sells, input⟩
    exact ⟨possible.mpr
      ⟨(forall_registration_iff once buyMember _).mp buys,
        (forall_registration_iff once sellMember _).mp sells⟩,
      gains.mpr input⟩

/-- The best pair is one of the compared ones and has a profit. -/
theorem bestPair_mem
    {minProfit : Nat}
    {pairs : List (AmmPool × AmmPool)}
    (isBest : pair ∈ bestPair profile minProfit pairs) :
    pair ∈ pairs ∧ Worthwhile profile minProfit pair := by
  have member := List.argmax_mem isBest
  rwa [List.mem_filter, decide_eq_true_eq] at member

/--
Every route that is returned can be taken and gains its profit exactly when
the best of the compared pairs fits the swap, if a pair is the best at all.
-/
theorem findArbitrage_sound_iff
    (profile : Profile)
    (optimizer : RouteOptimizer)
    (swap : SwapInstruction)
    (once : (calls.map PoolRegistration.id).Nodup) :
    (∀ route,
        findArbitrage profile optimizer (registered calls) swap =
          .ok (some route) →
        RouteSound profile calls route) ↔
      (AllReturn profile (comparedFor (registered calls) swap) →
        ∀ pair ∈ bestPair profile optimizer.minProfit
            (comparedFor (registered calls) swap),
          PairFits profile calls swap pair) := by
  constructor
  · intro sound allReturn pair isBest
    obtain ⟨member, worthwhile⟩ := bestPair_mem isBest
    refine (routeSound_iff once member worthwhile.1).mp (sound _ ?_)
    refine findArbitrage_eq_ok.mpr ⟨allReturn, ?_⟩
    rw [Option.mem_def.mp isBest, Option.map_some]
  · intro fits route returned
    obtain ⟨allReturn, isRoute⟩ := findArbitrage_eq_ok.mp returned
    obtain ⟨pair, isBest, rfl⟩ := Option.map_eq_some_iff.mp isRoute.symm
    obtain ⟨member, worthwhile⟩ := bestPair_mem isBest
    exact (routeSound_iff once member worthwhile.1).mpr
      (fits allReturn pair isBest)

/-- Two pools for the same tokens with a difference in price. -/
def mispricedPair : AmmPool × AmmPool :=
  (poolOf 1 1000000 2000000 (by decide), poolOf 2 2000000 1000000 (by decide))

def mispricedPools : List PoolRegistration := [
  ⟨mispricedPair.1, exampleTokenA, exampleTokenB⟩,
  ⟨mispricedPair.2, exampleTokenA, exampleTokenB⟩]

/-- A swap of one of the tokens for the other. -/
def exampleSwap (tokenIn tokenOut : Key) : SwapInstruction where
  poolId := Vector.replicate 32 1
  tokenIn := tokenIn
  tokenOut := tokenOut
  amountIn := 1000
  minAmountOut := 0
  user := Vector.replicate 32 9

theorem mispricedPair_best :
    AllReturn .debug [mispricedPair, mispricedPair.swap] ∧
      bestPair .debug 1 [mispricedPair, mispricedPair.swap] =
          some mispricedPair ∧
        pairProfit .debug mispricedPair < 2 ^ 64 := by
  decide +kernel

/-- Both pools are compared for either order of the tokens. -/
theorem mispricedPools_route
    (compared :
      comparedFor (registered mispricedPools) swap =
        [mispricedPair, mispricedPair.swap]) :
    findArbitrage .debug ⟨1⟩ (registered mispricedPools) swap =
      .ok (some (routeOf swap mispricedPair
        (pairProfit .debug mispricedPair))) := by
  obtain ⟨allReturn, isBest, -⟩ := mispricedPair_best
  rw [findArbitrage_eq_ok, compared]
  exact ⟨allReturn, by rw [isBest, Option.map_some]⟩

/-- Along the order of the tokens the route is sound, for instance. -/
theorem forward_swap_is_sound :
    ∃ route,
      findArbitrage .debug ⟨1⟩ (registered mispricedPools)
          (exampleSwap exampleTokenA exampleTokenB) = .ok (some route) ∧
        RouteSound .debug mispricedPools route := by
  have compared :
      comparedFor (registered mispricedPools)
          (exampleSwap exampleTokenA exampleTokenB) =
        [mispricedPair, mispricedPair.swap] := by
    decide +kernel
  have returned := mispricedPools_route compared
  refine ⟨_, returned, (findArbitrage_sound_iff .debug ⟨1⟩
    (exampleSwap exampleTokenA exampleTokenB) (by decide +kernel)).mpr
      (fun _ pair isBest => ?_) _ returned⟩
  obtain ⟨-, best, small⟩ := mispricedPair_best
  rw [compared, best] at isBest
  obtain rfl := Option.some.inj isBest
  exact ⟨by decide +kernel, by decide +kernel, .inl small⟩

/-- Against the order of the tokens the legs have the wrong directions. -/
theorem backward_swap_is_not_sound :
    ∃ route,
      findArbitrage .debug ⟨1⟩ (registered mispricedPools)
          (exampleSwap exampleTokenB exampleTokenA) = .ok (some route) ∧
        ¬ RouteSound .debug mispricedPools route := by
  have compared :
      comparedFor (registered mispricedPools)
          (exampleSwap exampleTokenB exampleTokenA) =
        [mispricedPair, mispricedPair.swap] := by
    decide +kernel
  refine ⟨_, mispricedPools_route compared, ?_⟩
  rintro ⟨possible, -⟩
  obtain ⟨call, member, -, direction⟩ := possible _ List.mem_cons_self
  have tokenX : ∀ call ∈ mispricedPools, call.tokenA = exampleTokenA := by
    decide +kernel
  have tokenIn : exampleTokenB.toList = call.tokenA.toList := direction.mp rfl
  rw [tokenX call member] at tokenIn
  exact absurd tokenIn (by decide +kernel)

end Routes

end RouteOptimizer

end YieldDaemon
