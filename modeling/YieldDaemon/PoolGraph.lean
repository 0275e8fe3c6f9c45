import Mathlib.Data.List.FinRange
import YieldDaemon.NameTable
import YieldDaemon.PriceGraph

namespace YieldDaemon

open CheckedArithmetic

/-!
# The graph of a shadow's pools

A rebuilt graph has a node for each token that an active pool trades and an
edge for each direction of such a pool that has a positive rate, in the order of
the pools.  With at most two tokens a pool no node index is cut to 16 bits.
-/

namespace StateShadow

/-- The token that a swap through a pool takes in. -/
def tokenIn (shadow : StateShadow) (pool : PoolIdx) : Bool → Nat
  | true => shadow.tokenXId pool
  | false => shadow.tokenYId pool

/-- The token that a swap through a pool pays out. -/
def tokenOut (shadow : StateShadow) (pool : PoolIdx) : Bool → Nat
  | true => shadow.tokenYId pool
  | false => shadow.tokenXId pool

/-- The pool is active and holds both of its tokens. -/
def Trades (shadow : StateShadow) (pool : PoolIdx) : Prop :=
  shadow.active pool ≠ 0 ∧
    shadow.specReserveX pool ≠ 0 ∧ shadow.specReserveY pool ≠ 0

instance (shadow : StateShadow) (pool : PoolIdx) :
    Decidable (shadow.Trades pool) :=
  inferInstanceAs (Decidable (_ ∧ _ ∧ _))

/-- The rate of a swap through a pool on the speculative reserves. -/
def swapRate
    (floats : FloatRates)
    (shadow : StateShadow)
    (pool : PoolIdx) : Bool → floats.Rate
  | true =>
      floats.rate (shadow.specReserveX pool) (shadow.specReserveY pool)
        (shadow.feeNum pool) (shadow.feeDen pool)
  | false =>
      floats.rate (shadow.specReserveY pool) (shadow.specReserveX pool)
        (shadow.feeNum pool) (shadow.feeDen pool)

end StateShadow

/-- A swap of one token for another through a pool, and its weight. -/
structure SwapRoute where
  tokenIn : Nat
  tokenOut : Nat
  poolIdx : Nat
  weight : Int
  xToY : Bool

namespace SwapRoute

/-- The swap through a pool in one direction. -/
def ofPool
    (floats : FloatRates)
    (shadow : StateShadow)
    (pool : PoolIdx)
    (xToY : Bool) : SwapRoute where
  tokenIn := shadow.tokenIn pool xToY
  tokenOut := shadow.tokenOut pool xToY
  poolIdx := pool.val
  weight := floats.weight (shadow.swapRate floats pool xToY)
  xToY := xToY

/-- The directions of a pool that have a positive rate. -/
def directions
    (floats : FloatRates)
    (shadow : StateShadow)
    (pool : PoolIdx) : List Bool :=
  if shadow.Trades pool then
    [true, false].filter
      (fun xToY => !floats.isNotPositive (shadow.swapRate floats pool xToY))
  else
    []

/-- The swaps that a pool offers. -/
def throughPool
    (floats : FloatRates)
    (shadow : StateShadow)
    (pool : PoolIdx) : List SwapRoute :=
  (directions floats shadow pool).map (ofPool floats shadow pool)

/-- The registered pools. -/
def registered (shadow : StateShadow) : List PoolIdx :=
  (List.finRange shadow.poolCount).map
    (Fin.castLE shadow.poolCountInRange)

/-- The swaps that the registered pools offer. -/
def throughPools
    (floats : FloatRates)
    (shadow : StateShadow) : List SwapRoute :=
  (registered shadow).flatMap (throughPool floats shadow)

/-- The edge of a swap between the nodes of its tokens. -/
def edge (tokens : List Nat) (route : SwapRoute) : PriceEdge where
  src := tokens.idxOf route.tokenIn
  dst := tokens.idxOf route.tokenOut
  poolIdx := route.poolIdx
  weight := route.weight
  xToY := route.xToY

end SwapRoute

namespace PriceGraph

open SwapRoute

/--
The graph has the given tokens as its nodes, in this order, and the given swaps
as its edges.
-/
structure Draws
    (graph : PriceGraph)
    (tokens : List Nat)
    (routes : List SwapRoute) : Prop where
  distinct : tokens.Nodup
  used :
    ∀ token,
      token ∈ tokens ↔
        ∃ route ∈ routes, token = route.tokenIn ∨ token = route.tokenOut
  numTokens : graph.numTokens = tokens.length
  tokenToNode : graph.tokenToNode = tokens.zipIdx
  edges : graph.edges = routes.map (SwapRoute.edge tokens)

/-- The nodes of the graph are the given tokens, in this order. -/
structure Numbers (graph : PriceGraph) (tokens : List Nat) : Prop where
  numTokens : graph.numTokens = tokens.length
  tokenToNode : graph.tokenToNode = tokens.zipIdx

variable {graph : PriceGraph} {tokens : List Nat} {tokenId : Nat}

/-- The scan of the nodes finds the position of a token. -/
theorem find?_zipIdx (tokens : List Nat) (tokenId start : Nat) :
    ((tokens.zipIdx start).find?
        (fun entry => entry.1 = tokenId)).map Prod.snd =
      if tokenId ∈ tokens then
        some (start + tokens.idxOf tokenId)
      else
        none := by
  induction tokens generalizing start with
  | nil =>
      rfl
  | cons token tokens inductionHypothesis =>
      rw [List.zipIdx_cons]
      by_cases isFirst : token = tokenId
      · simp [isFirst]
      · have isNot : tokenId ≠ token := fun same => isFirst same.symm
        rw [List.find?_cons_of_neg (by simpa using isFirst),
          inductionHypothesis, List.idxOf_cons_ne _ isFirst]
        simp only [List.mem_cons, isNot, false_or]
        split
        · rw [Nat.succ_eq_add_one, Nat.add_right_comm, Nat.add_assoc]
        · rfl

theorem Numbers.findNode_eq
    (numbers : graph.Numbers tokens)
    (tokenId : Nat) :
    graph.findNode tokenId =
      if tokenId ∈ tokens then some (tokens.idxOf tokenId) else none := by
  rw [findNode, numbers.tokenToNode, find?_zipIdx, Nat.zero_add]

/-- A new token is numbered last, unless the positions run out. -/
theorem Numbers.pushNode
    (numbers : graph.Numbers tokens)
    (room : tokens.length < 2 ^ 16)
    (tokenId : Nat) :
    (graph.pushNode tokenId).Numbers (tokens ++ [tokenId]) where
  numTokens := by
    have count := numbers.numTokens
    simp [PriceGraph.pushNode, count]
  tokenToNode := by
    have next : graph.numTokens % 2 ^ 16 = tokens.length := by
      rw [numbers.numTokens, Nat.mod_eq_of_lt room]
    have known := numbers.tokenToNode
    simp only [PriceGraph.pushNode, next, known, List.zipIdx_append,
      Nat.zero_add]
    rfl

/-- A token gets its position as its node, unless the positions run out. -/
theorem Numbers.getOrCreateNode
    (numbers : graph.Numbers tokens)
    (room : tokens.length < 2 ^ 16)
    (tokenId : Nat) :
    (graph.getOrCreateNode tokenId).1 = tokens.idxOf tokenId ∧
      (graph.getOrCreateNode tokenId).2.Numbers
        (NameTable.enter tokens tokenId) ∧
      (graph.getOrCreateNode tokenId).2.edges = graph.edges := by
  unfold PriceGraph.getOrCreateNode
  rw [numbers.findNode_eq tokenId]
  unfold NameTable.enter
  by_cases known : tokenId ∈ tokens
  · rw [if_pos known, if_pos known]
    exact ⟨rfl, numbers, rfl⟩
  · rw [if_neg known, if_neg known]
    refine ⟨?_, numbers.pushNode room tokenId, rfl⟩
    rw [numbers.numTokens, Nat.mod_eq_of_lt room, List.idxOf_eq_length known]

/-- The graph with the edge of one more swap. -/
def addRoute (graph : PriceGraph) (route : SwapRoute) : PriceGraph :=
  let source := graph.getOrCreateNode route.tokenIn
  let target := source.2.getOrCreateNode route.tokenOut
  target.2.pushEdge
    ⟨source.1, target.1, route.poolIdx, route.weight, route.xToY⟩
    ⟨(graph.getOrCreateNode_lt route.tokenIn).trans_le
        (source.2.numTokens_le_getOrCreateNode route.tokenOut),
      source.2.getOrCreateNode_lt route.tokenOut⟩

/-- The graph of no swaps. -/
theorem draws_new : new.Draws [] [] where
  distinct := List.nodup_nil
  used := by simp
  numTokens := rfl
  tokenToNode := rfl
  edges := rfl

/-- A swap keeps its edge when another token is added. -/
theorem edge_enter
    {route : SwapRoute}
    (inTable : route.tokenIn ∈ tokens)
    (outTable : route.tokenOut ∈ tokens)
    (tokenId : Nat) :
    route.edge (NameTable.enter tokens tokenId) = route.edge tokens := by
  unfold SwapRoute.edge
  rw [NameTable.idxOf_enter_of_mem inTable,
    NameTable.idxOf_enter_of_mem outTable]

/-- One more swap is drawn with at most two more nodes. -/
theorem Draws.addRoute
    {routes : List SwapRoute}
    (draws : graph.Draws tokens routes)
    (room : tokens.length + 1 < 2 ^ 16)
    (route : SwapRoute) :
    ∃ more,
      more.length ≤ tokens.length + 2 ∧
        (graph.addRoute route).Draws more (routes ++ [route]) := by
  have numbers : graph.Numbers tokens := ⟨draws.numTokens, draws.tokenToNode⟩
  obtain ⟨sourceEq, sourceNumbers, sourceEdges⟩ :=
    numbers.getOrCreateNode (by omega) route.tokenIn
  have sourceLength :
      (NameTable.enter tokens route.tokenIn).length ≤ tokens.length + 1 :=
    NameTable.length_enter_le
  obtain ⟨targetEq, targetNumbers, targetEdges⟩ :=
    sourceNumbers.getOrCreateNode (by omega) route.tokenOut
  have targetLength :
      (NameTable.enter (NameTable.enter tokens route.tokenIn)
          route.tokenOut).length ≤
        (NameTable.enter tokens route.tokenIn).length + 1 :=
    NameTable.length_enter_le
  refine ⟨_, by omega,
    { distinct :=
        NameTable.nodup_enter (NameTable.nodup_enter draws.distinct)
      used := ?_
      numTokens := targetNumbers.numTokens
      tokenToNode := targetNumbers.tokenToNode
      edges := ?_ }⟩
  · intro token
    simp only [NameTable.mem_enter, draws.used, List.mem_append,
      List.mem_singleton, or_and_right, exists_or, exists_eq_left, or_assoc]
  · have before :
        routes.map (SwapRoute.edge (NameTable.enter
            (NameTable.enter tokens route.tokenIn) route.tokenOut)) =
          graph.edges := by
      rw [draws.edges]
      refine List.map_congr_left fun earlier member => ?_
      have inTable : earlier.tokenIn ∈ tokens :=
        (draws.used _).mpr ⟨earlier, member, .inl rfl⟩
      have outTable : earlier.tokenOut ∈ tokens :=
        (draws.used _).mpr ⟨earlier, member, .inr rfl⟩
      rw [edge_enter (NameTable.mem_enter.mpr (.inl inTable))
          (NameTable.mem_enter.mpr (.inl outTable)),
        edge_enter inTable outTable]
    have last :
        route.edge (NameTable.enter
            (NameTable.enter tokens route.tokenIn) route.tokenOut) =
          ⟨tokens.idxOf route.tokenIn,
            (NameTable.enter tokens route.tokenIn).idxOf route.tokenOut,
            route.poolIdx, route.weight, route.xToY⟩ := by
      unfold SwapRoute.edge
      rw [NameTable.idxOf_enter_self,
        NameTable.idxOf_enter_of_mem (NameTable.mem_enter.mpr (.inr rfl)),
        NameTable.idxOf_enter_self]
    rw [List.map_append, before, List.map_singleton, last, ← targetEq,
      ← sourceEq, ← sourceEdges, ← targetEdges]
    rfl

/-- All of some swaps are drawn while there are nodes for their tokens. -/
theorem Draws.addRoutes
    {routes : List SwapRoute}
    (draws : graph.Draws tokens routes)
    (later : List SwapRoute)
    (room : tokens.length + 2 * later.length < 2 ^ 16) :
    ∃ all,
      all.length ≤ tokens.length + 2 * later.length ∧
        (later.foldl PriceGraph.addRoute graph).Draws all
          (routes ++ later) := by
  induction later generalizing graph tokens routes with
  | nil =>
      exact ⟨tokens, Nat.le_refl _, by simpa using draws⟩
  | cons route later inductionHypothesis =>
      rw [List.length_cons] at room ⊢
      obtain ⟨more, moreLength, moreDraws⟩ :=
        draws.addRoute (by omega) route
      obtain ⟨all, allLength, allDraws⟩ :=
        inductionHypothesis moreDraws (by omega)
      refine ⟨all, by omega, ?_⟩
      rwa [List.append_assoc] at allDraws

/-- An edge is added for a swap with a positive rate. -/
theorem addEdge_eq
    (floats : FloatRates)
    (graph : PriceGraph)
    (srcToken dstToken poolIdx : Nat)
    (rate : floats.Rate)
    (xToY : Bool) :
    addEdge floats graph srcToken dstToken poolIdx rate xToY =
      if floats.isNotPositive rate then
        graph
      else
        graph.addRoute
          ⟨srcToken, dstToken, poolIdx, floats.weight rate, xToY⟩ :=
  rfl

/-- A pool adds the swaps that it offers. -/
theorem addPool_eq
    (floats : FloatRates)
    (shadow : StateShadow)
    (graph : PriceGraph)
    (pool : PoolIdx) :
    addPool floats shadow graph pool.val =
      .ok ((throughPool floats shadow pool).foldl PriceGraph.addRoute graph) := by
  have small : pool.val % 2 ^ 16 = pool.val :=
    Nat.mod_eq_of_lt (pool.isLt.trans (by decide))
  unfold addPool throughPool directions StateShadow.Trades
  rw [poolIndex_val, Checked.ok_bind, small]
  by_cases inactive : shadow.active pool = 0
  · simp [inactive]
  by_cases empty :
      shadow.specReserveX pool = 0 ∨ shadow.specReserveY pool = 0
  · have noTrade :
        ¬ (shadow.specReserveX pool ≠ 0 ∧ shadow.specReserveY pool ≠ 0) := by
      tauto
    simp only [inactive, empty, noTrade, ↓reduceIte, and_false]
    rfl
  · have trade :
        shadow.specReserveX pool ≠ 0 ∧ shadow.specReserveY pool ≠ 0 :=
      not_or.mp empty
    simp only [inactive, trade, ↓reduceIte, ne_eq, not_false_eq_true,
      and_self, addEdge_eq]
    refine congrArg Except.ok ?_
    cases forward :
        floats.isNotPositive (shadow.swapRate floats pool true) <;>
      cases backward :
          floats.isNotPositive (shadow.swapRate floats pool false) <;>
        simp only [StateShadow.swapRate] at forward backward <;>
        simp [forward, backward, StateShadow.swapRate, ofPool,
          StateShadow.tokenIn, StateShadow.tokenOut]

/-- A pool offers at most two swaps. -/
theorem length_throughPool_le
    (floats : FloatRates)
    (shadow : StateShadow)
    (pool : PoolIdx) :
    (throughPool floats shadow pool).length ≤ 2 := by
  unfold throughPool directions
  rw [List.length_map]
  split
  · exact List.length_filter_le _ _
  · exact Nat.zero_le 2

/-- The registered pools offer at most `MAX_EDGES` swaps. -/
theorem length_throughPools_le
    (floats : FloatRates)
    (shadow : StateShadow) :
    (throughPools floats shadow).length ≤ 2 * shadow.poolCount := by
  rw [throughPools, List.length_flatMap]
  have each :=
    List.sum_le_card_nsmul
      ((registered shadow).map
        (fun pool => (throughPool floats shadow pool).length)) 2
      (by
        intro length member
        obtain ⟨pool, -, rfl⟩ := List.mem_map.mp member
        exact length_throughPool_le floats shadow pool)
  simpa [registered, Nat.mul_comm] using each

/-- A swap that is offered goes through a registered pool. -/
theorem mem_throughPools
    {floats : FloatRates}
    {shadow : StateShadow}
    {route : SwapRoute}
    (member : route ∈ throughPools floats shadow) :
    ∃ pool xToY,
      pool.val < shadow.poolCount ∧ shadow.Trades pool ∧
        route = ofPool floats shadow pool xToY := by
  simp only [throughPools, registered, List.mem_flatMap, List.mem_map,
    List.mem_finRange, true_and] at member
  obtain ⟨pool, ⟨position, rfl⟩, offered⟩ := member
  simp only [throughPool, directions, List.mem_map] at offered
  obtain ⟨xToY, isDirection, rfl⟩ := offered
  split at isDirection
  next trades =>
    exact ⟨_, xToY, position.isLt, trades, rfl⟩
  next =>
    exact absurd isDirection List.not_mem_nil

/-- The nodes of such a graph are at most two a pool. -/
theorem Draws.length_le
    {floats : FloatRates}
    {shadow : StateShadow}
    (draws : graph.Draws tokens (throughPools floats shadow)) :
    tokens.length ≤ 2 * shadow.poolCount := by
  have inPools :
      tokens ⊆
        (registered shadow).flatMap
          (fun pool => [shadow.tokenXId pool, shadow.tokenYId pool]) := by
    intro token member
    obtain ⟨route, offered, isToken⟩ := (draws.used token).mp member
    obtain ⟨pool, xToY, inRange, -, rfl⟩ := mem_throughPools offered
    refine List.mem_flatMap.mpr ⟨pool, ?_, ?_⟩
    · exact List.mem_map.mpr
        ⟨⟨pool.val, inRange⟩, List.mem_finRange _, rfl⟩
    · cases xToY with
      | true =>
          simpa [ofPool, StateShadow.tokenIn, StateShadow.tokenOut]
            using isToken
      | false =>
          simpa [ofPool, StateShadow.tokenIn, StateShadow.tokenOut]
            using isToken.symm
  have bound := (draws.distinct.subperm inPools).length_le
  simpa [registered, List.length_flatMap, Function.comp_def, Nat.mul_comm]
    using bound

/--
A rebuilt graph draws exactly the swaps that the registered pools offer on
their speculative reserves.
-/
theorem buildFromShadow_draws_pools
    (floats : FloatRates)
    (graph : PriceGraph)
    (shadow : StateShadow) :
    ∃ built tokens,
      graph.buildFromShadow floats shadow = .ok built ∧
        built.Draws tokens (throughPools floats shadow) ∧
        tokens.length ≤ 2 * shadow.poolCount := by
  have folded :
      graph.buildFromShadow floats shadow =
        .ok ((throughPools floats shadow).foldl PriceGraph.addRoute new) := by
    unfold buildFromShadow throughPools
    have indices :
        List.range shadow.poolCount = (registered shadow).map Fin.val := by
      simp [registered, List.map_map, Function.comp_def,
        List.map_coe_finRange_eq_range]
    rw [indices, List.foldlM_map, List.foldl_flatMap]
    exact Checked.foldlM_simulates id _
      (fun pool _ graph => addPool_eq floats shadow graph pool) graph.clear
  have few := length_throughPools_le floats shadow
  have inRange := shadow.poolCountInRange
  obtain ⟨tokens, -, draws⟩ :=
    draws_new.addRoutes (throughPools floats shadow)
      (by unfold maxPools at inRange; rw [List.length_nil]; omega)
  exact ⟨_, tokens, folded, draws, draws.length_le⟩

end PriceGraph

end YieldDaemon
