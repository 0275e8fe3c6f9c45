import YieldDaemon.CheckedArithmetic
import YieldDaemon.StateShadow

namespace YieldDaemon

open CheckedArithmetic

/-!
# Price graph

Tokens are nodes, pool directions are edges, and the weight of an edge is the
negated binary logarithm of its exchange rate in Q16.16.  A cycle of negative
weight is an arbitrage, which a Bellman-Ford search from every token looks for.

Weights are i32 values and node indices u16 values.  Rates are floats; what
the graph takes from them is a parameter.  The profit multiplier of a cycle,
which is a float computed from its total weight alone, is left out.
-/

/-- Maximum number of unique tokens in the graph. -/
def maxTokens : Nat := 512

def i32Max : Int := 2147483647

def i32Min : Int := -2147483648

/-- `i32::saturating_add` -/
def saturatingAdd (left right : Int) : Int :=
  max i32Min (min i32Max (left + right))

/-- `i32::MAX / 2`, the distance of a node that has not been reached. -/
def unreached : Int := i32Max / 2

/-- `u16::MAX`, the predecessor of a node that has none. -/
def noNode : Nat := 65535

/-- The float computations behind the edges of the graph. -/
structure FloatRates where
  Rate : Type
  /-- `(out / in) * (1 - fee_num / fee_den)` -/
  rate : (reserveIn reserveOut feeNum feeDen : Nat) → Rate
  /-- `rate <= 0.0` -/
  isNotPositive : Rate → Bool
  /-- `(-rate.log2() * Q16_SCALE) as i32` -/
  weight : Rate → Int

/-- An edge of the price graph: swap from `src` to `dst` through a pool. -/
structure PriceEdge where
  src : Nat
  dst : Nat
  poolIdx : Nat
  weight : Int
  xToY : Bool
  deriving Repr, DecidableEq, Inhabited

/-- Detected arbitrage cycle. -/
structure ArbCycle where
  path : List Nat
  poolIndices : List Nat
  directions : List Bool
  totalWeight : Int
  deriving Repr, DecidableEq

/-- Bellman-Ford based arbitrage graph. -/
structure PriceGraph where
  edges : List PriceEdge
  numTokens : Nat
  tokenToNode : List (Nat × Nat)
  edgesInRange :
    ∀ edge ∈ edges, edge.src < numTokens ∧ edge.dst < numTokens
  nodesInRange : ∀ entry ∈ tokenToNode, entry.2 < numTokens

namespace PriceGraph

def new : PriceGraph where
  edges := []
  numTokens := 0
  tokenToNode := []
  edgesInRange := by simp
  nodesInRange := by simp

/-- The node of a token, if it has one. -/
def findNode (graph : PriceGraph) (tokenId : Nat) : Option Nat :=
  (graph.tokenToNode.find? (fun entry => entry.1 = tokenId)).map Prod.snd

/-- The graph with one more node, for a token that has none. -/
def pushNode (graph : PriceGraph) (tokenId : Nat) : PriceGraph where
  edges := graph.edges
  numTokens := graph.numTokens + 1
  tokenToNode :=
    graph.tokenToNode ++ [(tokenId, graph.numTokens % 2 ^ 16)]
  edgesInRange edge member := by
    have inRange := graph.edgesInRange edge member
    omega
  nodesInRange entry member := by
    rcases List.mem_append.mp member with earlier | last
    · have inRange := graph.nodesInRange entry earlier
      omega
    · obtain rfl := List.mem_singleton.mp last
      exact Nat.lt_succ_of_le (Nat.mod_le _ _)

/-- Get or create a node index for a token. -/
def getOrCreateNode (graph : PriceGraph) (tokenId : Nat) :
    Nat × PriceGraph :=
  match graph.findNode tokenId with
  | some idx => (idx, graph)
  | none => (graph.numTokens % 2 ^ 16, graph.pushNode tokenId)

theorem getOrCreateNode_lt (graph : PriceGraph) (tokenId : Nat) :
    (graph.getOrCreateNode tokenId).1 <
      (graph.getOrCreateNode tokenId).2.numTokens := by
  unfold getOrCreateNode
  cases found : graph.findNode tokenId with
  | none =>
      exact Nat.lt_succ_of_le (Nat.mod_le _ _)
  | some idx =>
      obtain ⟨entry, entryFound, rfl⟩ := Option.map_eq_some_iff.mp found
      exact graph.nodesInRange entry (List.mem_of_find?_eq_some entryFound)

theorem numTokens_le_getOrCreateNode (graph : PriceGraph) (tokenId : Nat) :
    graph.numTokens ≤ (graph.getOrCreateNode tokenId).2.numTokens := by
  unfold getOrCreateNode
  cases graph.findNode tokenId with
  | none =>
      exact Nat.le_succ graph.numTokens
  | some idx =>
      exact Nat.le_refl graph.numTokens

/-- The graph with one more edge between nodes that it has. -/
def pushEdge
    (graph : PriceGraph)
    (edge : PriceEdge)
    (inRange : edge.src < graph.numTokens ∧ edge.dst < graph.numTokens) :
    PriceGraph where
  edges := graph.edges ++ [edge]
  numTokens := graph.numTokens
  tokenToNode := graph.tokenToNode
  edgesInRange other member := by
    rcases List.mem_append.mp member with earlier | last
    · exact graph.edgesInRange other earlier
    · obtain rfl := List.mem_singleton.mp last
      exact inRange
  nodesInRange := graph.nodesInRange

/-- Add a directed edge (swap route) to the graph. -/
def addEdge
    (floats : FloatRates)
    (graph : PriceGraph)
    (srcToken dstToken poolIdx : Nat)
    (rate : floats.Rate)
    (xToY : Bool) : PriceGraph :=
  if floats.isNotPositive rate then
    graph
  else
    let source := graph.getOrCreateNode srcToken
    let target := source.2.getOrCreateNode dstToken
    target.2.pushEdge ⟨source.1, target.1, poolIdx, floats.weight rate, xToY⟩
      ⟨(graph.getOrCreateNode_lt srcToken).trans_le
          (source.2.numTokens_le_getOrCreateNode dstToken),
        source.2.getOrCreateNode_lt dstToken⟩

/-- Clear all edges (called before rebuilding from fresh state). -/
def clear (_graph : PriceGraph) : PriceGraph :=
  new

/-- The two directed edges of a pool, unless it is inactive or empty. -/
def addPool
    (floats : FloatRates)
    (shadow : StateShadow)
    (graph : PriceGraph)
    (idx : Nat) : Checked PriceGraph := do
  let pool ← poolIndex idx
  if shadow.active pool = 0 then
    return graph
  let rx := shadow.specReserveX pool
  let ry := shadow.specReserveY pool
  if rx = 0 ∨ ry = 0 then
    return graph
  let rateXY :=
    floats.rate rx ry (shadow.feeNum pool) (shadow.feeDen pool)
  let rateYX :=
    floats.rate ry rx (shadow.feeNum pool) (shadow.feeDen pool)
  let forward := addEdge floats graph (shadow.tokenXId pool)
    (shadow.tokenYId pool) (idx % 2 ^ 16) rateXY true
  return addEdge floats forward (shadow.tokenYId pool)
    (shadow.tokenXId pool) (idx % 2 ^ 16) rateYX false

/-- Build the graph from a state shadow. -/
def buildFromShadow
    (floats : FloatRates)
    (graph : PriceGraph)
    (shadow : StateShadow) : Checked PriceGraph :=
  (List.range shadow.poolCount).foldlM (addPool floats shadow) graph.clear

/-- The predecessor of a node with the pool and direction of the edge. -/
structure Predecessor where
  node : Nat
  poolIdx : Nat
  direction : Bool

/-- The arrays of one Bellman-Ford run. -/
structure Search where
  dist : List Int
  pred : List Predecessor

/-- The distance that an edge offers to its target, if it is a smaller one. -/
def relaxation (search : Search) (edge : PriceEdge) :
    Checked (Option Int) := do
  let distance ← index search.dist edge.src
  if distance < unreached then
    let newDist := saturatingAdd distance edge.weight
    let current ← index search.dist edge.dst
    if newDist < current then
      return some newDist
    else
      return none
  else
    return none

/-- Relax one edge and note whether that changed a distance. -/
def relaxEdge (pass : Search × Bool) (edge : PriceEdge) :
    Checked (Search × Bool) := do
  match ← relaxation pass.1 edge with
  | some newDist =>
    let dist ← store pass.1.dist edge.dst newDist
    let pred ← store pass.1.pred edge.dst
      ⟨edge.src, edge.poolIdx, edge.xToY⟩
    return (⟨dist, pred⟩, true)
  | none => return pass

/-- Relax all edges the given number of times, or until nothing changes. -/
def relaxRounds (graph : PriceGraph) : Nat → Search → Checked Search
  | 0, search => .ok search
  | rounds + 1, search => do
    let (relaxed, updated) ← graph.edges.foldlM relaxEdge (search, false)
    if updated then
      graph.relaxRounds rounds relaxed
    else
      return relaxed

/-- The Bellman-Ford run from one source, up to its detection pass. -/
def searchFrom (graph : PriceGraph) (maxHops source : Nat) :
    Checked Search := do
  let dist ← store (List.replicate graph.numTokens unreached) source 0
  let pred := List.replicate graph.numTokens ⟨noNode, noNode, false⟩
  graph.relaxRounds (min (graph.numTokens - 1) maxHops) ⟨dist, pred⟩

/-- Walk back along predecessors, or stop at a node that has none. -/
def walkBack (pred : List Predecessor) :
    Nat → Nat → Checked (Option Nat)
  | 0, node => .ok (some node)
  | steps + 1, node => do
    let previous ← index pred node
    if previous.node = noNode then
      return none
    else
      walkBack pred steps previous.node

/--
Collect the nodes of the cycle through `cycleStart`; the first argument is
`max_hops + 1 - raw_path.len()`.
-/
def collectCycle (pred : List Predecessor) (cycleStart : Nat) :
    Nat → Nat → List Nat → Checked (Option (List Nat))
  | 0, _, _ => .ok none
  | room + 1, node, rawPath => do
    let previous ← index pred node
    let extended := rawPath ++ [node % 2 ^ 16]
    if previous.node = cycleStart then
      return some extended
    else
      collectCycle pred cycleStart room previous.node extended

/-- Keep an edge from `src` to `dst` if it is the first or a lighter one. -/
def keepBest
    (src dst : Nat)
    (best : Option PriceEdge)
    (edge : PriceEdge) : Option PriceEdge :=
  if edge.src = src ∧ edge.dst = dst then
    match best with
    | none => some edge
    | some chosen => if edge.weight < chosen.weight then some edge else best
  else
    best

/-- The best (lowest weight) edge from `src` to `dst`. -/
def bestEdge (graph : PriceGraph) (src dst : Nat) : Option PriceEdge :=
  graph.edges.foldl (keepBest src dst) none

/-- What the edge lookup has collected so far. -/
structure HopTrace where
  poolIndices : List Nat
  directions : List Bool
  totalWeight : Int

/-- Look up the edge (pool and direction) for each consecutive pair. -/
def traceHops (graph : PriceGraph) (rawPath : List Nat) :
    List Nat → HopTrace → Checked (Option HopTrace)
  | [], trace => .ok (some trace)
  | i :: later, trace => do
    let src ← index rawPath i
    let next ← rem (i + 1) rawPath.length
    let dst ← index rawPath next
    match graph.bestEdge src dst with
    | some edge =>
      graph.traceHops rawPath later {
        poolIndices := trace.poolIndices ++ [edge.poolIdx]
        directions := trace.directions ++ [edge.xToY]
        totalWeight := saturatingAdd trace.totalWeight edge.weight }
    | none => return none

/-- Reconstruct the negative cycle by walking the predecessor chain. -/
def reconstructCycle
    (graph : PriceGraph)
    (start : Nat)
    (pred : List Predecessor)
    (maxHops : Nat) : Checked (Option ArbCycle) := do
  match ← walkBack pred graph.numTokens start with
  | none => return none
  | some cycleStart =>
    match ← collectCycle pred cycleStart (maxHops + 1) cycleStart [] with
    | none => return none
    | some rawPath =>
      if rawPath.length < 2 then
        return none
      let path := rawPath.reverse
      match ← graph.traceHops path (List.range path.length) ⟨[], [], 0⟩ with
      | none => return none
      | some trace =>
        return some {
          path := path
          poolIndices := trace.poolIndices
          directions := trace.directions
          totalWeight := trace.totalWeight }

/-- Whether a cycle of the same length and pools was found already. -/
def dominated (cycles : List ArbCycle) (cycle : ArbCycle) : Bool :=
  cycles.any fun other =>
    other.path.length = cycle.path.length ∧
      other.poolIndices = cycle.poolIndices

/-- The detection pass at one edge: reconstruct a cycle if it can be relaxed. -/
def detect
    (graph : PriceGraph)
    (maxHops : Nat)
    (search : Search)
    (cycles : List ArbCycle)
    (edge : PriceEdge) : Checked (List ArbCycle) := do
  match ← relaxation search edge with
  | none => return cycles
  | some _ =>
    match ← graph.reconstructCycle edge.dst search.pred maxHops with
    | none => return cycles
    | some cycle =>
      if dominated cycles cycle then
        return cycles
      else
        return cycles ++ [cycle]

/-- The cycles found with one more token as the source. -/
def findFrom
    (graph : PriceGraph)
    (maxHops : Nat)
    (cycles : List ArbCycle)
    (source : Nat) : Checked (List ArbCycle) := do
  let search ← graph.searchFrom maxHops source
  graph.edges.foldlM (graph.detect maxHops search) cycles

/-- Run Bellman-Ford to detect negative cycles, the most profitable first. -/
def findArbitrageCycles (graph : PriceGraph) (maxHops : Nat) :
    Checked (List ArbCycle) := do
  if graph.numTokens = 0 ∨ graph.edges = [] then
    return []
  let cycles ←
    (List.range (min graph.numTokens maxTokens)).foldlM
      (graph.findFrom maxHops) []
  return cycles.mergeSort
    (fun first second => first.totalWeight ≤ second.totalWeight)

def edgeCount (graph : PriceGraph) : Nat :=
  graph.edges.length

def tokenCount (graph : PriceGraph) : Nat :=
  graph.numTokens

end PriceGraph

end YieldDaemon
