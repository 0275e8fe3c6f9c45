import Mathlib.Data.List.GetD
import Mathlib.Data.List.Rotate
import YieldDaemon.BellmanFord

namespace YieldDaemon

open CheckedArithmetic PredecessorGraph Function

/-!
# Reported arbitrage cycles

A walk of as many steps as there are tokens ends on a cycle of predecessors,
the cycle is collected in one round, and the lightest edges between its nodes
have negative weight.  So every cycle that the search reports is an arbitrage.
-/

namespace PriceGraph

/-- A simple directed cycle of edges of the graph. -/
structure SimpleCycle (graph : PriceGraph) (hops : List PriceEdge) : Prop where
  edges : ∀ hop ∈ hops, hop ∈ graph.edges
  distinct : (hops.map PriceEdge.src).Nodup
  linked : hops.map PriceEdge.dst = (hops.map PriceEdge.src).rotate 1

/-- Some edges lead from one node to another. -/
def Leads (graph : PriceGraph) : Nat → Nat → Prop :=
  Relation.ReflTransGen
    (fun src dst => ∃ edge ∈ graph.edges, edge.src = src ∧ edge.dst = dst)

/-- The total weight of some hops. -/
def weightOf (hops : List PriceEdge) : Int :=
  (hops.map PriceEdge.weight).sum

/-- A report of the simple cycle of the given hops, which pays. -/
structure Reports
    (graph : PriceGraph)
    (cycle : ArbCycle)
    (hops : List PriceEdge) : Prop where
  simple : graph.SimpleCycle hops
  twoHops : 2 ≤ hops.length
  path : cycle.path = hops.map PriceEdge.src
  poolIndices : cycle.poolIndices = hops.map PriceEdge.poolIdx
  directions : cycle.directions = hops.map PriceEdge.xToY
  lightest :
    ∀ hop ∈ hops, ∀ edge ∈ graph.edges,
      edge.src = hop.src → edge.dst = hop.dst → hop.weight ≤ edge.weight
  totalWeight : cycle.totalWeight = weightOf hops
  negative : cycle.totalWeight < 0

/-- The cycle is an arbitrage of the graph. -/
def IsArbitrage (graph : PriceGraph) (cycle : ArbCycle) : Prop :=
  ∃ hops, graph.Reports cycle hops

variable {graph : PriceGraph} {search : Search}

/-- The sources of the edges are `u16` values. -/
def NodesFit (graph : PriceGraph) : Prop :=
  ∀ edge ∈ graph.edges, edge.src < 2 ^ 16

instance (graph : PriceGraph) : Decidable graph.NodesFit :=
  inferInstanceAs (Decidable (∀ edge ∈ graph.edges, edge.src < 2 ^ 16))

theorem Bounded.nodesFit (bounded : graph.Bounded) : graph.NodesFit := by
  intro edge member
  have few := bounded.fewTokens
  have inRange := (graph.edgesInRange edge member).1
  omega

/-- The nodes of a cycle are the targets of its edges. -/
theorem SimpleCycle.src_mem_dst
    {hops : List PriceEdge}
    (simple : graph.SimpleCycle hops)
    {hop : PriceEdge}
    (member : hop ∈ hops) :
    ∃ other ∈ hops, other.dst = hop.src := by
  have inRotated : hop.src ∈ hops.map PriceEdge.dst := by
    rw [simple.linked, List.mem_rotate]
    exact List.mem_map_of_mem member
  exact List.mem_map.mp inRotated

theorem SimpleCycle.dst_mem_src
    {hops : List PriceEdge}
    (simple : graph.SimpleCycle hops)
    {hop : PriceEdge}
    (member : hop ∈ hops) :
    ∃ other ∈ hops, other.src = hop.dst := by
  have inRotated : hop.dst ∈ (hops.map PriceEdge.src).rotate 1 := by
    rw [← simple.linked]
    exact List.mem_map_of_mem member
  exact List.mem_map.mp (List.mem_rotate.mp inRotated)

/-- A simple cycle has no more hops than the graph has tokens. -/
theorem SimpleCycle.length_le
    {hops : List PriceEdge}
    (simple : graph.SimpleCycle hops) :
    hops.length ≤ graph.numTokens := by
  have inside :
      hops.map PriceEdge.src ⊆ List.range graph.numTokens := by
    intro node member
    obtain ⟨hop, hopMember, rfl⟩ := List.mem_map.mp member
    exact List.mem_range.mpr
      (graph.edgesInRange hop (simple.edges hop hopMember)).1
  simpa using (simple.distinct.subperm inside).length_le

/-- The node that precedes a node in a search. -/
def Search.previous (search : Search) : Nat → Nat :=
  next search.labels.pred

/-- An access to the predecessor array reads the label of the node. -/
theorem index_pred
    (fits : search.Fits graph.numTokens)
    {node : Nat}
    (inRange : node < graph.numTokens) :
    ∃ previous,
      index search.pred node = .ok previous ∧
        search.labels.pred node =
          if previous.node = noNode then none else some previous.node := by
  have inPred : node < search.pred.length := fits.pred ▸ inRange
  refine ⟨search.pred[node], index_of_lt inPred, ?_⟩
  simp [Search.labels, inPred]

theorem pred_lt
    (isLinked : search.Linked graph)
    {node previous : Nat}
    (linked : search.labels.pred node = some previous) :
    previous < graph.numTokens := by
  obtain ⟨edge, member, rfl, -⟩ := isLinked.linked linked
  exact (graph.edgesInRange edge member).1

theorem previous_lt
    (isLinked : search.Linked graph)
    {node : Nat}
    (inRange : node < graph.numTokens) :
    search.previous node < graph.numTokens := by
  unfold Search.previous next
  cases linked : search.labels.pred node with
  | none =>
      exact inRange
  | some previous =>
      exact pred_lt isLinked linked

theorem previous_leads
    (isLinked : search.Linked graph)
    (node : Nat) :
    graph.Leads (search.previous node) node := by
  unfold Search.previous next
  cases linked : search.labels.pred node with
  | none =>
      exact Relation.ReflTransGen.refl
  | some previous =>
      exact Relation.ReflTransGen.single (isLinked.linked linked)

/-- Every node of a walk back from a node leads to it. -/
theorem iterate_previous_leads
    (isLinked : search.Linked graph)
    (node steps : Nat) :
    graph.Leads (search.previous^[steps] node) node := by
  induction steps with
  | zero =>
      exact Relation.ReflTransGen.refl
  | succ steps inductionHypothesis =>
      rw [iterate_succ_apply']
      exact (previous_leads isLinked _).trans inductionHypothesis

theorem iterate_previous_lt
    (isLinked : search.Linked graph)
    {node : Nat}
    (inRange : node < graph.numTokens)
    (steps : Nat) :
    search.previous^[steps] node < graph.numTokens := by
  induction steps generalizing node with
  | zero =>
      exact inRange
  | succ steps inductionHypothesis =>
      rw [iterate_succ_apply]
      exact inductionHypothesis (previous_lt isLinked inRange)

/-- A walk back stops at a node without predecessor, or takes all its steps. -/
theorem walkBack_spec
    (isLinked : search.Linked graph)
    (steps : Nat)
    {node : Nat}
    (inRange : node < graph.numTokens) :
    ((∃ i < steps,
        search.labels.pred (search.previous^[i] node) = none) ∧
      walkBack search.pred steps node = .ok none) ∨
    ((∀ i < steps,
        search.labels.pred (search.previous^[i] node) ≠ none) ∧
      walkBack search.pred steps node =
        .ok (some (search.previous^[steps] node))) := by
  induction steps generalizing node with
  | zero =>
      exact .inr ⟨by simp, rfl⟩
  | succ steps inductionHypothesis =>
      obtain ⟨previous, found, label⟩ := index_pred isLinked.fits inRange
      rw [walkBack, found, Checked.ok_bind]
      by_cases isNone : previous.node = noNode
      · left
        rw [if_pos isNone] at label ⊢
        exact ⟨⟨0, Nat.succ_pos steps, label⟩, rfl⟩
      · rw [if_neg isNone] at label ⊢
        have step : search.previous node = previous.node := by
          simp [Search.previous, next, label]
        rcases inductionHypothesis (pred_lt isLinked label) with
          ⟨⟨i, inSteps, stops⟩, walked⟩ | ⟨linked, walked⟩
        · left
          refine ⟨⟨i + 1, Nat.succ_lt_succ inSteps, ?_⟩, walked⟩
          rw [iterate_succ_apply, step]
          exact stops
        · right
          rw [iterate_succ_apply, step]
          refine ⟨?_, walked⟩
          intro i inSteps
          rcases i with _ | i
          · simp [label]
          · rw [iterate_succ_apply, step]
            exact linked i (Nat.lt_of_succ_lt_succ inSteps)

/-- A node on a cycle of predecessors. -/
structure OnCycle (graph : PriceGraph) (search : Search) (node : Nat) :
    Prop where
  inRange : node < graph.numTokens
  periodic : node ∈ periodicPts search.previous
  linked : ∀ m, search.labels.pred (search.previous^[m] node) ≠ none

/-- A walk that takes all its steps ends on a cycle. -/
theorem onCycle_of_walk
    (isLinked : search.Linked graph)
    {node : Nat}
    (inRange : node < graph.numTokens)
    (walk :
      ∀ i < graph.numTokens,
        search.labels.pred (search.previous^[i] node) ≠ none) :
    graph.OnCycle search (search.previous^[graph.numTokens] node) := by
  have inside (i : Nat) :
      (next search.labels.pred)^[i] node ∈
        Finset.range graph.numTokens :=
    Finset.mem_range.mpr (iterate_previous_lt isLinked inRange i)
  obtain ⟨periodic, passed⟩ := exists_orbit inside
  rw [Finset.card_range] at periodic passed
  refine ⟨iterate_previous_lt isLinked inRange _, periodic, ?_⟩
  intro m
  obtain ⟨i, inWalk, same⟩ := passed m
  have linked := walk i inWalk
  unfold Search.previous at linked ⊢
  rwa [same]

/-- The number of nodes on the cycle of a node. -/
noncomputable def cycleLength (search : Search) (node : Nat) : Nat :=
  minimalPeriod search.previous node

/-- The first nodes of a walk back. -/
def walkNodes (search : Search) (node length : Nat) : List Nat :=
  (List.range length).map (fun i => search.previous^[i] node)

namespace OnCycle

variable {node : Nat}

theorem length_pos (onCycle : graph.OnCycle search node) :
    0 < cycleLength search node :=
  minimalPeriod_pos_of_mem_periodicPts onCycle.periodic

/-- The next node of a walk on the cycle is the label of the one before. -/
theorem pred_iterate (onCycle : graph.OnCycle search node) (m : Nat) :
    search.labels.pred (search.previous^[m] node) =
      some (search.previous^[m + 1] node) := by
  rw [iterate_succ_apply']
  exact pred_eq_some_next (onCycle.linked m)

theorem iterate_length :
    search.previous^[cycleLength search node] node = node :=
  iterate_minimalPeriod

/-- The nodes of the cycle are distinct. -/
theorem walkNodes_nodup (search : Search) (node : Nat) :
    (walkNodes search node (cycleLength search node)).Nodup := by
  refine (List.nodup_map_iff_inj_on List.nodup_range).mpr ?_
  intro i iMember j jMember same
  exact iterate_injOn_Iio_minimalPeriod (List.mem_range.mp iMember)
    (List.mem_range.mp jMember) same

/-- A cycle has no more nodes than the graph. -/
theorem length_le
    (isLinked : search.Linked graph)
    (onCycle : graph.OnCycle search node) :
    cycleLength search node ≤ graph.numTokens := by
  have inside :
      walkNodes search node (cycleLength search node) ⊆
        List.range graph.numTokens := by
    intro other member
    obtain ⟨i, -, rfl⟩ := List.mem_map.mp member
    exact List.mem_range.mpr (iterate_previous_lt isLinked onCycle.inRange i)
  have bound :=
    ((walkNodes_nodup search node).subperm inside).length_le
  simpa [walkNodes] using bound

/-- The nodes of a cycle are sources of edges. -/
theorem iterate_fits
    (nodesFit : graph.NodesFit)
    (isLinked : search.Linked graph)
    (onCycle : graph.OnCycle search node)
    (m : Nat) :
    search.previous^[m] node < 2 ^ 16 := by
  have positive := onCycle.length_pos
  have around :
      search.previous^[m] node =
        search.previous^[m + cycleLength search node - 1 + 1] node := by
    rw [Nat.sub_add_cancel (by omega), iterate_add_apply, iterate_length]
  obtain ⟨edge, member, src, -⟩ :=
    isLinked.linked (onCycle.pred_iterate (m + cycleLength search node - 1))
  rw [around, ← src]
  exact nodesFit edge member

/-- The cycle is collected in one round, unless it has too many nodes. -/
theorem collectCycle_eq
    (nodesFit : graph.NodesFit)
    (isLinked : search.Linked graph)
    (onCycle : graph.OnCycle search node)
    (room : Nat)
    {collected : Nat}
    (inCycle : collected < cycleLength search node) :
    collectCycle search.pred node room
        (search.previous^[collected] node)
        (walkNodes search node collected) =
      .ok (if cycleLength search node ≤ collected + room then
          some (walkNodes search node (cycleLength search node))
        else
          none) := by
  induction room generalizing collected with
  | zero =>
      rw [if_neg (by omega)]
      rfl
  | succ room inductionHypothesis =>
      have here := iterate_previous_lt isLinked onCycle.inRange collected
      have small : search.previous^[collected] node % 2 ^ 16 =
          search.previous^[collected] node :=
        Nat.mod_eq_of_lt (onCycle.iterate_fits nodesFit isLinked collected)
      have extended :
          walkNodes search node collected ++
              [search.previous^[collected] node % 2 ^ 16] =
            walkNodes search node (collected + 1) := by
        rw [small, walkNodes, walkNodes, List.range_succ, List.map_append]
        rfl
      obtain ⟨previous, found, label⟩ := index_pred isLinked.fits here
      rw [onCycle.pred_iterate collected] at label
      have step :
          previous.node = search.previous^[collected + 1] node := by
        by_cases isNone : previous.node = noNode
        · rw [if_pos isNone] at label
          exact absurd label (by simp)
        · rw [if_neg isNone] at label
          exact (Option.some.inj label).symm
      rw [collectCycle, found, Checked.ok_bind, extended, step]
      by_cases isLast : collected + 1 = cycleLength search node
      · have back : search.previous^[collected + 1] node = node := by
          rw [isLast]
          exact iterate_length
        simp only [back, ↓reduceIte]
        rw [if_pos (by omega), isLast]
        rfl
      · have notBack : search.previous^[collected + 1] node ≠ node := by
          intro back
          have inCycle' : collected + 1 < cycleLength search node := by
            omega
          have zero : collected + 1 = 0 :=
            iterate_injOn_Iio_minimalPeriod (f := search.previous)
              (x := node) inCycle' onCycle.length_pos back
          omega
        rw [if_neg notBack, inductionHypothesis (by omega)]
        congr 2
        rw [Nat.add_right_comm, Nat.add_assoc]

end OnCycle

/-! Looking up the hops. -/

/-- The lightest edge of the hop that starts at a position of a path. -/
def hopAt (graph : PriceGraph) (path : List Nat) (i : Nat) : PriceEdge :=
  (graph.bestEdge (path.getD i 0)
    (path.getD ((i + 1) % path.length) 0)).getD default

/-- The lightest edges between the consecutive nodes of a path. -/
def cycleHops (graph : PriceGraph) (path : List Nat) : List PriceEdge :=
  (List.range path.length).map (graph.hopAt path)

/-- Consecutive nodes of a path are connected, cyclically. -/
def Connected (graph : PriceGraph) (path : List Nat) : Prop :=
  ∀ i < path.length, ∃ edge ∈ graph.edges,
    edge.src = path.getD i 0 ∧
      edge.dst = path.getD ((i + 1) % path.length) 0

variable {path : List Nat}

/-- A hop of a connected path is a lightest edge of the graph. -/
theorem hopAt_spec
    (connected : graph.Connected path)
    {i : Nat}
    (inRange : i < path.length) :
    graph.bestEdge (path.getD i 0)
        (path.getD ((i + 1) % path.length) 0) =
      some (graph.hopAt path i) := by
  obtain ⟨edge, member, src, dst⟩ := connected i inRange
  obtain ⟨best, found⟩ := exists_bestEdge member
  rw [src, dst] at found
  rw [hopAt, found]
  rfl

theorem hopAt_isBest
    (connected : graph.Connected path)
    {i : Nat}
    (inRange : i < path.length) :
    IsBest graph.edges (path.getD i 0)
      (path.getD ((i + 1) % path.length) 0)
      (some (graph.hopAt path i)) :=
  hopAt_spec connected inRange ▸ graph.bestEdge_isBest _ _

theorem cycleHops_src (connected : graph.Connected path) :
    (graph.cycleHops path).map PriceEdge.src = path := by
  refine List.ext_getElem (by simp [cycleHops]) ?_
  intro i inHops inPath
  have best := hopAt_isBest connected inPath
  simp only [cycleHops, List.map_map, List.getElem_map, comp_apply,
    List.getElem_range]
  rw [best.2.1.1, List.getD_eq_getElem _ _ inPath]

theorem cycleHops_dst (connected : graph.Connected path) :
    (graph.cycleHops path).map PriceEdge.dst = path.rotate 1 := by
  refine List.ext_getElem (by simp [cycleHops]) ?_
  intro i inHops inRotated
  have inPath : i < path.length := by
    simpa using inRotated
  have inRange : (i + 1) % path.length < path.length :=
    Nat.mod_lt _ (Nat.zero_lt_of_lt inPath)
  have best := hopAt_isBest connected inPath
  simp only [cycleHops, List.map_map, List.getElem_map, comp_apply,
    List.getElem_range]
  rw [best.2.1.2, List.getD_eq_getElem _ _ inRange, List.getElem_rotate]

theorem mem_cycleHops
    (connected : graph.Connected path)
    {hop : PriceEdge}
    (member : hop ∈ graph.cycleHops path) :
    hop ∈ graph.edges ∧
      ∀ edge ∈ graph.edges,
        edge.src = hop.src → edge.dst = hop.dst →
          hop.weight ≤ edge.weight := by
  obtain ⟨i, iMember, rfl⟩ := List.mem_map.mp member
  have best := hopAt_isBest connected (List.mem_range.mp iMember)
  obtain ⟨inEdges, ⟨src, dst⟩, lightest⟩ := best
  refine ⟨inEdges, ?_⟩
  intro edge edgeMember sameSrc sameDst
  exact lightest edge edgeMember
    ⟨sameSrc.trans src, sameDst.trans dst⟩

/-- No more edges than tokens have a small total weight. -/
theorem Bounded.weights_lt
    (bounded : graph.Bounded)
    {hops : List PriceEdge}
    (members : ∀ hop ∈ hops, hop ∈ graph.edges)
    (few : hops.length ≤ graph.numTokens) :
    (hops.map (fun hop => hop.weight.natAbs)).sum < 2 ^ 30 := by
  rcases Nat.eq_zero_or_pos graph.numTokens with noTokens | positive
  · have noHops : hops = [] :=
      List.length_eq_zero_iff.mp (by omega)
    simp [noHops]
  · have scaled :
        (hops.map (fun hop =>
          graph.numTokens * hop.weight.natAbs)).sum ≤
          hops.length * (2 ^ 30 - 1) := by
      have each :=
        List.sum_le_card_nsmul
          (hops.map (fun hop => graph.numTokens * hop.weight.natAbs))
          (2 ^ 30 - 1)
          (by
            intro weight member
            obtain ⟨hop, hopMember, rfl⟩ := List.mem_map.mp member
            exact Nat.le_sub_one_of_lt
              (bounded.lightEdges hop (members hop hopMember)))
      simpa using each
    rw [List.sum_map_mul_left] at scaled
    have enough :
        graph.numTokens * (hops.map (fun hop => hop.weight.natAbs)).sum ≤
          graph.numTokens * (2 ^ 30 - 1) :=
      scaled.trans (Nat.mul_le_mul_right _ few)
    have small := Nat.le_of_mul_le_mul_left enough positive
    omega

/-- The sum of some weights as the code computes it. -/
def saturatingSum (weights : List Int) (start : Int) : Int :=
  weights.foldl saturatingAdd start

/-- Small weights add up without saturating. -/
theorem saturatingSum_eq
    {weights : List Int}
    {start : Int}
    (small :
      start.natAbs + (weights.map Int.natAbs).sum < 2 ^ 30) :
    saturatingSum weights start = start + weights.sum := by
  induction weights generalizing start with
  | nil =>
      simp [saturatingSum]
  | cons weight weights inductionHypothesis =>
      rw [List.map_cons, List.sum_cons] at small
      have exactSum : saturatingAdd start weight = start + weight := by
        unfold saturatingAdd i32Min i32Max
        omega
      have smaller :
          (start + weight).natAbs + (weights.map Int.natAbs).sum <
            2 ^ 30 := by
        omega
      have later := inductionHypothesis smaller
      unfold saturatingSum at later ⊢
      rw [List.foldl_cons, exactSum, later, List.sum_cons, add_assoc]

/-- The lookup of a connected path collects its hops in order. -/
theorem traceHops_eq
    (connected : graph.Connected path)
    {positions : List Nat}
    (inRange : ∀ i ∈ positions, i < path.length)
    (trace : HopTrace) :
    graph.traceHops path positions trace =
      .ok (some {
        poolIndices := trace.poolIndices ++
          positions.map (fun i => (graph.hopAt path i).poolIdx)
        directions := trace.directions ++
          positions.map (fun i => (graph.hopAt path i).xToY)
        totalWeight := saturatingSum
          (positions.map (fun i => (graph.hopAt path i).weight))
          trace.totalWeight }) := by
  induction positions generalizing trace with
  | nil =>
      simp [traceHops, saturatingSum]
  | cons i positions inductionHypothesis =>
      have inPath := inRange i List.mem_cons_self
      have positive : path.length ≠ 0 := by
        omega
      have nextInPath : (i + 1) % path.length < path.length :=
        Nat.mod_lt _ (Nat.pos_of_ne_zero positive)
      have best := hopAt_spec connected inPath
      rw [List.getD_eq_getElem _ _ inPath,
        List.getD_eq_getElem _ _ nextInPath] at best
      rw [traceHops, index_of_lt inPath, Checked.ok_bind,
        rem_eq_ok.mpr ⟨positive, rfl⟩, Checked.ok_bind,
        index_of_lt nextInPath, Checked.ok_bind, best]
      simp only
      rw [inductionHypothesis
        (fun j member => inRange j (List.mem_cons_of_mem i member))]
      simp [saturatingSum]

/-- The lookup of a whole connected path. -/
theorem traceHops_cycleHops (connected : graph.Connected path) :
    graph.traceHops path (List.range path.length) ⟨[], [], 0⟩ =
      .ok (some {
        poolIndices := (graph.cycleHops path).map PriceEdge.poolIdx
        directions := (graph.cycleHops path).map PriceEdge.xToY
        totalWeight :=
          saturatingSum ((graph.cycleHops path).map PriceEdge.weight) 0 }) := by
  rw [traceHops_eq connected (fun i member => List.mem_range.mp member)]
  simp [cycleHops, comp_def]

/-! The reconstructed cycle. -/

/-- The nodes of a cycle of predecessors in the direction of its edges. -/
noncomputable def cyclePath (search : Search) (node : Nat) : List Nat :=
  (walkNodes search node (cycleLength search node)).reverse

theorem cyclePath_length (search : Search) (node : Nat) :
    (cyclePath search node).length = cycleLength search node := by
  simp [cyclePath, walkNodes]

theorem length_cycleHops
    (graph : PriceGraph)
    (search : Search)
    (node : Nat) :
    (graph.cycleHops (cyclePath search node)).length =
      cycleLength search node := by
  simp [cycleHops, cyclePath_length]

theorem cyclePath_getD
    {node i : Nat}
    (inRange : i < cycleLength search node) :
    (cyclePath search node).getD i 0 =
      search.previous^[cycleLength search node - 1 - i] node := by
  have inPath : i < (cyclePath search node).length :=
    (cyclePath_length search node).symm ▸ inRange
  rw [List.getD_eq_getElem _ _ inPath]
  simp [cyclePath, walkNodes]

namespace OnCycle

variable {node : Nat}

/-- The node before a node of the path is its predecessor. -/
theorem pred_cyclePath
    (onCycle : graph.OnCycle search node)
    {i : Nat}
    (inRange : i < cycleLength search node) :
    search.labels.pred
        ((cyclePath search node).getD
          ((i + 1) % cycleLength search node) 0) =
      some ((cyclePath search node).getD i 0) := by
  have positive := onCycle.length_pos
  rw [cyclePath_getD (Nat.mod_lt _ positive), cyclePath_getD inRange]
  by_cases isLast : i + 1 = cycleLength search node
  · rw [isLast, Nat.mod_self, Nat.sub_zero, onCycle.pred_iterate,
      Nat.sub_add_cancel positive, iterate_length]
    have first : cycleLength search node - 1 - i = 0 := by
      omega
    rw [first]
    rfl
  · rw [Nat.mod_eq_of_lt (by omega), onCycle.pred_iterate]
    congr 2
    omega

theorem connected_cyclePath
    (isLinked : search.Linked graph)
    (onCycle : graph.OnCycle search node) :
    graph.Connected (cyclePath search node) := by
  intro i inPath
  rw [cyclePath_length] at inPath ⊢
  obtain ⟨edge, member, src, dst⟩ :=
    isLinked.linked (onCycle.pred_cyclePath inPath)
  exact ⟨edge, member, src, dst⟩

/-- The hops of a cycle of predecessors form a simple cycle of the graph. -/
theorem simpleCycle
    (isLinked : search.Linked graph)
    (onCycle : graph.OnCycle search node) :
    graph.SimpleCycle (graph.cycleHops (cyclePath search node)) := by
  have connected := onCycle.connected_cyclePath isLinked
  refine ⟨fun hop member => (mem_cycleHops connected member).1, ?_, ?_⟩
  · rw [cycleHops_src connected]
    exact List.nodup_reverse.mpr (walkNodes_nodup search node)
  · rw [cycleHops_src connected, cycleHops_dst connected]

/-- The cycle has a hop from its node. -/
theorem exists_hop_src
    (isLinked : search.Linked graph)
    (onCycle : graph.OnCycle search node) :
    ∃ hop ∈ graph.cycleHops (cyclePath search node), hop.src = node := by
  have onPath : node ∈ cyclePath search node := by
    refine List.mem_reverse.mpr (List.mem_map.mpr ⟨0, ?_, rfl⟩)
    exact List.mem_range.mpr onCycle.length_pos
  rw [← cycleHops_src (onCycle.connected_cyclePath isLinked)] at onPath
  exact List.mem_map.mp onPath

/-- A hop of the cycle leads from the node that precedes its target. -/
theorem previous_dst
    (isLinked : search.Linked graph)
    (onCycle : graph.OnCycle search node)
    {hop : PriceEdge}
    (member : hop ∈ graph.cycleHops (cyclePath search node)) :
    search.previous hop.dst = hop.src := by
  have connected := onCycle.connected_cyclePath isLinked
  obtain ⟨i, iMember, rfl⟩ := List.mem_map.mp member
  have inPath := List.mem_range.mp iMember
  have isBest := hopAt_isBest connected inPath
  have linked := onCycle.pred_cyclePath
    ((cyclePath_length search node) ▸ inPath)
  rw [← cyclePath_length search node] at linked
  rw [isBest.2.1.1, isBest.2.1.2, Search.previous, next, linked,
    Option.getD_some]

/-- The target of a hop leads around the cycle to its node. -/
theorem dst_leads
    (isLinked : search.Linked graph)
    (onCycle : graph.OnCycle search node)
    {hop : PriceEdge}
    (member : hop ∈ graph.cycleHops (cyclePath search node)) :
    graph.Leads hop.dst node := by
  have onPath : hop.dst ∈ cyclePath search node := by
    rw [← List.mem_rotate (n := 1),
      ← cycleHops_dst (onCycle.connected_cyclePath isLinked)]
    exact List.mem_map_of_mem member
  obtain ⟨i, -, isDst⟩ := List.mem_map.mp (List.mem_reverse.mp onPath)
  rw [← isDst]
  exact iterate_previous_leads isLinked node i

/-- The hops of a cycle of predecessors have negative weight. -/
theorem weightOf_negative
    (sound : search.Sound graph)
    (onCycle : graph.OnCycle search node) :
    weightOf (graph.cycleHops (cyclePath search node)) < 0 := by
  have connected := onCycle.connected_cyclePath sound.isLinked
  -- Each hop weighs what separates its target from the target's predecessor.
  have weights :
      (graph.cycleHops (cyclePath search node)).map PriceEdge.weight =
        ((graph.cycleHops (cyclePath search node)).map PriceEdge.dst).map
          (fun target =>
            graph.edgeWeight (search.previous target) target) := by
    rw [List.map_map]
    refine List.map_congr_left ?_
    intro hop member
    obtain ⟨i, iMember, rfl⟩ := List.mem_map.mp member
    have inPath := List.mem_range.mp iMember
    have best := hopAt_spec connected inPath
    have isBest := hopAt_isBest connected inPath
    have linked := onCycle.pred_cyclePath
      ((cyclePath_length search node) ▸ inPath)
    rw [← cyclePath_length search node] at linked
    rw [comp_apply, isBest.2.1.2, edgeWeight, Search.previous, next, linked,
      Option.getD_some, best]
    rfl
  have reordered :
      weightOf (graph.cycleHops (cyclePath search node)) =
        ((walkNodes search node (cycleLength search node)).map
          (fun target =>
            graph.edgeWeight (search.previous target) target)).sum := by
    rw [weightOf, weights, cycleHops_dst connected]
    exact List.Perm.sum_eq
      (((List.rotate_perm _ 1).trans (List.reverse_perm _)).map _)
  have closed :
      ClosedWalk search.labels.pred (fun i => search.previous^[i] node)
        (cycleLength search node) :=
    ⟨onCycle.length_pos, fun i _ => onCycle.pred_iterate i, iterate_length⟩
  have negative := sound.supported.closedWalk_negative closed
  have listed :
      ((List.range (cycleLength search node)).map (fun i =>
          graph.edgeWeight (search.previous^[i + 1] node)
            (search.previous^[i] node))).sum < 0 :=
    negative
  rw [reordered, walkNodes, List.map_map]
  simp only [iterate_succ_apply'] at listed
  exact listed

/-- The sum of the hops does not saturate. -/
theorem saturatingSum_cycleHops
    (bounded : graph.Bounded)
    (sound : search.Sound graph)
    (onCycle : graph.OnCycle search node) :
    saturatingSum
        ((graph.cycleHops (cyclePath search node)).map PriceEdge.weight) 0 =
      weightOf (graph.cycleHops (cyclePath search node)) := by
  have small := bounded.weights_lt (onCycle.simpleCycle sound.isLinked).edges
    (by simpa [cycleHops, cyclePath_length] using onCycle.length_le sound.isLinked)
  rw [saturatingSum_eq (by simpa [comp_def] using small), zero_add]
  rfl

end OnCycle

/-- The report on the cycle of predecessors through a node. -/
noncomputable def cycleReport
    (graph : PriceGraph)
    (search : Search)
    (node : Nat) : ArbCycle :=
  let hops := graph.cycleHops (cyclePath search node)
  { path := cyclePath search node
    poolIndices := hops.map PriceEdge.poolIdx
    directions := hops.map PriceEdge.xToY
    totalWeight := weightOf hops }

/-- A cycle of at least two predecessors is reported as an arbitrage. -/
theorem reports_cycleReport
    (sound : search.Sound graph)
    {node : Nat}
    (onCycle : graph.OnCycle search node)
    (twoNodes : 2 ≤ cycleLength search node) :
    graph.Reports (graph.cycleReport search node)
      (graph.cycleHops (cyclePath search node)) where
  simple := onCycle.simpleCycle sound.isLinked
  twoHops := by
    simpa [cycleHops, cyclePath_length] using twoNodes
  path := (cycleHops_src (onCycle.connected_cyclePath sound.isLinked)).symm
  poolIndices := rfl
  directions := rfl
  lightest hop member :=
    (mem_cycleHops (onCycle.connected_cyclePath sound.isLinked) member).2
  totalWeight := rfl
  negative := onCycle.weightOf_negative sound

/-- The cycle of predecessors through a node, as the code adds it up. -/
noncomputable def reconstructed
    (graph : PriceGraph)
    (search : Search)
    (node : Nat) : ArbCycle :=
  let hops := graph.cycleHops (cyclePath search node)
  { path := cyclePath search node
    poolIndices := hops.map PriceEdge.poolIdx
    directions := hops.map PriceEdge.xToY
    totalWeight := saturatingSum (hops.map PriceEdge.weight) 0 }

/-- Light weights add up to the weight of the report. -/
theorem reconstructed_eq_cycleReport
    (bounded : graph.Bounded)
    (sound : search.Sound graph)
    {node : Nat}
    (onCycle : graph.OnCycle search node) :
    graph.reconstructed search node = graph.cycleReport search node := by
  unfold reconstructed cycleReport
  dsimp only
  rw [onCycle.saturatingSum_cycleHops bounded sound]

/--
The reconstruction gives the cycle that a walk back ends on, if it has at least
two nodes and at most one more than `max_hops`.
-/
theorem reconstructCycle_eq_reconstructed
    (nodesFit : graph.NodesFit)
    (isLinked : search.Linked graph)
    {start : Nat}
    (inRange : start < graph.numTokens)
    (walk :
      ∀ i < graph.numTokens,
        search.labels.pred (search.previous^[i] start) ≠ none)
    (maxHops : Nat) :
    graph.reconstructCycle start search.pred maxHops =
      .ok (if 2 ≤ cycleLength search
              (search.previous^[graph.numTokens] start) ∧
            cycleLength search
              (search.previous^[graph.numTokens] start) ≤ maxHops + 1 then
          some (graph.reconstructed search
            (search.previous^[graph.numTokens] start))
        else
          none) := by
  have onCycle := onCycle_of_walk isLinked inRange walk
  rcases walkBack_spec isLinked graph.numTokens inRange with
    ⟨⟨i, inWalk, stops⟩, -⟩ | ⟨-, walked⟩
  · exact absurd stops (walk i inWalk)
  generalize search.previous^[graph.numTokens] start = node
    at onCycle walked ⊢
  have collected :
      collectCycle search.pred node (maxHops + 1) node [] =
        .ok (if cycleLength search node ≤ maxHops + 1 then
            some (walkNodes search node (cycleLength search node))
          else
            none) := by
    simpa [walkNodes] using
      onCycle.collectCycle_eq nodesFit isLinked (maxHops + 1)
        onCycle.length_pos
  have length :
      (walkNodes search node (cycleLength search node)).length =
        cycleLength search node := by
    simp [walkNodes]
  unfold reconstructCycle
  rw [walked, Checked.ok_bind]
  simp only
  rw [collected, Checked.ok_bind]
  by_cases short : cycleLength search node ≤ maxHops + 1
  · rw [if_pos short]
    simp only [length]
    by_cases twoNodes : 2 ≤ cycleLength search node
    · have traced :=
        traceHops_cycleHops (onCycle.connected_cyclePath isLinked)
      rw [if_neg (by omega), if_pos ⟨twoNodes, short⟩]
      unfold cyclePath at traced
      rw [traced]
      rfl
    · rw [if_pos (by omega), if_neg (fun both => twoNodes both.1)]
      rfl
  · rw [if_neg short, if_neg (fun both => short both.2)]
    rfl

/-- On a bounded graph the reconstruction gives the report. -/
theorem reconstructCycle_eq
    (bounded : graph.Bounded)
    (sound : search.Sound graph)
    {start : Nat}
    (inRange : start < graph.numTokens)
    (walk :
      ∀ i < graph.numTokens,
        search.labels.pred (search.previous^[i] start) ≠ none)
    (maxHops : Nat) :
    graph.reconstructCycle start search.pred maxHops =
      .ok (if 2 ≤ cycleLength search
              (search.previous^[graph.numTokens] start) ∧
            cycleLength search
              (search.previous^[graph.numTokens] start) ≤ maxHops + 1 then
          some (graph.cycleReport search
            (search.previous^[graph.numTokens] start))
        else
          none) := by
  rw [reconstructCycle_eq_reconstructed bounded.nodesFit sound.isLinked
    inRange walk maxHops,
    reconstructed_eq_cycleReport bounded sound
      (onCycle_of_walk sound.isLinked inRange walk)]

/-- A reconstruction returns, and only arbitrages. -/
theorem reconstructCycle_returns
    (bounded : graph.Bounded)
    (sound : search.Sound graph)
    {start : Nat}
    (inRange : start < graph.numTokens)
    (maxHops : Nat) :
    ∃ result,
      graph.reconstructCycle start search.pred maxHops = .ok result ∧
        ∀ cycle, result = some cycle → graph.IsArbitrage cycle := by
  rcases walkBack_spec sound.isLinked graph.numTokens inRange with
    ⟨-, walked⟩ | ⟨walk, -⟩
  · refine ⟨none, ?_, by simp⟩
    unfold reconstructCycle
    rw [walked, Checked.ok_bind]
    rfl
  · refine ⟨_, reconstructCycle_eq bounded sound inRange walk maxHops, ?_⟩
    intro cycle reported
    split_ifs at reported with sized
    obtain rfl := Option.some.inj reported
    exact ⟨_, reports_cycleReport sound
      (onCycle_of_walk sound.isLinked inRange walk) sized.1⟩

/-- One step of the detection pass returns and adds only arbitrages. -/
theorem detect_returns
    (bounded : graph.Bounded)
    (sound : search.Sound graph)
    (maxHops : Nat)
    {edge : PriceEdge}
    (member : edge ∈ graph.edges)
    (cycles : List ArbCycle) :
    ∃ added,
      graph.detect maxHops search cycles edge = .ok (cycles ++ added) ∧
        ∀ cycle ∈ added, graph.IsArbitrage cycle := by
  have nothing (keeps : graph.detect maxHops search cycles edge = .ok cycles) :
      ∃ added,
        graph.detect maxHops search cycles edge = .ok (cycles ++ added) ∧
          ∀ cycle ∈ added, graph.IsArbitrage cycle :=
    ⟨[], by rw [keeps, List.append_nil], by simp⟩
  unfold detect at nothing ⊢
  rw [relaxation_eq sound.fits member, Checked.ok_bind] at nothing ⊢
  cases offered : search.offer edge with
  | none =>
      rw [offered] at nothing
      exact nothing rfl
  | some newDist =>
      obtain ⟨result, computed, sounds⟩ :=
        reconstructCycle_returns bounded sound
          (graph.edgesInRange edge member).2 maxHops
      simp only [offered, computed, Checked.ok_bind] at nothing ⊢
      cases result with
      | none =>
          exact nothing rfl
      | some cycle =>
          by_cases known : dominated cycles cycle = true
          · simp only [known, ↓reduceIte] at nothing ⊢
            exact nothing rfl
          · simp only [known] at nothing ⊢
            exact ⟨[cycle], rfl, fun other otherMember =>
              sounds other (List.mem_singleton.mp otherMember ▸ rfl)⟩

/-- The search from one source returns and adds only arbitrages. -/
theorem findFrom_returns
    (bounded : graph.Bounded)
    (maxHops : Nat)
    {source : Nat}
    (inRange : source < graph.numTokens)
    (cycles : List ArbCycle)
    (arbitrages : ∀ cycle ∈ cycles, graph.IsArbitrage cycle) :
    ∃ found,
      graph.findFrom maxHops cycles source = .ok found ∧
        ∀ cycle ∈ found, graph.IsArbitrage cycle := by
  unfold findFrom
  rw [searchFrom_eq inRange maxHops, Checked.ok_bind]
  refine Checked.foldlM_keeps ?_ cycles arbitrages
  intro edge member earlier earlierArbitrages
  obtain ⟨added, computed, addedArbitrages⟩ :=
    detect_returns bounded (sound_finalSearch graph maxHops source)
      maxHops member earlier
  refine ⟨earlier ++ added, computed, ?_⟩
  intro cycle cycleMember
  rcases List.mem_append.mp cycleMember with old | new
  · exact earlierArbitrages cycle old
  · exact addedArbitrages cycle new

/--
The search returns, every cycle that it reports is an arbitrage, and the
reports are sorted by their total weight.
-/
theorem findArbitrageCycles_reports_arbitrages
    (graph : PriceGraph)
    (bounded : graph.Bounded)
    (maxHops : Nat) :
    ∃ cycles,
      graph.findArbitrageCycles maxHops = .ok cycles ∧
        (∀ cycle ∈ cycles, graph.IsArbitrage cycle) ∧
        cycles.Pairwise
          (fun first second =>
            first.totalWeight ≤ second.totalWeight) := by
  unfold findArbitrageCycles
  by_cases empty : graph.numTokens = 0 ∨ graph.edges = []
  · rw [if_pos empty]
    exact ⟨[], rfl, by simp, List.Pairwise.nil⟩
  · rw [if_neg empty]
    obtain ⟨found, computed, arbitrages⟩ :=
      Checked.foldlM_keeps
        (fun source member cycles earlier =>
          findFrom_returns bounded maxHops
            ((List.mem_range.mp member).trans_le (min_le_left _ _))
            cycles earlier)
        [] (by simp)
    rw [computed, Checked.ok_bind]
    refine ⟨_, rfl, ?_, ?_⟩
    · intro cycle member
      exact arbitrages cycle (List.mem_mergeSort.mp member)
    · have sorted :
          (found.mergeSort (fun first second : ArbCycle =>
              first.totalWeight ≤ second.totalWeight)).Pairwise
            (fun first second =>
              decide (first.totalWeight ≤ second.totalWeight) = true) := by
        apply List.pairwise_mergeSort
        · intro first second third
          simpa using fun lower upper => le_trans lower upper
        · intro first second
          simpa using le_total first.totalWeight second.totalWeight
      simpa using sorted

/-- Three tokens around which every swap gains. -/
def gainingTriangle : PriceGraph where
  edges := [⟨0, 1, 0, -1, true⟩, ⟨1, 2, 1, -1, true⟩, ⟨2, 0, 2, -1, true⟩]
  numTokens := 3
  tokenToNode := [(1, 0), (2, 1), (3, 2)]
  edgesInRange := by decide
  nodesInRange := by decide

/-- The reports on the gaining triangle are arbitrages. -/
theorem gainingTriangle_reports_arbitrages :
    ∃ cycles,
      gainingTriangle.findArbitrageCycles 5 = .ok cycles ∧
        (∀ cycle ∈ cycles, gainingTriangle.IsArbitrage cycle) ∧
        cycles.Pairwise
          (fun first second =>
            first.totalWeight ≤ second.totalWeight) :=
  findArbitrageCycles_reports_arbitrages gainingTriangle
    ⟨by decide, by decide⟩ 5

end PriceGraph

end YieldDaemon
