import YieldDaemon.ArbitrageCycles
import YieldDaemon.FirstOccurrences

namespace YieldDaemon

open CheckedArithmetic FirstOccurrences Function PredecessorGraph

/-!
# What the search returns

The detection passes reconstruct a cycle for each edge that can still be
relaxed, source after source.  The result is what a scan of these
reconstructions keeps: the first cycle of every length and sequence of pools,
sorted.  No assumption on the weights is needed for that.
-/

namespace PriceGraph

variable {graph : PriceGraph} {search : Search} {maxHops : Nat}

/-- A reconstruction returns, and gives nothing or the cycle it ends on. -/
theorem reconstructCycle_cases
    (nodesFit : graph.NodesFit)
    (isLinked : search.Linked graph)
    {start : Nat}
    (inRange : start < graph.numTokens)
    (maxHops : Nat) :
    ∃ result,
      graph.reconstructCycle start search.pred maxHops = .ok result ∧
        ∀ cycle,
          result = some cycle ↔
            (∀ i < graph.numTokens,
                search.labels.pred (search.previous^[i] start) ≠ none) ∧
              2 ≤ cycleLength search
                (search.previous^[graph.numTokens] start) ∧
              cycleLength search (search.previous^[graph.numTokens] start) ≤
                maxHops + 1 ∧
              graph.reconstructed search
                (search.previous^[graph.numTokens] start) = cycle := by
  rcases walkBack_spec isLinked graph.numTokens inRange with
    ⟨⟨i, inWalk, stops⟩, walked⟩ | ⟨walk, -⟩
  · refine ⟨none, ?_, fun cycle => ?_⟩
    · unfold reconstructCycle
      rw [walked, Checked.ok_bind]
      rfl
    · constructor
      · nofun
      · rintro ⟨walk, -⟩
        exact absurd stops (walk i inWalk)
  · refine ⟨_, reconstructCycle_eq_reconstructed nodesFit isLinked inRange
      walk maxHops, fun cycle => ?_⟩
    constructor
    · intro found
      split_ifs at found with sized
      exact ⟨walk, sized.1, sized.2, Option.some.inj found⟩
    · rintro ⟨-, twoNodes, short, rfl⟩
      rw [if_pos ⟨twoNodes, short⟩]

/-- The cycle that the detection pass reconstructs at an edge. -/
def candidate
    (graph : PriceGraph)
    (maxHops : Nat)
    (search : Search)
    (edge : PriceEdge) : Option ArbCycle :=
  match search.offer edge with
  | none => none
  | some _ =>
    match graph.reconstructCycle edge.dst search.pred maxHops with
    | .ok found => found
    | .error _ => none

/-- The cycles that the detection pass of a source reconstructs. -/
def candidatesFrom
    (graph : PriceGraph)
    (maxHops source : Nat) : List ArbCycle :=
  graph.edges.filterMap
    (graph.candidate maxHops (graph.finalSearch maxHops source))

/-- All reconstructed cycles, in the order of the search. -/
def candidates (graph : PriceGraph) (maxHops : Nat) : List ArbCycle :=
  (List.range (min graph.numTokens maxTokens)).flatMap
    (graph.candidatesFrom maxHops)

/-- What the deduplication compares. -/
def dedupKey (cycle : ArbCycle) : Nat × List Nat :=
  (cycle.path.length, cycle.poolIndices)

/-- The deduplication keeps the first cycle of every key. -/
theorem keepFirst_eq (cycles : List ArbCycle) (cycle : ArbCycle) :
    keepFirst dedupKey cycles cycle =
      if dominated cycles cycle then cycles else cycles ++ [cycle] := by
  have same :
      cycles.any (fun other => dedupKey other = dedupKey cycle) =
        dominated cycles cycle := by
    simp only [dominated, dedupKey, Prod.mk.injEq]
  rw [keepFirst, same]

/-- The detection pass keeps the candidate of an edge, if there is one. -/
theorem detect_eq
    (nodesFit : graph.NodesFit)
    (isLinked : search.Linked graph)
    (maxHops : Nat)
    (cycles : List ArbCycle)
    {edge : PriceEdge}
    (member : edge ∈ graph.edges) :
    graph.detect maxHops search cycles edge =
      .ok ((graph.candidate maxHops search edge).elim cycles
        (keepFirst dedupKey cycles)) := by
  unfold detect candidate
  rw [relaxation_eq isLinked.fits member, Checked.ok_bind]
  cases search.offer edge with
  | none =>
      rfl
  | some newDist =>
      obtain ⟨result, computed, -⟩ :=
        reconstructCycle_cases nodesFit isLinked
          (graph.edgesInRange edge member).2 maxHops
      simp only [computed, Checked.ok_bind]
      cases result with
      | none =>
          rfl
      | some cycle =>
          simp only [Option.elim_some, keepFirst_eq]
          split <;> rfl

/-- The search from a source keeps its candidates. -/
theorem findFrom_eq_foldl
    (nodesFit : graph.NodesFit)
    (cycles : List ArbCycle)
    {source : Nat}
    (inRange : source < graph.numTokens) :
    graph.findFrom maxHops cycles source =
      .ok ((graph.candidatesFrom maxHops source).foldl
        (keepFirst dedupKey) cycles) := by
  unfold findFrom
  rw [searchFrom_eq inRange maxHops, Checked.ok_bind, candidatesFrom,
    List.foldl_filterMap]
  have kept :=
    Checked.foldlM_simulates id _
      (fun edge member cycles =>
        detect_eq nodesFit (linked_finalSearch graph maxHops source) maxHops
          cycles member)
      cycles
  refine kept.trans (congrArg Except.ok ?_)
  refine congrArg (fun step => graph.edges.foldl step cycles) ?_
  funext earlier edge
  cases graph.candidate maxHops (graph.finalSearch maxHops source) edge <;> rfl

/-- The search returns the first candidates of every key, sorted. -/
theorem findArbitrageCycles_eq
    (nodesFit : graph.NodesFit)
    (maxHops : Nat) :
    graph.findArbitrageCycles maxHops =
      .ok ((firsts dedupKey (graph.candidates maxHops)).mergeSort
        (fun first second => first.totalWeight ≤ second.totalWeight)) := by
  have scanned :
      (List.range (min graph.numTokens maxTokens)).foldlM
          (graph.findFrom maxHops) [] =
        .ok (firsts dedupKey (graph.candidates maxHops)) := by
    rw [firsts, candidates, List.foldl_flatMap]
    refine Checked.foldlM_simulates id _ ?_ []
    intro source member cycles
    exact findFrom_eq_foldl nodesFit cycles
      ((List.mem_range.mp member).trans_le (min_le_left _ _))
  unfold findArbitrageCycles
  by_cases empty : graph.numTokens = 0 ∨ graph.edges = []
  · have noCandidates : graph.candidates maxHops = [] := by
      rcases empty with noTokens | noEdges
      · simp [candidates, noTokens]
      · simp [candidates, candidatesFrom, noEdges]
    rw [if_pos empty, noCandidates, firsts, List.foldl_nil, List.mergeSort_nil]
    rfl
  · rw [if_neg empty, scanned, Checked.ok_bind]
    rfl

/-- A candidate is the cycle that the walk back from a relaxable edge ends on. -/
theorem candidate_eq_some
    (nodesFit : graph.NodesFit)
    (isLinked : search.Linked graph)
    {edge : PriceEdge}
    (member : edge ∈ graph.edges)
    (maxHops : Nat)
    (cycle : ArbCycle) :
    graph.candidate maxHops search edge = some cycle ↔
      search.offer edge ≠ none ∧
        (∀ i < graph.numTokens,
          search.labels.pred (search.previous^[i] edge.dst) ≠ none) ∧
        2 ≤ cycleLength search
          (search.previous^[graph.numTokens] edge.dst) ∧
        cycleLength search (search.previous^[graph.numTokens] edge.dst) ≤
          maxHops + 1 ∧
        graph.reconstructed search
          (search.previous^[graph.numTokens] edge.dst) = cycle := by
  unfold candidate
  cases search.offer edge with
  | none =>
      simp
  | some newDist =>
      obtain ⟨result, computed, isCycle⟩ :=
        reconstructCycle_cases nodesFit isLinked
          (graph.edgesInRange edge member).2 maxHops
      simp only [computed, isCycle, ne_eq, reduceCtorEq, not_false_eq_true,
        true_and]

/-- A reconstruction has as many hops as the cycle of predecessors nodes. -/
theorem reconstructed_length (search : Search) (node : Nat) :
    (graph.reconstructed search node).poolIndices.length =
      cycleLength search node := by
  simp [reconstructed, cycleHops, cyclePath_length]

theorem mem_candidates {cycle : ArbCycle} :
    cycle ∈ graph.candidates maxHops ↔
      ∃ source < min graph.numTokens maxTokens, ∃ edge ∈ graph.edges,
        graph.candidate maxHops (graph.finalSearch maxHops source) edge =
          some cycle := by
  simp only [candidates, candidatesFrom, List.mem_flatMap, List.mem_range,
    List.mem_filterMap]

/--
After the rounds from a source the edge can still be relaxed, and the walk back
from it ends on a cycle of one predecessor more than the limit.
-/
structure EndsTooLong
    (graph : PriceGraph)
    (maxHops source : Nat)
    (edge : PriceEdge) : Prop where
  relaxable : (graph.finalSearch maxHops source).offer edge ≠ none
  walk :
    ∀ i < graph.numTokens,
      (graph.finalSearch maxHops source).labels.pred
        ((graph.finalSearch maxHops source).previous^[i] edge.dst) ≠ none
  length :
    cycleLength (graph.finalSearch maxHops source)
      ((graph.finalSearch maxHops source).previous^[graph.numTokens]
        edge.dst) = maxHops + 1

/--
The reported cycles keep the hop limit exactly if no walk back ends on a cycle
of one predecessor more than the limit, which is at least 1.
-/
theorem hops_within_limit_iff
    (nodesFit : graph.NodesFit)
    (maxHops : Nat) :
    (∃ cycles,
      graph.findArbitrageCycles maxHops = .ok cycles ∧
        ∀ cycle ∈ cycles, cycle.poolIndices.length ≤ maxHops) ↔
      1 ≤ maxHops →
        ∀ source < min graph.numTokens maxTokens, ∀ edge ∈ graph.edges,
          ¬ graph.EndsTooLong maxHops source edge := by
  have found := findArbitrageCycles_eq nodesFit maxHops
  have spec (source : Nat) {edge : PriceEdge} (member : edge ∈ graph.edges)
      (cycle : ArbCycle) :=
    candidate_eq_some nodesFit (linked_finalSearch graph maxHops source)
      member maxHops cycle
  constructor
  · rintro ⟨cycles, returned, within⟩ positive source inRange edge member
      tooLong
    obtain rfl := Except.ok.inj (found.symm.trans returned)
    have reconstructs :=
      (spec source member _).mpr
        ⟨tooLong.relaxable, tooLong.walk, by rw [tooLong.length]; omega,
          tooLong.length.le, rfl⟩
    have isCandidate : _ ∈ graph.candidates maxHops :=
      mem_candidates.mpr ⟨source, inRange, edge, member, reconstructs⟩
    obtain ⟨kept, isKept, sameKey⟩ :
        ∃ kept ∈ firsts dedupKey (graph.candidates maxHops),
          dedupKey kept = dedupKey _ :=
      (key_mem_firsts _).mpr ⟨_, isCandidate, rfl⟩
    have short := within kept (List.mem_mergeSort.mpr isKept)
    have samePools := congrArg Prod.snd sameKey
    simp only [dedupKey] at samePools
    rw [samePools, reconstructed_length, tooLong.length] at short
    omega
  · intro noneTooLong
    refine ⟨_, found, fun cycle returned => ?_⟩
    obtain ⟨source, inRange, edge, member, isCandidate⟩ :=
      mem_candidates.mp (mem_of_mem_firsts (List.mem_mergeSort.mp returned))
    obtain ⟨relaxable, walk, twoNodes, short, rfl⟩ :=
      (spec source member cycle).mp isCandidate
    rw [reconstructed_length]
    by_contra exceeds
    exact noneTooLong (by omega) source inRange edge member
      ⟨relaxable, walk, by omega⟩

/--
The reported cycles keep a hop limit of 0, and any other one if no simple cycle
of negative weight has exactly one hop more.
-/
theorem hops_within_limit
    (nodesFit : graph.NodesFit)
    (maxHops : Nat)
    (noneTooLong :
      maxHops = 0 ∨
        ∀ hops, graph.SimpleCycle hops → weightOf hops < 0 →
          hops.length ≠ maxHops + 1) :
    ∃ cycles,
      graph.findArbitrageCycles maxHops = .ok cycles ∧
        ∀ cycle ∈ cycles, cycle.poolIndices.length ≤ maxHops := by
  refine (hops_within_limit_iff nodesFit maxHops).mpr ?_
  intro positive source _ edge member tooLong
  rcases noneTooLong with noHops | noneTooLong
  · omega
  · -- The walk back ends on a cycle of predecessors, whose weight is negative.
    have sound := sound_finalSearch graph maxHops source
    have onCycle := onCycle_of_walk sound.isLinked
      (graph.edgesInRange edge member).2 tooLong.walk
    refine noneTooLong _ (onCycle.simpleCycle sound.isLinked)
      (onCycle.weightOf_negative sound) ?_
    exact (graph.length_cycleHops _ _).trans tooLong.length

/-- The gaining triangle has no more than three hops to report. -/
theorem gainingTriangle_within_limit :
    ∃ cycles,
      gainingTriangle.findArbitrageCycles 3 = .ok cycles ∧
        ∀ cycle ∈ cycles, cycle.poolIndices.length ≤ 3 := by
  refine hops_within_limit (by decide) 3 (.inr ?_)
  intro hops simple _ tooLong
  have few : hops.length ≤ 3 := simple.length_le
  omega

/-- With a limit of two hops it reports a cycle of three. -/
theorem gainingTriangle_exceeds_limit :
    gainingTriangle.NodesFit ∧
      ∃ cycles,
        gainingTriangle.findArbitrageCycles 2 = .ok cycles ∧
          ∃ cycle ∈ cycles, cycle.poolIndices.length = 3 := by
  refine ⟨by decide, _, findArbitrageCycles_eq (by decide) 2, ?_⟩
  simp only [List.mem_mergeSort]
  decide +kernel

end PriceGraph

end YieldDaemon
