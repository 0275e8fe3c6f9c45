import YieldDaemon.SearchResults

namespace YieldDaemon

open CheckedArithmetic FirstOccurrences Function PredecessorGraph

/-!
# Rediscovered loops

One loop is found from many sources and at many edges that can still be
relaxed.  An edge can be relaxed after the last round only if an edge into its
source stands behind it in the list, and every loop has such an edge.  If all
of those that a loop leads to have one target, then every walk back to the loop
starts there and ends at the same node, and the deduplication recognizes it.
-/

namespace PriceGraph

variable {graph : PriceGraph} {search : Search} {maxHops : Nat}

/-- The hops of a cycle, each a pool and a direction. -/
def loop (cycle : ArbCycle) : List (Nat × Bool) :=
  cycle.poolIndices.zip cycle.directions

/-- An item is not fresh exactly if the deduplication drops it. -/
theorem not_fresh_iff (earlier : List ArbCycle) (cycle : ArbCycle) :
    ¬ Fresh dedupKey earlier cycle ↔ dominated earlier cycle = true := by
  simp [Fresh, dedupKey, dominated]

/-- Sorting does not change whether some cycles are rotations of each other. -/
theorem pairwise_sorted (cycles : List ArbCycle) :
    (cycles.mergeSort
        (fun first second => first.totalWeight ≤ second.totalWeight)).Pairwise
        (fun first second => ¬ loop first ~r loop second) ↔
      cycles.Pairwise (fun first second => ¬ loop first ~r loop second) :=
  (List.mergeSort_perm _ _).pairwise_iff
    (fun apart rotated => apart rotated.symm)

/--
No two reported cycles are rotations of one loop exactly if, of any two
reconstructions that are, the deduplication drops one for a cycle before it.
-/
theorem loops_reported_once_iff
    (nodesFit : graph.NodesFit)
    (maxHops : Nat) :
    (∃ cycles,
      graph.findArbitrageCycles maxHops = .ok cycles ∧
        cycles.Pairwise (fun first second => ¬ loop first ~r loop second)) ↔
      ∀ before first between second after,
        graph.candidates maxHops =
            before ++ first :: (between ++ second :: after) →
          loop first ~r loop second →
          dominated before first = true ∨
            dominated (before ++ first :: between) second = true := by
  have found := findArbitrageCycles_eq nodesFit maxHops
  have atOnce :
      (∃ cycles,
        graph.findArbitrageCycles maxHops = .ok cycles ∧
          cycles.Pairwise (fun first second => ¬ loop first ~r loop second)) ↔
        (firsts dedupKey (graph.candidates maxHops)).Pairwise
          (fun first second => ¬ loop first ~r loop second) := by
    rw [← pairwise_sorted]
    constructor
    · rintro ⟨cycles, returned, apart⟩
      obtain rfl := Except.ok.inj (found.symm.trans returned)
      exact apart
    · exact fun apart => ⟨_, found, apart⟩
  rw [atOnce, pairwise_firsts]
  constructor
  · intro apart before first between second after shape rotated
    by_contra kept
    rw [not_or, ← not_fresh_iff, ← not_fresh_iff, not_not, not_not] at kept
    exact apart first second
      ⟨before, between, after, shape, kept.1, kept.2⟩ rotated
  · rintro dropped first second
      ⟨before, between, after, shape, firstFresh, secondFresh⟩ rotated
    rcases dropped before first between second after shape rotated with
      firstDropped | secondDropped
    · exact (not_fresh_iff _ _).mpr firstDropped firstFresh
    · exact (not_fresh_iff _ _).mpr secondDropped secondFresh

/--
An edge into the source of the edge stands behind it in the list, or is the
edge itself.
-/
def PointsBack (graph : PriceGraph) (edge : PriceEdge) : Prop :=
  ∃ i < graph.edges.length,
    graph.edges[i]? = some edge ∧
      ∃ other ∈ graph.edges.drop i, other.dst = edge.src

instance (graph : PriceGraph) (edge : PriceEdge) :
    Decidable (graph.PointsBack edge) :=
  inferInstanceAs
    (Decidable (∃ i < graph.edges.length,
      graph.edges[i]? = some edge ∧
        ∃ other ∈ graph.edges.drop i, other.dst = edge.src))

theorem PointsBack.mem
    {edge : PriceEdge}
    (back : graph.PointsBack edge) :
    edge ∈ graph.edges := by
  obtain ⟨i, -, here, -⟩ := back
  exact List.mem_of_getElem? here

/-- All edges pointing back that a node leads to have one target. -/
def PointsBackOnce (graph : PriceGraph) (node : Nat) : Prop :=
  ∀ first second,
    graph.PointsBack first →
    graph.PointsBack second →
    graph.Leads node first.dst →
    graph.Leads node second.dst →
      first.dst = second.dst

/-- A pool swaps between one pair of nodes in each direction. -/
def PoolsApart (graph : PriceGraph) : Prop :=
  ∀ first ∈ graph.edges, ∀ second ∈ graph.edges,
    first.poolIdx = second.poolIdx →
    first.xToY = second.xToY →
      first.src = second.src ∧ first.dst = second.dst

instance (graph : PriceGraph) : Decidable graph.PoolsApart :=
  inferInstanceAs
    (Decidable (∀ first ∈ graph.edges, ∀ second ∈ graph.edges,
      first.poolIdx = second.poolIdx →
      first.xToY = second.xToY →
        first.src = second.src ∧ first.dst = second.dst))

/-- Lowering the target of an edge gives it nothing to offer. -/
theorem offer_none_of_le
    {later : Search}
    {edge : PriceEdge}
    (noOffer : search.offer edge = none)
    (sameSrc : later.labels.dist edge.src = search.labels.dist edge.src)
    (lower : later.labels.dist edge.dst ≤ search.labels.dist edge.dst) :
    later.offer edge = none := by
  by_contra offers
  obtain ⟨newDist, offered⟩ := Option.ne_none_iff_exists'.mp offers
  obtain ⟨reached, sum, isLower⟩ := offer_eq_some.mp offered
  rw [sameSrc] at reached sum
  have before :=
    offer_eq_some.mpr ⟨reached, sum, isLower.trans_le lower⟩
  rw [noOffer] at before
  exact absurd before (by simp)

/-- An edge that is no loop has nothing to offer once it is relaxed. -/
theorem offer_relaxed
    (fits : search.Fits graph.numTokens)
    {edge : PriceEdge}
    (member : edge ∈ graph.edges)
    (noLoop : edge.src ≠ edge.dst) :
    (search.relaxed edge).offer edge = none := by
  cases offered : search.offer edge with
  | none =>
      rwa [Search.relaxed, offered]
  | some newDist =>
      by_contra offers
      obtain ⟨again, offeredAgain⟩ := Option.ne_none_iff_exists'.mp offers
      obtain ⟨-, sum, -⟩ := offer_eq_some.mp offered
      obtain ⟨-, sumAgain, lower⟩ := offer_eq_some.mp offeredAgain
      rw [dist_relaxed fits member offered] at sumAgain lower
      rw [update_of_ne noLoop, sum] at sumAgain
      rw [update_self, sumAgain] at lower
      exact absurd lower (lt_irrefl _)

/-- It keeps that while no edge into its source is relaxed. -/
theorem offer_pass
    (fits : search.Fits graph.numTokens)
    {edges : List PriceEdge}
    (members : ∀ other ∈ edges, other ∈ graph.edges)
    {edge : PriceEdge}
    (noneIntoSrc : ∀ other ∈ edges, other.dst ≠ edge.src)
    (noOffer : search.offer edge = none) :
    (search.pass edges).offer edge = none := by
  have kept :
      (search.pass edges).Fits graph.numTokens ∧
        (search.pass edges).offer edge = none := by
    refine pass_keeps
      (fun later =>
        later.Fits graph.numTokens ∧ later.offer edge = none)
      ?_ ⟨fits, noOffer⟩
    rintro later ⟨laterFits, laterNone⟩ other member
    refine ⟨fits_relaxed laterFits other, offer_none_of_le laterNone ?_
      (dist_relaxed_le laterFits (members other member) edge.dst)⟩
    cases offered : later.offer other with
    | none =>
        rw [Search.relaxed, offered]
    | some newDist =>
        rw [dist_relaxed laterFits (members other member) offered,
          update_of_ne (noneIntoSrc other member).symm]
  exact kept.2

/-- An edge that can be relaxed after a round points back. -/
theorem pointsBack_of_offer
    (fits : search.Fits graph.numTokens)
    {edge : PriceEdge}
    (member : edge ∈ graph.edges)
    (offers : (search.pass graph.edges).offer edge ≠ none) :
    graph.PointsBack edge := by
  obtain ⟨i, inRange, here⟩ := List.getElem_of_mem member
  have shape : graph.edges.drop i = edge :: graph.edges.drop (i + 1) := by
    rw [List.drop_eq_getElem_cons inRange, here]
  refine ⟨i, inRange, by rw [List.getElem?_eq_getElem inRange, here], ?_⟩
  rw [shape]
  by_contra noneBehind
  push Not at noneBehind
  refine offers ?_
  have split :
      graph.edges =
        graph.edges.take i ++ edge :: graph.edges.drop (i + 1) := by
    rw [← shape, List.take_append_drop]
  have passed :
      search.pass graph.edges =
        ((search.pass (graph.edges.take i)).relaxed edge).pass
          (graph.edges.drop (i + 1)) := by
    conv_lhs => rw [split]
    rw [Search.pass, List.foldl_append, List.foldl_cons]
    rfl
  rw [passed]
  have before := fits_pass fits (graph.edges.take i)
  exact offer_pass (fits_relaxed before edge)
    (fun other otherMember => List.mem_of_mem_drop otherMember)
    (fun other otherMember =>
      noneBehind other (List.mem_cons_of_mem edge otherMember))
    (offer_relaxed before member
      (noneBehind edge List.mem_cons_self).symm)

/-- A candidate comes from an edge that points back. -/
theorem pointsBack_of_candidate
    {source : Nat}
    {edge : PriceEdge}
    (member : edge ∈ graph.edges)
    (offers : (graph.finalSearch maxHops source).offer edge ≠ none)
    (walk :
      ∀ i < graph.numTokens,
        (graph.finalSearch maxHops source).labels.pred
          ((graph.finalSearch maxHops source).previous^[i] edge.dst) ≠
            none) :
    graph.PointsBack edge := by
  have inRange := (graph.edgesInRange edge member).2
  unfold finalSearch at offers walk
  rcases rounds : min (graph.numTokens - 1) maxHops with _ | before
  · -- Without a round there are no predecessors.
    rw [rounds] at walk
    exact absurd (graph.initialSearch_pred source edge.dst)
      (walk 0 (Nat.zero_lt_of_lt inRange))
  · rw [rounds, iterate_succ_apply'] at offers
    refine pointsBack_of_offer ?_ member offers
    exact rounds_keep (fun search => search.Fits graph.numTokens)
      (fun search kept => fits_pass kept graph.edges)
      (graph.sound_initialSearch source).fits before

/-- Every cycle has an edge that points back. -/
theorem exists_pointsBack
    {hops : List PriceEdge}
    (simple : graph.SimpleCycle hops)
    (nonempty : hops ≠ []) :
    ∃ hop ∈ hops, graph.PointsBack hop := by
  obtain ⟨hop, hopMember, earliest⟩ :=
    Finset.exists_min_image hops.toFinset (fun hop => graph.edges.idxOf hop)
      ((List.toFinset_nonempty_iff hops).mpr nonempty)
  have member := List.mem_toFinset.mp hopMember
  have inRange := List.idxOf_lt_length_of_mem (simple.edges hop member)
  obtain ⟨other, otherMember, intoSrc⟩ := simple.src_mem_dst member
  have otherInRange :=
    List.idxOf_lt_length_of_mem (simple.edges other otherMember)
  have behind := earliest other (List.mem_toFinset.mpr otherMember)
  refine ⟨hop, member, graph.edges.idxOf hop, inRange, ?_, other, ?_, intoSrc⟩
  · rw [List.getElem?_eq_getElem inRange, List.getElem_idxOf inRange]
  · refine List.mem_iff_getElem?.mpr
      ⟨graph.edges.idxOf other - graph.edges.idxOf hop, ?_⟩
    rw [List.getElem?_drop, Nat.add_sub_cancel' behind,
      List.getElem?_eq_getElem otherInRange, List.getElem_idxOf otherInRange]

/-- The hops of the loop of a reconstruction. -/
theorem loop_reconstructed (search : Search) (node : Nat) :
    loop (graph.reconstructed search node) =
      (graph.cycleHops (cyclePath search node)).map
        (fun hop => (hop.poolIdx, hop.xToY)) := by
  simp [loop, reconstructed, List.zip_map']

/-- Two searches end on the same loop. -/
structure SameLoop
    (graph : PriceGraph)
    (first second : Search)
    (firstNode secondNode : Nat) : Prop where
  firstLinked : first.Linked graph
  secondLinked : second.Linked graph
  firstOnCycle : graph.OnCycle first firstNode
  secondOnCycle : graph.OnCycle second secondNode
  rotated :
    loop (graph.reconstructed first firstNode) ~r
      loop (graph.reconstructed second secondNode)

namespace SameLoop

variable {first second : Search} {firstNode secondNode : Nat}

theorem length_eq
    (same : graph.SameLoop first second firstNode secondNode) :
    cycleLength first firstNode = cycleLength second secondNode := by
  have lengths := same.rotated.perm.length_eq
  rw [loop_reconstructed, loop_reconstructed] at lengths
  simpa [length_cycleHops] using lengths

/-- Each hop of one search joins the same nodes as a hop of the other. -/
theorem exists_hop
    (apart : graph.PoolsApart)
    (same : graph.SameLoop first second firstNode secondNode)
    {hop : PriceEdge}
    (member : hop ∈ graph.cycleHops (cyclePath first firstNode)) :
    ∃ other ∈ graph.cycleHops (cyclePath second secondNode),
      other.src = hop.src ∧ other.dst = hop.dst := by
  have inSecond :
      (hop.poolIdx, hop.xToY) ∈
        loop (graph.reconstructed second secondNode) := by
    rw [← same.rotated.mem_iff, loop_reconstructed]
    exact List.mem_map_of_mem member
  rw [loop_reconstructed] at inSecond
  obtain ⟨other, otherMember, sameSwap⟩ := List.mem_map.mp inSecond
  obtain ⟨samePool, sameDirection⟩ := Prod.mk.inj sameSwap
  have firstSimple := same.firstOnCycle.simpleCycle same.firstLinked
  have secondSimple := same.secondOnCycle.simpleCycle same.secondLinked
  exact ⟨other, otherMember,
    apart other (secondSimple.edges other otherMember) hop
      (firstSimple.edges hop member) samePool sameDirection⟩

/-- On the loop both searches have the same predecessors. -/
theorem previous_eq
    (apart : graph.PoolsApart)
    (same : graph.SameLoop first second firstNode secondNode)
    {hop : PriceEdge}
    (member : hop ∈ graph.cycleHops (cyclePath first firstNode)) :
    first.previous hop.dst = second.previous hop.dst := by
  obtain ⟨other, otherMember, sameSrc, sameDst⟩ := same.exists_hop apart member
  have fromSecond :=
    same.secondOnCycle.previous_dst same.secondLinked otherMember
  rw [sameSrc, sameDst] at fromSecond
  rw [same.firstOnCycle.previous_dst same.firstLinked member, fromSecond]

/-- Walks back from a node of the loop stay together, and on the loop. -/
theorem walk_eq
    (apart : graph.PoolsApart)
    (same : graph.SameLoop first second firstNode secondNode)
    {hop : PriceEdge}
    (member : hop ∈ graph.cycleHops (cyclePath first firstNode))
    (steps : Nat) :
    first.previous^[steps] hop.dst = second.previous^[steps] hop.dst ∧
      ∃ other ∈ graph.cycleHops (cyclePath first firstNode),
        other.dst = first.previous^[steps] hop.dst := by
  induction steps with
  | zero =>
      exact ⟨rfl, hop, member, rfl⟩
  | succ steps inductionHypothesis =>
      obtain ⟨together, other, otherMember, onLoop⟩ := inductionHypothesis
      have simple := same.firstOnCycle.simpleCycle same.firstLinked
      obtain ⟨before, beforeMember, intoSrc⟩ :=
        simple.src_mem_dst otherMember
      rw [iterate_succ_apply', iterate_succ_apply', ← together, ← onLoop]
      refine ⟨same.previous_eq apart otherMember, before, beforeMember, ?_⟩
      rw [intoSrc,
        same.firstOnCycle.previous_dst same.firstLinked otherMember]

/-- From one node of the loop both searches reconstruct the same cycle. -/
theorem reconstructed_eq
    (apart : graph.PoolsApart)
    (same : graph.SameLoop first second firstNode secondNode)
    {hop : PriceEdge}
    (member : hop ∈ graph.cycleHops (cyclePath first firstNode))
    {steps : Nat}
    (firstEnds : first.previous^[steps] hop.dst = firstNode)
    (secondEnds : second.previous^[steps] hop.dst = secondNode) :
    graph.reconstructed first firstNode =
      graph.reconstructed second secondNode := by
  have samePath : cyclePath first firstNode = cyclePath second secondNode := by
    unfold cyclePath walkNodes
    rw [same.length_eq]
    refine congrArg List.reverse (List.map_congr_left fun i _ => ?_)
    rw [← firstEnds, ← secondEnds, ← iterate_add_apply, ← iterate_add_apply]
    exact (same.walk_eq apart member (i + steps)).1
  unfold reconstructed
  rw [samePath]

end SameLoop

/-- What a walk back reconstructs at a relaxable edge. -/
structure Candidate
    (graph : PriceGraph)
    (maxHops source : Nat)
    (edge : PriceEdge)
    (cycle : ArbCycle) : Prop where
  pointsBack : graph.PointsBack edge
  onCycle :
    graph.OnCycle (graph.finalSearch maxHops source)
      ((graph.finalSearch maxHops source).previous^[graph.numTokens] edge.dst)
  twoHops :
    2 ≤ cycleLength (graph.finalSearch maxHops source)
      ((graph.finalSearch maxHops source).previous^[graph.numTokens] edge.dst)
  short :
    cycleLength (graph.finalSearch maxHops source)
      ((graph.finalSearch maxHops source).previous^[graph.numTokens]
        edge.dst) ≤ maxHops + 1
  isCycle :
    graph.reconstructed (graph.finalSearch maxHops source)
      ((graph.finalSearch maxHops source).previous^[graph.numTokens]
        edge.dst) = cycle

/-- Every candidate is reconstructed at an edge that points back. -/
theorem exists_candidate
    (nodesFit : graph.NodesFit)
    {cycle : ArbCycle}
    (isCandidate : cycle ∈ graph.candidates maxHops) :
    ∃ source edge, graph.Candidate maxHops source edge cycle := by
  obtain ⟨source, -, edge, member, reconstructs⟩ :=
    mem_candidates.mp isCandidate
  have isLinked := linked_finalSearch graph maxHops source
  obtain ⟨offers, walk, twoHops, short, isCycle⟩ :=
    (candidate_eq_some nodesFit isLinked member maxHops cycle).mp reconstructs
  exact ⟨source, edge, pointsBack_of_candidate member offers walk,
    onCycle_of_walk isLinked (graph.edgesInRange edge member).2 walk,
    twoHops, short, isCycle⟩

/-- Two candidates of one loop are the same cycle. -/
theorem candidate_eq
    (apart : graph.PoolsApart)
    (once :
      ∀ hops, graph.SimpleCycle hops → weightOf hops < 0 →
        2 ≤ hops.length → hops.length ≤ maxHops + 1 →
          ∀ hop ∈ hops, graph.PointsBackOnce hop.src)
    {firstSource secondSource : Nat}
    {firstEdge secondEdge : PriceEdge}
    {first second : ArbCycle}
    (firstCandidate : graph.Candidate maxHops firstSource firstEdge first)
    (secondCandidate : graph.Candidate maxHops secondSource secondEdge second)
    (rotated : loop first ~r loop second) :
    first = second := by
  obtain ⟨firstBack, firstOnCycle, twoHops, short, rfl⟩ := firstCandidate
  obtain ⟨secondBack, secondOnCycle, -, -, rfl⟩ := secondCandidate
  have firstSound := sound_finalSearch graph maxHops firstSource
  have secondSound := sound_finalSearch graph maxHops secondSource
  have same : graph.SameLoop _ _ _ _ :=
    ⟨firstSound.isLinked, secondSound.isLinked, firstOnCycle, secondOnCycle,
      rotated⟩
  have simple := firstOnCycle.simpleCycle firstSound.isLinked
  rw [← graph.length_cycleHops] at twoHops short
  -- The loop has an edge pointing back, and both walks start at its target.
  obtain ⟨hop, member, hopBack⟩ :=
    exists_pointsBack simple (List.ne_nil_of_length_pos (by omega))
  obtain ⟨next, nextMember, fromDst⟩ := simple.dst_mem_src member
  obtain ⟨other, otherMember, -, sameDst⟩ := same.exists_hop apart member
  have target :=
    once _ simple (firstOnCycle.weightOf_negative firstSound) twoHops short
      next nextMember
  rw [fromDst] at target
  have firstStarts : firstEdge.dst = hop.dst :=
    target firstEdge hop firstBack hopBack
      ((firstOnCycle.dst_leads firstSound.isLinked member).trans
        (iterate_previous_leads firstSound.isLinked _ _))
      Relation.ReflTransGen.refl
  have secondStarts : secondEdge.dst = hop.dst := by
    refine target secondEdge hop secondBack hopBack ?_
      Relation.ReflTransGen.refl
    rw [← sameDst]
    exact (secondOnCycle.dst_leads secondSound.isLinked otherMember).trans
      (iterate_previous_leads secondSound.isLinked _ _)
  exact same.reconstructed_eq apart member (by rw [firstStarts])
    (by rw [secondStarts])

/-- The gaining triangle with its edges in another order. -/
def shuffledTriangle : PriceGraph where
  edges := [⟨1, 2, 1, -1, true⟩, ⟨0, 1, 0, -1, true⟩, ⟨2, 0, 2, -1, true⟩]
  numTokens := 3
  tokenToNode := [(1, 0), (2, 1), (3, 2)]
  edgesInRange := by decide
  nodesInRange := gainingTriangle.nodesInRange

end PriceGraph

end YieldDaemon
