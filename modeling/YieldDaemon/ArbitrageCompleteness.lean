import YieldDaemon.ArbitrageCycles

namespace YieldDaemon

open CheckedArithmetic PredecessorGraph Function

/-!
# Finding an arbitrage within the hop limit

A search from a token on a cycle of negative weight lowers the distance of its
own source below zero.  Then every reached token has a predecessor, some edge
of the cycle can still be relaxed, and a walk back from its target ends on a
cycle of negative weight that the source leads to.  If all of these have at
most `max_hops` hops, one of them is reported; a longer one would be walked
back to and dropped.
-/

namespace PriceGraph

/-- Consecutive edges lead from one node to another. -/
def WalksTo : Nat → List PriceEdge → Nat → Prop
  | node, [], target => node = target
  | node, edge :: edges, target =>
    edge.src = node ∧ WalksTo edge.dst edges target

theorem walksTo_append
    {node target : Nat}
    {first second : List PriceEdge} :
    WalksTo node (first ++ second) target ↔
      ∃ middle, WalksTo node first middle ∧ WalksTo middle second target := by
  induction first generalizing node with
  | nil =>
      simp [WalksTo]
  | cons edge edges inductionHypothesis =>
      simp [WalksTo, inductionHypothesis, and_assoc]

@[simp] theorem weightOf_nil : weightOf [] = 0 :=
  rfl

@[simp] theorem weightOf_cons (edge : PriceEdge) (edges : List PriceEdge) :
    weightOf (edge :: edges) = edge.weight + weightOf edges := by
  simp [weightOf]

@[simp] theorem weightOf_append (first second : List PriceEdge) :
    weightOf (first ++ second) = weightOf first + weightOf second := by
  simp [weightOf]

/-- A positive bound on all weights, small enough for every simple path. -/
structure WeightBound (graph : PriceGraph) (largest : Nat) : Prop where
  positive : 0 < largest
  small : graph.numTokens * largest < 2 ^ 30
  weights : ∀ edge ∈ graph.edges, edge.weight.natAbs ≤ largest

variable {graph : PriceGraph} {search : Search} {largest : Nat}

/-- The target of an edge ends up no farther than its source and the edge. -/
theorem dist_relaxed_dst
    (fits : search.Fits graph.numTokens)
    {edge : PriceEdge}
    (member : edge ∈ graph.edges)
    {distance : Int}
    (source : search.labels.dist edge.src ≤ distance)
    (reached : distance < unreached)
    (noUnderflow : i32Min ≤ distance + edge.weight) :
    (search.relaxed edge).labels.dist edge.dst ≤
      distance + edge.weight := by
  have sum :
      saturatingAdd (search.labels.dist edge.src) edge.weight ≤
        distance + edge.weight := by
    unfold saturatingAdd
    omega
  cases offered : search.offer edge with
  | none =>
      have notLower :
          ¬ saturatingAdd (search.labels.dist edge.src) edge.weight <
            search.labels.dist edge.dst := fun lower => by
        have offers := offer_eq_some.mpr
          ⟨source.trans_lt reached, rfl, lower⟩
        simp [offered] at offers
      rw [Search.relaxed, offered]
      exact (not_lt.mp notLower).trans sum
  | some newDist =>
      rw [dist_relaxed fits member offered, Function.update_self,
        ← (offer_eq_some.mp offered).2.1]
      exact sum

theorem dist_pass_le
    (fits : search.Fits graph.numTokens)
    {edges : List PriceEdge}
    (members : ∀ edge ∈ edges, edge ∈ graph.edges)
    (node : Nat) :
    (search.pass edges).labels.dist node ≤ search.labels.dist node := by
  have kept :
      (search.pass edges).Fits graph.numTokens ∧
        (search.pass edges).labels.dist node ≤ search.labels.dist node := by
    refine pass_keeps
      (fun later =>
        later.Fits graph.numTokens ∧
          later.labels.dist node ≤ search.labels.dist node)
      ?_ ⟨fits, le_rfl⟩
    rintro later ⟨laterFits, lower⟩ edge member
    exact ⟨fits_relaxed laterFits edge,
      (dist_relaxed_le laterFits (members edge member) node).trans
        lower⟩
  exact kept.2

theorem fits_rounds
    (fits : search.Fits graph.numTokens)
    (rounds : Nat) :
    ((Search.pass graph.edges)^[rounds] search).Fits graph.numTokens := by
  refine rounds_keep (fun search => search.Fits graph.numTokens) ?_ fits rounds
  intro search kept
  exact fits_pass kept graph.edges

theorem dist_rounds_le
    (fits : search.Fits graph.numTokens)
    (rounds node : Nat) :
    ((Search.pass graph.edges)^[rounds] search).labels.dist node ≤
      search.labels.dist node := by
  induction rounds generalizing search with
  | zero =>
      exact le_rfl
  | succ rounds inductionHypothesis =>
      exact (inductionHypothesis (fits_pass fits graph.edges)).trans
        (dist_pass_le fits (fun _ member => member) node)

/--
A pass relaxes every path whose edges stand in the list in the order of the
path.  A path of as many edges as there are tokens neither reaches the
distance of an unreached node nor underflows.
-/
theorem dist_pass_of_sublist
    (bound : graph.WeightBound largest)
    {edges hops : List PriceEdge}
    (inOrder : hops.Sublist edges)
    (fits : search.Fits graph.numTokens)
    (members : ∀ edge ∈ edges, edge ∈ graph.edges)
    {node target taken : Nat}
    {distance : Int}
    (walks : WalksTo node hops target)
    (source : search.labels.dist node ≤ distance)
    (small : distance.natAbs ≤ taken * largest)
    (short : taken + hops.length ≤ graph.numTokens) :
    (search.pass edges).labels.dist target ≤ distance + weightOf hops := by
  induction inOrder generalizing search node distance taken with
  | slnil =>
      obtain rfl : node = target := walks
      simpa [Search.pass] using source
  | @cons hops edges edge inOrder inductionHypothesis =>
      have member := members edge List.mem_cons_self
      exact inductionHypothesis (fits_relaxed fits edge)
        (fun other otherMember =>
          members other (List.mem_cons_of_mem edge otherMember))
        walks ((dist_relaxed_le fits member node).trans source)
        small short
  | @cons_cons hops edges edge inOrder inductionHypothesis =>
      have member := members edge List.mem_cons_self
      obtain ⟨rfl, later⟩ := walks
      have weight := bound.weights edge member
      rw [List.length_cons] at short
      -- One more edge of the path fits the bound on all its edges.
      have stepBound : (taken + 1) * largest < 2 ^ 30 :=
        (Nat.mul_le_mul_right largest (by omega)).trans_lt bound.small
      have nextSmall :
          (distance + edge.weight).natAbs ≤ (taken + 1) * largest := by
        rw [Nat.succ_mul]
        omega
      have reached : distance < unreached := by
        have positive := bound.positive
        rw [Nat.succ_mul] at stepBound
        unfold unreached i32Max
        omega
      have noUnderflow : i32Min ≤ distance + edge.weight := by
        unfold i32Min
        omega
      rw [weightOf_cons, ← add_assoc]
      exact inductionHypothesis (fits_relaxed fits edge)
        (fun other otherMember =>
          members other (List.mem_cons_of_mem edge otherMember))
        later
        (dist_relaxed_dst fits member source reached noUnderflow)
        nextSmall (by omega)

/-- As many rounds as a path has edges relax the whole path. -/
theorem dist_rounds_of_path
    (bound : graph.WeightBound largest)
    {hops : List PriceEdge}
    (fits : search.Fits graph.numTokens)
    (members : ∀ hop ∈ hops, hop ∈ graph.edges)
    {node target taken : Nat}
    {distance : Int}
    (walks : WalksTo node hops target)
    (source : search.labels.dist node ≤ distance)
    (small : distance.natAbs ≤ taken * largest)
    (short : taken + hops.length ≤ graph.numTokens) :
    ((Search.pass graph.edges)^[hops.length] search).labels.dist target ≤
      distance + weightOf hops := by
  induction hops generalizing search node distance taken with
  | nil =>
      obtain rfl : node = target := walks
      simpa using source
  | cons hop hops inductionHypothesis =>
      obtain ⟨rfl, later⟩ := walks
      have member := members hop List.mem_cons_self
      have weight := bound.weights hop member
      rw [List.length_cons] at short ⊢
      have first :=
        dist_pass_of_sublist bound
          (List.singleton_sublist.mpr member) fits
          (fun _ edgeMember => edgeMember)
          (⟨rfl, rfl⟩ : WalksTo hop.src [hop] hop.dst) source small
          (by rw [List.length_singleton]; omega)
      rw [weightOf_cons, weightOf_nil, add_zero] at first
      have nextSmall :
          (distance + hop.weight).natAbs ≤ (taken + 1) * largest := by
        rw [Nat.succ_mul]
        omega
      rw [weightOf_cons, ← add_assoc, iterate_succ_apply]
      exact inductionHypothesis (fits_pass fits graph.edges)
        (fun other otherMember =>
          members other (List.mem_cons_of_mem hop otherMember))
        later first nextSmall (by omega)

namespace SimpleCycle

variable {hops : List PriceEdge}

theorem rotate (simple : graph.SimpleCycle hops) (steps : Nat) :
    graph.SimpleCycle (hops.rotate steps) where
  edges hop member := simple.edges hop (List.mem_rotate.mp member)
  distinct := by
    rw [List.map_rotate]
    exact List.nodup_rotate.mpr simple.distinct
  linked := by
    rw [List.map_rotate, List.map_rotate, simple.linked, List.rotate_rotate,
      List.rotate_rotate, Nat.add_comm]

/-- A cycle leads from its first node back to it. -/
theorem walksTo
    {first : PriceEdge}
    {later : List PriceEdge}
    (simple : graph.SimpleCycle (first :: later)) :
    WalksTo first.src (first :: later) first.src := by
  have chain :
      ∀ (edge : PriceEdge) (edges : List PriceEdge) (target : Nat),
        (edge :: edges).map PriceEdge.dst =
          edges.map PriceEdge.src ++ [target] →
        WalksTo edge.src (edge :: edges) target := by
    intro edge edges
    induction edges generalizing edge with
    | nil =>
        intro target linked
        obtain ⟨reached, -⟩ := List.cons.inj linked
        exact ⟨rfl, reached⟩
    | cons next edges inductionHypothesis =>
        intro target linked
        obtain ⟨step, rest⟩ := List.cons.inj linked
        refine ⟨rfl, ?_⟩
        rw [step]
        exact inductionHypothesis next target rest
  refine chain first later first.src ?_
  have linked := simple.linked
  rwa [List.map_cons, List.map_cons, List.rotate_cons_succ,
    List.rotate_zero] at linked

end SimpleCycle

theorem weightOf_rotate (hops : List PriceEdge) (steps : Nat) :
    weightOf (hops.rotate steps) = weightOf hops :=
  ((List.rotate_perm hops steps).map PriceEdge.weight).sum_eq

/-- Two edges stand in the list in the order of their first positions. -/
theorem pair_sublist_of_idxOf_lt
    {edges : List PriceEdge}
    {first second : PriceEdge}
    (member : second ∈ edges)
    (ordered : edges.idxOf first < edges.idxOf second) :
    [first, second].Sublist edges := by
  have secondInRange := List.idxOf_lt_length_of_mem member
  have firstInRange := ordered.trans secondInRange
  have firstHere : edges[edges.idxOf first] = first :=
    List.getElem_idxOf firstInRange
  have later : second ∈ edges.drop (edges.idxOf first + 1) := by
    have secondHere : edges[edges.idxOf second] = second :=
      List.getElem_idxOf secondInRange
    obtain ⟨gap, position⟩ := Nat.exists_eq_add_of_lt ordered
    refine List.mem_iff_getElem?.mpr ⟨gap, ?_⟩
    rw [List.getElem?_drop, Nat.add_right_comm, ← position,
      List.getElem?_eq_getElem secondInRange, secondHere]
  have suffix := List.drop_sublist (edges.idxOf first) edges
  rw [List.drop_eq_getElem_cons firstInRange, firstHere] at suffix
  exact ((List.singleton_sublist.mpr later).cons_cons first).trans suffix

/-- A cycle can be entered so that its first two edges are in order. -/
theorem exists_ordered_rotation
    {hops : List PriceEdge}
    (simple : graph.SimpleCycle hops)
    (twoHops : 2 ≤ hops.length) :
    ∃ steps first second later,
      hops.rotate steps = first :: second :: later ∧
        [first, second].Sublist graph.edges := by
  obtain ⟨first, firstMember, earliest⟩ :=
    Finset.exists_min_image hops.toFinset (fun hop => graph.edges.idxOf hop)
      (List.toFinset_nonempty_iff hops |>.mpr
        (List.ne_nil_of_length_pos (by omega)))
  obtain ⟨steps, inRange, here⟩ :=
    List.getElem_of_mem (List.mem_toFinset.mp firstMember)
  have rotated :
      hops.rotate steps =
        first :: (hops.drop (steps + 1) ++ hops.take steps) := by
    rw [List.rotate_eq_drop_append_take inRange.le,
      List.drop_eq_getElem_cons inRange, here, List.cons_append]
  have rotatedSimple := simple.rotate steps
  have length : (hops.rotate steps).length = hops.length :=
    List.length_rotate hops steps
  cases tail : hops.drop (steps + 1) ++ hops.take steps with
  | nil =>
      rw [rotated, tail, List.length_singleton] at length
      omega
  | cons second later =>
      rw [tail] at rotated
      refine ⟨steps, first, second, later, rotated, ?_⟩
      have secondMember : second ∈ hops := by
        rw [← List.mem_rotate (n := steps), rotated]
        exact List.mem_cons_of_mem first List.mem_cons_self
      have secondEdge := simple.edges second secondMember
      have different : first ≠ second := by
        rintro rfl
        have distinct := rotatedSimple.distinct
        rw [rotated, List.map_cons, List.map_cons] at distinct
        exact (List.nodup_cons.mp distinct).1 List.mem_cons_self
      have apart : graph.edges.idxOf first ≠ graph.edges.idxOf second :=
        fun same => different ((List.idxOf_inj secondEdge).mp same.symm).symm
      exact pair_sublist_of_idxOf_lt secondEdge
        (lt_of_le_of_ne
          (earliest second (List.mem_toFinset.mpr secondMember)) apart)

/-- What relaxing an edge once can lower a distance by. -/
def gain (edge : PriceEdge) : Nat :=
  (-edge.weight).toNat

/-- What a pass can lower a distance by at most. -/
def totalGain (graph : PriceGraph) : Nat :=
  (graph.edges.map gain).sum

/--
Only the source can be reached without a predecessor, at distance zero, and
predecessors have been reached.  The source leads to all that has been reached,
and no distance is below `-lowered`.
-/
structure Search.Reached
    (search : Search)
    (graph : PriceGraph)
    (source lowered : Nat) : Prop where
  linked :
    ∀ {node},
      search.labels.dist node < unreached →
      search.labels.pred node = none →
      node = source ∧ search.labels.dist node = 0
  closed :
    ∀ {node previous},
      search.labels.pred node = some previous →
      search.labels.dist previous < unreached
  leads :
    ∀ {node},
      search.labels.dist node < unreached → graph.Leads source node
  above : ∀ node, -(lowered : Int) ≤ search.labels.dist node

variable {source lowered : Nat}

theorem reached_relaxed
    (bounded : graph.Bounded)
    (sound : search.Sound graph)
    (reached : search.Reached graph source lowered)
    {edge : PriceEdge}
    (member : edge ∈ graph.edges) :
    (search.relaxed edge).Reached graph source (lowered + gain edge) := by
  have fewer (node : Nat) :
      -((lowered + gain edge : Nat) : Int) ≤ search.labels.dist node := by
    have above := reached.above node
    omega
  cases offered : search.offer edge with
  | none =>
      have same : search.relaxed edge = search := by
        rw [Search.relaxed, offered]
      rw [same]
      exact ⟨reached.linked, reached.closed, reached.leads, fewer⟩
  | some newDist =>
      have relabelled :=
        labels_relaxed sound.fits member (bounded.isNode member) offered
      obtain ⟨srcReached, sum, lower⟩ := offer_eq_some.mp offered
      have decreases := dist_relaxed_le sound.fits member
      refine ⟨?_, ?_, ?_, ?_⟩
      · intro node nodeReached noPred
        rw [relabelled] at nodeReached noPred ⊢
        by_cases isDst : node = edge.dst
        · subst isDst
          simp at noPred
        · rw [Labels.relax_dist_of_ne isDst] at nodeReached ⊢
          rw [Labels.relax_pred_of_ne isDst] at noPred
          exact reached.linked nodeReached noPred
      · intro node previous linked
        refine (decreases previous).trans_lt ?_
        rw [relabelled] at linked
        by_cases isDst : node = edge.dst
        · subst isDst
          rw [Labels.relax_pred_self] at linked
          exact Option.some.inj linked ▸ srcReached
        · rw [Labels.relax_pred_of_ne isDst] at linked
          exact reached.closed linked
      · intro node nodeReached
        rw [relabelled] at nodeReached
        by_cases isDst : node = edge.dst
        · subst isDst
          exact (reached.leads srcReached).tail ⟨edge, member, rfl, rfl⟩
        · rw [Labels.relax_dist_of_ne isDst] at nodeReached
          exact reached.leads nodeReached
      · intro node
        rw [relabelled]
        by_cases isDst : node = edge.dst
        · subst isDst
          rw [Labels.relax_dist_self]
          have source := reached.above edge.src
          have exactSum :=
            add_le_of_offer sum lower (sound.capped edge.dst)
          unfold gain
          omega
        · rw [Labels.relax_dist_of_ne isDst]
          exact fewer node

theorem reached_pass
    (bounded : graph.Bounded)
    {edges : List PriceEdge}
    (sound : search.Sound graph)
    (reached : search.Reached graph source lowered)
    (members : ∀ edge ∈ edges, edge ∈ graph.edges) :
    (search.pass edges).Reached graph source
      (lowered + (edges.map gain).sum) := by
  induction edges generalizing search lowered with
  | nil =>
      exact reached
  | cons edge edges inductionHypothesis =>
      have member := members edge List.mem_cons_self
      have later := inductionHypothesis (sound_relaxed sound member)
        (reached_relaxed bounded sound reached member)
        (fun other otherMember =>
          members other (List.mem_cons_of_mem edge otherMember))
      rwa [List.map_cons, List.sum_cons, ← Nat.add_assoc]

theorem reached_rounds
    (bounded : graph.Bounded)
    (sound : search.Sound graph)
    (reached : search.Reached graph source lowered)
    (rounds : Nat) :
    ((Search.pass graph.edges)^[rounds] search).Reached graph source
      (lowered + rounds * graph.totalGain) := by
  induction rounds generalizing search lowered with
  | zero =>
      simpa using reached
  | succ rounds inductionHypothesis =>
      have later :=
        inductionHypothesis (sound_pass sound (fun _ member => member))
          (reached_pass bounded sound reached (fun _ member => member))
      rw [Nat.succ_mul, Nat.add_comm (rounds * _), ← Nat.add_assoc,
        iterate_succ_apply]
      exact later

theorem initialSearch_dist
    {source : Nat}
    (inRange : source < graph.numTokens)
    (node : Nat) :
    (graph.initialSearch source).labels.dist node =
      if node = source then 0 else unreached := by
  unfold initialSearch Search.labels
  by_cases isSource : node = source
  · subst isSource
    simp [inRange]
  · by_cases inDist : node < graph.numTokens <;>
      simp [isSource, Ne.symm isSource, inDist]

theorem reached_initialSearch
    {source : Nat}
    (inRange : source < graph.numTokens) :
    (graph.initialSearch source).Reached graph source 0 := by
  have atSource {node : Nat}
      (nodeReached :
        (graph.initialSearch source).labels.dist node < unreached) :
      node = source := by
    by_contra isOther
    rw [initialSearch_dist inRange, if_neg isOther] at nodeReached
    exact absurd nodeReached (lt_irrefl _)
  refine ⟨fun nodeReached _ => ?_, fun linked => ?_, fun nodeReached => ?_,
    fun node => ?_⟩
  · obtain rfl := atSource nodeReached
    exact ⟨rfl, by rw [initialSearch_dist inRange, if_pos rfl]⟩
  · simp [graph.initialSearch_pred source] at linked
  · obtain rfl := atSource nodeReached
    exact Relation.ReflTransGen.refl
  · rw [initialSearch_dist inRange]
    split_ifs <;> simp [unreached, i32Max]

theorem dist_finalSearch_le
    {maxHops rounds : Nat}
    (made : rounds ≤ min (graph.numTokens - 1) maxHops)
    (node : Nat) :
    (graph.finalSearch maxHops source).labels.dist node ≤
      ((Search.pass graph.edges)^[rounds]
        (graph.initialSearch source)).labels.dist node := by
  unfold finalSearch
  rw [← Nat.sub_add_cancel made, iterate_add_apply]
  exact dist_rounds_le
    (fits_rounds (graph.sound_initialSearch source).fits rounds) _ node

theorem weightOf_le
    (bound : graph.WeightBound largest)
    {hops : List PriceEdge}
    (members : ∀ hop ∈ hops, hop ∈ graph.edges) :
    weightOf hops ≤ hops.length * largest := by
  induction hops with
  | nil =>
      simp
  | cons hop hops inductionHypothesis =>
      have weight := bound.weights hop (members hop List.mem_cons_self)
      have rest := inductionHypothesis
        (fun other member => members other (List.mem_cons_of_mem hop member))
      rw [weightOf_cons, List.length_cons]
      push_cast
      rw [add_mul, one_mul]
      omega

section Cycle

variable {maxHops : Nat} {first second : PriceEdge} {later : List PriceEdge}

/-- The final distances are at most those along the cycle. -/
theorem dist_finalSearch_before
    (bound : graph.WeightBound largest)
    (simple : graph.SimpleCycle (first :: second :: later))
    (short : (first :: second :: later).length ≤ maxHops)
    (inOrder : [first, second].Sublist graph.edges)
    {front back : List PriceEdge}
    (split : first :: second :: later = front ++ back)
    (nonempty : front ≠ [])
    {target : Nat}
    (walks : WalksTo first.src front target) :
    (graph.finalSearch maxHops first.src).labels.dist target ≤
      weightOf front := by
  have fewHops := simple.length_le
  have members : ∀ hop ∈ front, hop ∈ graph.edges := fun hop member =>
    simple.edges hop (split ▸ List.mem_append_left back member)
  have inRange :=
    (graph.edgesInRange first (simple.edges first List.mem_cons_self)).1
  have fits := (graph.sound_initialSearch first.src).fits
  have origin :
      (graph.initialSearch first.src).labels.dist first.src ≤ 0 := by
    rw [initialSearch_dist inRange, if_pos rfl]
  have frontLength := congrArg List.length split
  rw [List.length_append, List.length_cons, List.length_cons] at frontLength
  simp only [List.length_cons] at short fewHops
  rcases front with _ | ⟨head, _ | ⟨next, more⟩⟩
  · exact absurd rfl nonempty
  · -- The first edge alone takes one round.
    have shortened :=
      dist_rounds_of_path bound fits members walks origin
        (Nat.zero_le _) (by rw [List.length_singleton]; omega)
    refine (dist_finalSearch_le ?_ target).trans
      (shortened.trans_eq (zero_add _))
    rw [List.length_singleton]
    omega
  · -- The first two edges take one round together.
    obtain ⟨rfl, rest⟩ := List.cons.inj split
    obtain ⟨rfl, -⟩ := List.cons.inj rest
    simp only [List.length_cons] at frontLength
    have walksOn : WalksTo first.src ([first, second] ++ more) target :=
      walks
    obtain ⟨middle, pairWalks, moreWalks⟩ := walksTo_append.mp walksOn
    have started :=
      dist_pass_of_sublist bound inOrder fits
        (fun _ member => member) pairWalks origin (Nat.zero_le _)
        (by simp only [List.length_cons, List.length_nil]; omega)
    rw [zero_add] at started
    have pairSmall :
        (weightOf [first, second]).natAbs ≤ 2 * largest := by
      have firstWeight := bound.weights first (members first (by simp))
      have secondWeight := bound.weights second (members second (by simp))
      rw [weightOf_cons, weightOf_cons, weightOf_nil]
      omega
    have shortened :=
      dist_rounds_of_path bound (fits_pass fits graph.edges)
        (fun hop member => members hop (by simp [member])) moreWalks started
        pairSmall (by omega)
    rw [← iterate_succ_apply] at shortened
    refine (dist_finalSearch_le (by omega) target).trans
      (shortened.trans_eq ?_)
    rw [← weightOf_append]
    rfl

/-- Every node of the cycle is reached. -/
theorem reached_cycle
    (bound : graph.WeightBound largest)
    (simple : graph.SimpleCycle (first :: second :: later))
    (short : (first :: second :: later).length ≤ maxHops)
    (inOrder : [first, second].Sublist graph.edges)
    (negative : weightOf (first :: second :: later) < 0)
    {hop : PriceEdge}
    (member : hop ∈ first :: second :: later) :
    (graph.finalSearch maxHops first.src).labels.dist hop.dst <
      unreached := by
  obtain ⟨front, back, split⟩ := List.append_of_mem member
  have hopSplit :
      first :: second :: later = (front ++ [hop]) ++ back := by
    rw [split, List.append_assoc]
    rfl
  have walk := simple.walksTo
  rw [hopSplit] at walk
  obtain ⟨target, frontWalks, -⟩ := walksTo_append.mp walk
  have atHop : target = hop.dst := by
    obtain ⟨before, -, -, reached⟩ := walksTo_append.mp frontWalks
    exact reached.symm
  subst target
  have along :=
    dist_finalSearch_before bound simple short inOrder hopSplit
      (by simp) frontWalks
  refine along.trans_lt ?_
  rcases back with _ | ⟨next, back⟩
  · rw [← List.append_nil (front ++ [hop]), ← hopSplit]
    exact negative.trans (by unfold unreached i32Max; omega)
  · have members : ∀ other ∈ front ++ [hop], other ∈ graph.edges :=
      fun other otherMember =>
        simple.edges other
          (hopSplit ▸ List.mem_append_left _ otherMember)
    have most := weightOf_le bound members
    have fewHops := simple.length_le
    rw [hopSplit, List.length_append, List.length_cons] at fewHops
    have fits :
        ((front ++ [hop]).length + 1) * largest ≤
          graph.numTokens * largest :=
      Nat.mul_le_mul_right largest (by omega)
    have positive := bound.positive
    have small := bound.small
    rw [Nat.succ_mul] at fits
    unfold unreached i32Max
    push_cast at most fits ⊢
    omega

end Cycle

/-- Some edge of a reached cycle of negative weight can be relaxed. -/
theorem exists_offer
    {hops : List PriceEdge}
    (simple : graph.SimpleCycle hops)
    (negative : weightOf hops < 0)
    (reached : ∀ hop ∈ hops, search.labels.dist hop.src < unreached)
    (above : ∀ node, -(lowered : Int) ≤ search.labels.dist node)
    (noUnderflow : ∀ edge ∈ graph.edges, lowered + gain edge ≤ 2 ^ 31) :
    ∃ hop ∈ hops, ∃ newDist, search.offer hop = some newDist := by
  by_contra noOffer
  push Not at noOffer
  have far :
      ∀ hop ∈ hops,
        search.labels.dist hop.dst ≤
          search.labels.dist hop.src + hop.weight := by
    intro hop member
    have srcReached := reached hop member
    have notLower :
        ¬ saturatingAdd (search.labels.dist hop.src) hop.weight <
          search.labels.dist hop.dst := fun lower =>
      noOffer hop member _ (offer_eq_some.mpr ⟨srcReached, rfl, lower⟩)
    refine (not_lt.mp notLower).trans ?_
    have source := above hop.src
    have fits := noUnderflow hop (simple.edges hop member)
    unfold gain at fits
    unfold saturatingAdd i32Min
    omega
  have sums :
      (hops.map (fun hop => search.labels.dist hop.dst)).sum ≤
        (hops.map (fun hop => search.labels.dist hop.src)).sum +
          weightOf hops := by
    rw [weightOf, ← List.sum_map_add]
    exact List.sum_le_sum far
  have around :
      (hops.map (fun hop => search.labels.dist hop.dst)).sum =
        (hops.map (fun hop => search.labels.dist hop.src)).sum := by
    have same :
        ((hops.map PriceEdge.dst).map search.labels.dist).sum =
          ((hops.map PriceEdge.src).map search.labels.dist).sum := by
      rw [simple.linked]
      exact ((List.rotate_perm _ 1).map search.labels.dist).sum_eq
    rwa [List.map_map, List.map_map] at same
  omega

/-- With a source below zero, a walk back from a reached node never stops. -/
theorem reached_walk
    (reached : search.Reached graph source lowered)
    (belowZero : search.labels.dist source < 0)
    {node : Nat}
    (nodeReached : search.labels.dist node < unreached)
    (i : Nat) :
    search.labels.dist (search.previous^[i] node) < unreached ∧
      search.labels.pred (search.previous^[i] node) ≠ none := by
  have linked {other : Nat}
      (otherReached : search.labels.dist other < unreached) :
      search.labels.pred other ≠ none := by
    intro noPred
    obtain ⟨rfl, atZero⟩ := reached.linked otherReached noPred
    omega
  induction i with
  | zero =>
      exact ⟨nodeReached, linked nodeReached⟩
  | succ i inductionHypothesis =>
      obtain ⟨-, iLinked⟩ := inductionHypothesis
      have label := pred_eq_some_next iLinked
      have nextReached := reached.closed label
      rw [iterate_succ_apply']
      exact ⟨nextReached, linked nextReached⟩

/--
Every negative simple cycle that a node leads to has at least two and at most
so many hops.
-/
def NegativeCyclesWithin
    (graph : PriceGraph)
    (maxHops node : Nat) : Prop :=
  ∀ hops, graph.SimpleCycle hops → weightOf hops < 0 →
    (∃ hop ∈ hops, graph.Leads node hop.src) →
      2 ≤ hops.length ∧ hops.length ≤ maxHops

/-- A reconstruction from a reached node reports a short enough cycle. -/
theorem reconstructCycle_finds
    (bounded : graph.Bounded)
    (sound : search.Sound graph)
    (reached : search.Reached graph source lowered)
    (belowZero : search.labels.dist source < 0)
    {maxHops : Nat}
    (within : graph.NegativeCyclesWithin maxHops source)
    {start : Nat}
    (inRange : start < graph.numTokens)
    (startReached : search.labels.dist start < unreached) :
    ∃ cycle,
      graph.reconstructCycle start search.pred maxHops =
          .ok (some cycle) ∧
        cycle.path.length ≤ maxHops := by
  have walk (i : Nat) (_ : i < graph.numTokens) :=
    (reached_walk reached belowZero startReached i).2
  have onCycle := onCycle_of_walk sound.isLinked inRange walk
  have simple := onCycle.simpleCycle sound.isLinked
  obtain ⟨hop, member, isStart⟩ :=
    onCycle.exists_hop_src sound.isLinked
  have sized := within _ simple (onCycle.weightOf_negative sound)
    ⟨hop, member, by
      rw [isStart]
      exact reached.leads
        (reached_walk reached belowZero startReached graph.numTokens).1⟩
  rw [graph.length_cycleHops] at sized
  have computed := reconstructCycle_eq bounded sound inRange walk maxHops
  rw [if_pos ⟨sized.1, Nat.le_succ_of_le sized.2⟩] at computed
  refine ⟨_, computed, ?_⟩
  simpa [cycleReport, cyclePath_length] using sized.2

/-- Some reported cycle is within the hop limit. -/
def Found (maxHops : Nat) (cycles : List ArbCycle) : Prop :=
  ∃ cycle ∈ cycles, cycle.path.length ≤ maxHops

theorem found_append
    {maxHops : Nat}
    {cycles : List ArbCycle}
    (found : Found maxHops cycles)
    (added : List ArbCycle) :
    Found maxHops (cycles ++ added) := by
  obtain ⟨cycle, member, short⟩ := found
  exact ⟨cycle, List.mem_append_left added member, short⟩

/-- At an edge that can be relaxed the detection pass has a short cycle. -/
theorem detect_finds
    {maxHops : Nat}
    {edge : PriceEdge}
    (sound : search.Sound graph)
    (member : edge ∈ graph.edges)
    {newDist : Int}
    (offered : search.offer edge = some newDist)
    {cycle : ArbCycle}
    (reconstructed :
      graph.reconstructCycle edge.dst search.pred maxHops =
        .ok (some cycle))
    (short : cycle.path.length ≤ maxHops)
    {cycles next : List ArbCycle}
    (computed : graph.detect maxHops search cycles edge = .ok next) :
    Found maxHops next := by
  unfold detect at computed
  rw [relaxation_eq sound.fits member, Checked.ok_bind] at computed
  simp only [offered, reconstructed, Checked.ok_bind] at computed
  by_cases known : dominated cycles cycle = true
  · simp only [known, ↓reduceIte, Checked.pure_eq_ok, Except.ok.injEq]
      at computed
    subst computed
    obtain ⟨other, otherMember, same⟩ := List.any_eq_true.mp known
    have sameLength : other.path.length = cycle.path.length :=
      (of_decide_eq_true same).1
    exact ⟨other, otherMember, sameLength ▸ short⟩
  · simp only [known, Bool.false_eq_true, ↓reduceIte, Checked.pure_eq_ok,
      Except.ok.injEq] at computed
    subst computed
    exact ⟨cycle, List.mem_append_right cycles (List.mem_singleton_self cycle),
      short⟩

/-! The whole search. -/

theorem findFrom_eq
    {maxHops : Nat}
    (inRange : source < graph.numTokens)
    (cycles : List ArbCycle) :
    graph.findFrom maxHops cycles source =
      graph.edges.foldlM
        (graph.detect maxHops (graph.finalSearch maxHops source)) cycles := by
  unfold findFrom
  rw [searchFrom_eq inRange maxHops]
  rfl

/-- The search from one source returns and drops nothing that was found. -/
theorem findFrom_keeps
    (bounded : graph.Bounded)
    {maxHops : Nat}
    (inRange : source < graph.numTokens)
    (cycles : List ArbCycle) :
    ∃ next,
      graph.findFrom maxHops cycles source = .ok next ∧
        (Found maxHops cycles → Found maxHops next) := by
  rw [findFrom_eq inRange]
  have sound := sound_finalSearch graph maxHops source
  refine Checked.foldlM_keeps
    (fun edge member earlier kept => ?_) cycles (fun found => found)
  obtain ⟨added, computed, -⟩ :=
    detect_returns bounded sound maxHops member earlier
  exact ⟨earlier ++ added, computed,
    fun found => found_append (kept found) added⟩

/-- The search from one source finds a cycle when an edge can be relaxed. -/
theorem findFrom_finds
    (bounded : graph.Bounded)
    {maxHops : Nat}
    (inRange : source < graph.numTokens)
    {edge : PriceEdge}
    (member : edge ∈ graph.edges)
    {newDist : Int}
    (offered :
      (graph.finalSearch maxHops source).offer edge = some newDist)
    {cycle : ArbCycle}
    (reconstructed :
      graph.reconstructCycle edge.dst
          (graph.finalSearch maxHops source).pred maxHops =
        .ok (some cycle))
    (short : cycle.path.length ≤ maxHops)
    {cycles next : List ArbCycle}
    (computed : graph.findFrom maxHops cycles source = .ok next) :
    Found maxHops next := by
  have sound := sound_finalSearch graph maxHops source
  obtain ⟨final, finalComputed, found⟩ :=
    Checked.foldlM_reaches member
      (fun other otherMember earlier => by
        obtain ⟨added, detected, -⟩ :=
          detect_returns bounded sound maxHops otherMember earlier
        exact ⟨earlier ++ added, detected⟩)
      (fun other otherMember earlier after kept detected => by
        obtain ⟨added, alsoDetected, -⟩ :=
          detect_returns bounded sound maxHops otherMember earlier
        obtain rfl := Except.ok.inj (alsoDetected.symm.trans detected)
        exact found_append kept added)
      (fun earlier after detected =>
        detect_finds sound member offered reconstructed short detected)
      cycles
  rw [findFrom_eq inRange, finalComputed] at computed
  exact Except.ok.inj computed ▸ found

/-- A cycle that is offered to the search of one token is found in the end. -/
theorem findArbitrageCycles_of_offer
    (bounded : graph.Bounded)
    (fewTokens : graph.numTokens ≤ maxTokens)
    {maxHops source : Nat}
    (inRange : source < graph.numTokens)
    {edge : PriceEdge}
    (member : edge ∈ graph.edges)
    {newDist : Int}
    (offered :
      (graph.finalSearch maxHops source).offer edge = some newDist)
    {cycle : ArbCycle}
    (reconstructed :
      graph.reconstructCycle edge.dst
          (graph.finalSearch maxHops source).pred maxHops =
        .ok (some cycle))
    (short : cycle.path.length ≤ maxHops) :
    ∃ cycles,
      graph.findArbitrageCycles maxHops = .ok cycles ∧
        ∃ cycle ∈ cycles, cycle.path.length ≤ maxHops := by
  have sources {other : Nat}
      (otherMember : other ∈ List.range (min graph.numTokens maxTokens)) :
      other < graph.numTokens :=
    (List.mem_range.mp otherMember).trans_le (min_le_left _ _)
  have sourceMember :
      source ∈ List.range (min graph.numTokens maxTokens) := by
    rw [min_eq_left fewTokens]
    exact List.mem_range.mpr inRange
  obtain ⟨cycles, computed, found⟩ :=
    Checked.foldlM_reaches sourceMember
      (fun other otherMember earlier => by
        obtain ⟨next, searched, -⟩ :=
          findFrom_keeps bounded (sources otherMember) earlier
        exact ⟨next, searched⟩)
      (fun other otherMember earlier next kept searched => by
        obtain ⟨same, sameSearched, keeps⟩ :=
          findFrom_keeps bounded (sources otherMember) earlier
        obtain rfl := Except.ok.inj (sameSearched.symm.trans searched)
        exact keeps kept)
      (fun earlier next searched =>
        findFrom_finds bounded inRange member offered reconstructed short
          searched)
      []
  have nonempty : ¬ (graph.numTokens = 0 ∨ graph.edges = []) := by
    rintro (noTokens | noEdges)
    · omega
    · simp [noEdges] at member
  unfold findArbitrageCycles
  rw [if_neg nonempty, computed, Checked.ok_bind]
  refine ⟨_, rfl, ?_⟩
  obtain ⟨cycle, cycleMember, cycleShort⟩ := found
  exact ⟨cycle, List.mem_mergeSort.mpr cycleMember, cycleShort⟩

/-- No distance of a search can fall below the lower end of i32. -/
def DistancesFit (graph : PriceGraph) (maxHops : Nat) : Prop :=
  ∀ edge ∈ graph.edges,
    min (graph.numTokens - 1) maxHops * graph.totalGain + gain edge ≤ 2 ^ 31

instance (graph : PriceGraph) (maxHops : Nat) :
    Decidable (graph.DistancesFit maxHops) :=
  inferInstanceAs
    (Decidable (∀ edge ∈ graph.edges,
      min (graph.numTokens - 1) maxHops * graph.totalGain + gain edge ≤
        2 ^ 31))

/-- A graph with a negative cycle has a largest weight. -/
theorem exists_weightBound
    (bounded : graph.Bounded)
    {hops : List PriceEdge}
    (simple : graph.SimpleCycle hops)
    (negative : weightOf hops < 0) :
    ∃ largest, graph.WeightBound largest := by
  obtain ⟨hop, hopMember, hopNegative⟩ :
      ∃ hop ∈ hops, hop.weight < 0 := by
    by_contra noNegative
    push Not at noNegative
    have atLeastZero : 0 ≤ weightOf hops := by
      refine List.sum_nonneg ?_
      intro weight member
      obtain ⟨hop, hopMember, rfl⟩ := List.mem_map.mp member
      exact noNegative hop hopMember
    omega
  have hopEdge := simple.edges hop hopMember
  obtain ⟨heaviest, heaviestMember, heavier⟩ :=
    Finset.exists_max_image graph.edges.toFinset
      (fun edge => edge.weight.natAbs)
      ⟨hop, List.mem_toFinset.mpr hopEdge⟩
  have heaviestEdge := List.mem_toFinset.mp heaviestMember
  refine ⟨heaviest.weight.natAbs, ?_, bounded.lightEdges _ heaviestEdge, ?_⟩
  · have atLeast := heavier hop (List.mem_toFinset.mpr hopEdge)
    omega
  · intro edge member
    exact heavier edge (List.mem_toFinset.mpr member)

/-- A negative cycle of at least two and at most so many hops. -/
structure ShortGain
    (graph : PriceGraph)
    (maxHops : Nat)
    (hops : List PriceEdge) : Prop where
  simple : graph.SimpleCycle hops
  twoHops : 2 ≤ hops.length
  short : hops.length ≤ maxHops
  negative : weightOf hops < 0

/--
If some negative cycle within the hop limit leads to no negative cycle outside
of it, and no distance can saturate, then the search finds a cycle within the
hop limit.
-/
theorem findArbitrageCycles_finds
    (graph : PriceGraph)
    (bounded : graph.Bounded)
    (fewTokens : graph.numTokens ≤ maxTokens)
    (maxHops : Nat)
    (fit : graph.DistancesFit maxHops)
    (within :
      ∃ hops, graph.ShortGain maxHops hops ∧
        ∀ hop ∈ hops, graph.NegativeCyclesWithin maxHops hop.src) :
    ∃ cycles,
      graph.findArbitrageCycles maxHops = .ok cycles ∧
        ∃ cycle ∈ cycles, cycle.path.length ≤ maxHops := by
  obtain ⟨hops, ⟨hopsSimple, twoHops, short, hopsNegative⟩, within⟩ := within
  obtain ⟨largest, bound⟩ :=
    exists_weightBound bounded hopsSimple hopsNegative
  -- Enter the cycle where its first two edges are relaxed in one round.
  obtain ⟨steps, first, second, later, rotated, inOrder⟩ :=
    exists_ordered_rotation hopsSimple twoHops
  have simple := hopsSimple.rotate steps
  have negative : weightOf (hops.rotate steps) < 0 :=
    (weightOf_rotate hops steps).trans_lt hopsNegative
  have cycleShort : (hops.rotate steps).length ≤ maxHops :=
    (List.length_rotate hops steps).trans_le short
  have firstMember : first ∈ hops := by
    rw [← List.mem_rotate (n := steps), rotated]
    exact List.mem_cons_self
  rw [rotated] at simple negative cycleShort
  have firstEdge := simple.edges first List.mem_cons_self
  have inRange := (graph.edgesInRange first firstEdge).1
  have sound := sound_finalSearch graph maxHops first.src
  have reached :
      (graph.finalSearch maxHops first.src).Reached graph first.src
        (0 + min (graph.numTokens - 1) maxHops * graph.totalGain) :=
    reached_rounds bounded (graph.sound_initialSearch first.src)
      (reached_initialSearch inRange) _
  rw [Nat.zero_add] at reached
  have dstReached {hop : PriceEdge}
      (member : hop ∈ first :: second :: later) :=
    reached_cycle bound simple cycleShort inOrder negative member
  have belowZero :
      (graph.finalSearch maxHops first.src).labels.dist first.src < 0 :=
    (dist_finalSearch_before bound simple cycleShort inOrder
      (List.append_nil _).symm (by simp) simple.walksTo).trans_lt negative
  obtain ⟨edge, edgeMember, newDist, offered⟩ :=
    exists_offer simple negative
      (fun hop member => by
        obtain ⟨other, otherMember, same⟩ := simple.src_mem_dst member
        exact same ▸ dstReached otherMember)
      reached.above fit
  have graphEdge := simple.edges edge edgeMember
  obtain ⟨cycle, reconstructed, cycleWithin⟩ :=
    reconstructCycle_finds bounded sound reached belowZero
      (within first firstMember)
      (graph.edgesInRange edge graphEdge).2 (dstReached edgeMember)
  exact findArbitrageCycles_of_offer bounded fewTokens inRange graphEdge
    offered reconstructed cycleWithin

/-- The gaining triangle is found within three hops. -/
theorem gainingTriangle_is_found :
    ∃ cycles,
      gainingTriangle.findArbitrageCycles 3 = .ok cycles ∧
        ∃ cycle ∈ cycles, cycle.path.length ≤ 3 := by
  refine findArbitrageCycles_finds gainingTriangle
    ⟨by decide, by decide⟩ (by decide) 3 (by decide +kernel)
    ⟨gainingTriangle.edges,
      ⟨⟨fun _ member => member, by decide, by decide⟩,
        by decide, by decide, by decide⟩, ?_⟩
  intro _ _ hops simple negative _
  refine ⟨?_, simple.length_le⟩
  rcases hops with _ | ⟨first, _ | ⟨second, later⟩⟩
  · exact absurd negative (by decide)
  · -- No edge of the triangle is a loop.
    have loop : first.dst = first.src := by
      simpa using simple.linked
    have noLoop :
        ∀ edge ∈ gainingTriangle.edges, edge.dst ≠ edge.src := by
      decide
    exact absurd loop (noLoop first (simple.edges first (by simp)))
  · simp

/-- A gain of 1 over two hops, and a gain of 100 over four. -/
def maskedPair : PriceGraph where
  edges := [⟨0, 1, 0, -1, true⟩, ⟨1, 0, 1, 0, true⟩, ⟨0, 2, 2, -40, true⟩,
    ⟨2, 3, 3, -30, true⟩, ⟨3, 1, 4, -30, true⟩]
  numTokens := 4
  tokenToNode := [(1, 0), (2, 1), (3, 2), (4, 3)]
  edgesInRange := by decide
  nodesInRange := by decide

/-- Ten swaps back and forth, each of which gains as much as is allowed. -/
def saturatedPair : PriceGraph where
  edges :=
    [⟨0, 1, 0, -2 ^ 28, true⟩, ⟨1, 0, 1, -2 ^ 28, true⟩,
      ⟨0, 1, 2, -2 ^ 28, true⟩, ⟨1, 0, 3, -2 ^ 28, true⟩,
      ⟨0, 1, 4, -2 ^ 28, true⟩, ⟨1, 0, 5, -2 ^ 28, true⟩,
      ⟨0, 1, 6, -2 ^ 28, true⟩, ⟨1, 0, 7, -2 ^ 28, true⟩,
      ⟨0, 1, 8, -2 ^ 28, true⟩, ⟨1, 0, 9, -2 ^ 28, true⟩]
  numTokens := 2
  tokenToNode := [(1, 0), (2, 1)]
  edgesInRange := by decide
  nodesInRange := by decide

/--
With a limit of two hops a longer cycle hides the shorter one, and distances
that have saturated hide any cycle.
-/
theorem short_gains_are_missed :
    (maskedPair.Bounded ∧ maskedPair.numTokens ≤ maxTokens ∧
      (∃ hops, maskedPair.ShortGain 2 hops) ∧
      maskedPair.findArbitrageCycles 2 = .ok []) ∧
    (saturatedPair.Bounded ∧ saturatedPair.numTokens ≤ maxTokens ∧
      (∃ hops, saturatedPair.ShortGain 2 hops) ∧
      saturatedPair.findArbitrageCycles 2 = .ok []) := by
  refine ⟨⟨⟨by decide, by decide⟩, by decide, ?_, by decide +kernel⟩,
    ⟨by decide, by decide⟩, by decide, ?_, by decide +kernel⟩
  · exact ⟨[⟨0, 1, 0, -1, true⟩, ⟨1, 0, 1, 0, true⟩],
      ⟨by decide, by decide, by decide⟩, by decide, by decide, by decide⟩
  · exact ⟨[⟨0, 1, 0, -2 ^ 28, true⟩, ⟨1, 0, 1, -2 ^ 28, true⟩],
      ⟨by decide, by decide, by decide⟩, by decide, by decide, by decide⟩

end PriceGraph

end YieldDaemon
