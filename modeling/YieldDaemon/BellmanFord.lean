import YieldDaemon.PredecessorGraph
import YieldDaemon.PriceGraph

namespace YieldDaemon

open CheckedArithmetic PredecessorGraph

/-!
# The Bellman-Ford search

The arrays of a search are read as labels of the nodes.  Every access of a
search is in range, one relaxation of the code is one relaxation of the labels,
and so the labels stay supported by the lightest edges of the graph however
many rounds are made.
-/

namespace PriceGraph

/-- Few enough tokens for `u16` nodes, and weights too small to overflow. -/
structure Bounded (graph : PriceGraph) : Prop where
  fewTokens : graph.numTokens < 65535
  lightEdges :
    ∀ edge ∈ graph.edges, graph.numTokens * edge.weight.natAbs < 2 ^ 30

/-- The choice of a lightest edge between two nodes out of a list of edges. -/
def IsBest
    (edges : List PriceEdge)
    (src dst : Nat)
    (best : Option PriceEdge) : Prop :=
  match best with
  | none => ∀ edge ∈ edges, ¬ (edge.src = src ∧ edge.dst = dst)
  | some chosen =>
    chosen ∈ edges ∧ (chosen.src = src ∧ chosen.dst = dst) ∧
      ∀ edge ∈ edges, edge.src = src ∧ edge.dst = dst →
        chosen.weight ≤ edge.weight

/-- One more edge in the scan for a lightest one. -/
theorem isBest_concat
    {edges : List PriceEdge}
    {src dst : Nat}
    {best : Option PriceEdge}
    (isBest : IsBest edges src dst best)
    (edge : PriceEdge) :
    IsBest (edges ++ [edge]) src dst (keepBest src dst best edge) := by
  have split {holds : PriceEdge → Prop} :
      (∀ other ∈ edges ++ [edge], holds other) ↔
        (∀ other ∈ edges, holds other) ∧ holds edge := by
    simp [or_imp, forall_and]
  unfold keepBest
  by_cases connects : edge.src = src ∧ edge.dst = dst
  · rw [if_pos connects]
    cases best with
    | none =>
        refine ⟨by simp, connects, split.mpr ⟨?_, fun _ => le_rfl⟩⟩
        intro other member otherConnects
        exact absurd otherConnects (isBest other member)
    | some chosen =>
        obtain ⟨member, chosenConnects, lightest⟩ := isBest
        by_cases lighter : edge.weight < chosen.weight
        · simp only [lighter, ↓reduceIte]
          refine ⟨by simp, connects, split.mpr ⟨?_, fun _ => le_rfl⟩⟩
          intro other otherMember otherConnects
          exact lighter.le.trans (lightest other otherMember otherConnects)
        · simp only [lighter, ↓reduceIte]
          exact ⟨List.mem_append_left _ member, chosenConnects,
            split.mpr ⟨lightest, fun _ => not_lt.mp lighter⟩⟩
  · rw [if_neg connects]
    cases best with
    | none =>
        exact split.mpr ⟨isBest, connects⟩
    | some chosen =>
        obtain ⟨member, chosenConnects, lightest⟩ := isBest
        exact ⟨List.mem_append_left _ member, chosenConnects,
          split.mpr ⟨lightest, fun isEdge => absurd isEdge connects⟩⟩

variable {graph : PriceGraph}

theorem bestEdge_isBest (graph : PriceGraph) (src dst : Nat) :
    IsBest graph.edges src dst (graph.bestEdge src dst) := by
  unfold bestEdge
  induction graph.edges using List.reverseRecOn with
  | nil =>
      simp [IsBest]
  | append_singleton edges edge inductionHypothesis =>
      rw [List.foldl_append, List.foldl_cons, List.foldl_nil]
      exact isBest_concat inductionHypothesis edge

/-- The weight of a lightest edge between two nodes. -/
def edgeWeight (graph : PriceGraph) (src dst : Nat) : Int :=
  ((graph.bestEdge src dst).map PriceEdge.weight).getD 0

/-- Connected nodes have a lightest edge between them. -/
theorem exists_bestEdge
    {edge : PriceEdge}
    (member : edge ∈ graph.edges) :
    ∃ best, graph.bestEdge edge.src edge.dst = some best := by
  have isBest := graph.bestEdge_isBest edge.src edge.dst
  cases found : graph.bestEdge edge.src edge.dst with
  | none =>
      rw [found] at isBest
      exact absurd ⟨rfl, rfl⟩ (isBest edge member)
  | some best =>
      exact ⟨best, rfl⟩

theorem edgeWeight_le
    {edge : PriceEdge}
    (member : edge ∈ graph.edges) :
    graph.edgeWeight edge.src edge.dst ≤ edge.weight := by
  obtain ⟨best, found⟩ := exists_bestEdge member
  have isBest := graph.bestEdge_isBest edge.src edge.dst
  rw [found] at isBest
  obtain ⟨-, -, lightest⟩ := isBest
  rw [edgeWeight, found]
  exact lightest edge member ⟨rfl, rfl⟩

namespace Search

/-- The arrays of a search as labels of the nodes. -/
def labels (search : Search) : Labels Nat where
  dist node := search.dist.getD node unreached
  pred node :=
    match search.pred[node]? with
    | some previous =>
      if previous.node = noNode then none else some previous.node
    | none => none

/-- Both arrays have an entry for every node. -/
structure Fits (search : Search) (numTokens : Nat) : Prop where
  dist : search.dist.length = numTokens
  pred : search.pred.length = numTokens

/-- The distance that an edge offers, if it is a smaller one. -/
def offer (search : Search) (edge : PriceEdge) : Option Int :=
  let newDist :=
    saturatingAdd (search.labels.dist edge.src) edge.weight
  if search.labels.dist edge.src < unreached ∧
      newDist < search.labels.dist edge.dst then
    some newDist
  else
    none

/-- The search after one edge. -/
def relaxed (search : Search) (edge : PriceEdge) : Search :=
  match search.offer edge with
  | some newDist =>
    ⟨search.dist.set edge.dst newDist,
      search.pred.set edge.dst ⟨edge.src, edge.poolIdx, edge.xToY⟩⟩
  | none => search

/-- The search after a pass over some edges. -/
def pass (edges : List PriceEdge) (search : Search) : Search :=
  edges.foldl relaxed search

end Search

variable {search : Search}

/-- A pass keeps what each relaxation of one of its edges keeps. -/
theorem pass_keeps
    (keeps : Search → Prop)
    {edges : List PriceEdge}
    (relaxes :
      ∀ search, keeps search → ∀ edge ∈ edges, keeps (search.relaxed edge))
    (start : keeps search) :
    keeps (search.pass edges) :=
  List.foldlRecOn edges Search.relaxed start relaxes

/-- Rounds keep what a pass keeps. -/
theorem rounds_keep
    (keeps : Search → Prop)
    {edges : List PriceEdge}
    (passes : ∀ search, keeps search → keeps (search.pass edges))
    (start : keeps search)
    (rounds : Nat) :
    keeps ((Search.pass edges)^[rounds] search) :=
  Function.Iterate.rec keeps start passes rounds

theorem index_dist
    (fits : search.Fits graph.numTokens)
    {node : Nat}
    (inRange : node < graph.numTokens) :
    index search.dist node = .ok (search.labels.dist node) := by
  have inDist : node < search.dist.length := fits.dist ▸ inRange
  rw [index_of_lt inDist]
  simp [Search.labels, inDist]

/-- The offer of an edge is computed without a panic. -/
theorem relaxation_eq
    (fits : search.Fits graph.numTokens)
    {edge : PriceEdge}
    (member : edge ∈ graph.edges) :
    relaxation search edge = .ok (search.offer edge) := by
  obtain ⟨srcInRange, dstInRange⟩ := graph.edgesInRange edge member
  unfold relaxation Search.offer
  rw [index_dist fits srcInRange, index_dist fits dstInRange]
  by_cases reached : search.labels.dist edge.src < unreached
  · by_cases lower :
        saturatingAdd (search.labels.dist edge.src) edge.weight <
          search.labels.dist edge.dst
    · simp [reached, lower]
    · simp [reached, lower]
  · simp [reached]

theorem fits_relaxed
    (fits : search.Fits graph.numTokens)
    (edge : PriceEdge) :
    (search.relaxed edge).Fits graph.numTokens := by
  unfold Search.relaxed
  cases search.offer edge with
  | none =>
      exact fits
  | some newDist =>
      exact ⟨by simpa using fits.dist, by simpa using fits.pred⟩

/-- One step of a pass is computed without a panic. -/
theorem relaxEdge_eq
    (fits : search.Fits graph.numTokens)
    {edge : PriceEdge}
    (member : edge ∈ graph.edges)
    (updated : Bool) :
    relaxEdge (search, updated) edge =
      .ok (search.relaxed edge,
        updated || (search.offer edge).isSome) := by
  obtain ⟨-, dstInRange⟩ := graph.edgesInRange edge member
  unfold relaxEdge Search.relaxed
  rw [relaxation_eq fits member]
  cases offered : search.offer edge with
  | none =>
      simp
  | some newDist =>
      simp [store_of_lt (fits.dist ▸ dstInRange : edge.dst < search.dist.length),
        store_of_lt (fits.pred ▸ dstInRange : edge.dst < search.pred.length)]

/-- A pass is computed without a panic, and notes any change it makes. -/
theorem foldlM_relaxEdge
    (fits : search.Fits graph.numTokens)
    {edges : List PriceEdge}
    (members : ∀ edge ∈ edges, edge ∈ graph.edges)
    (updated : Bool) :
    ∃ changed,
      edges.foldlM relaxEdge (search, updated) =
          .ok (search.pass edges, changed) ∧
        (changed = false → updated = false ∧ search.pass edges = search) := by
  induction edges generalizing search updated with
  | nil =>
      exact ⟨updated, rfl, fun unchanged => ⟨unchanged, rfl⟩⟩
  | cons edge edges inductionHypothesis =>
      have member := members edge List.mem_cons_self
      obtain ⟨changed, computed, unchangedOf⟩ :=
        inductionHypothesis (fits_relaxed fits edge)
          (fun other otherMember =>
            members other (List.mem_cons_of_mem edge otherMember))
          (updated || (search.offer edge).isSome)
      refine ⟨changed, ?_, ?_⟩
      · rw [List.foldlM_cons, relaxEdge_eq fits member, Checked.ok_bind,
          computed]
        rfl
      · intro unchanged
        obtain ⟨noUpdate, same⟩ := unchangedOf unchanged
        obtain ⟨notBefore, noOffer⟩ := Bool.or_eq_false_iff.mp noUpdate
        have keeps : search.relaxed edge = search := by
          unfold Search.relaxed
          rw [Option.isSome_eq_false_iff, Option.isNone_iff_eq_none] at noOffer
          rw [noOffer]
        refine ⟨notBefore, ?_⟩
        rw [keeps] at same
        rw [Search.pass, List.foldl_cons, keeps]
        exact same

theorem fits_pass
    (fits : search.Fits graph.numTokens)
    (edges : List PriceEdge) :
    (search.pass edges).Fits graph.numTokens := by
  refine pass_keeps (fun search => search.Fits graph.numTokens) ?_ fits
  intro search kept edge _
  exact fits_relaxed kept edge

/-- Stopping at the first pass without a change leaves out no change. -/
theorem relaxRounds_eq
    (fits : search.Fits graph.numTokens)
    (rounds : Nat) :
    graph.relaxRounds rounds search =
      .ok ((Search.pass graph.edges)^[rounds] search) := by
  induction rounds generalizing search with
  | zero =>
      rfl
  | succ rounds inductionHypothesis =>
      obtain ⟨changed, computed, unchangedOf⟩ :=
        foldlM_relaxEdge fits (fun _ member => member) false
      rw [relaxRounds, computed, Checked.ok_bind, Function.iterate_succ_apply]
      cases changed with
      | true =>
          exact inductionHypothesis (fits_pass fits graph.edges)
      | false =>
          obtain ⟨-, same⟩ := unchangedOf rfl
          rw [same, Function.iterate_fixed same]
          rfl

/-- The offer of an edge, as a case distinction. -/
theorem offer_eq_some {edge : PriceEdge} {newDist : Int} :
    search.offer edge = some newDist ↔
      search.labels.dist edge.src < unreached ∧
        saturatingAdd (search.labels.dist edge.src) edge.weight = newDist ∧
        newDist < search.labels.dist edge.dst := by
  unfold Search.offer
  constructor
  · intro offered
    dsimp only at offered
    split_ifs at offered with smaller
    obtain rfl := Option.some.inj offered
    exact ⟨smaller.1, rfl, smaller.2⟩
  · rintro ⟨reached, rfl, lower⟩
    exact if_pos ⟨reached, lower⟩

/-- A relaxation of the arrays lowers the distance of its target. -/
theorem dist_relaxed
    (fits : search.Fits graph.numTokens)
    {edge : PriceEdge}
    (member : edge ∈ graph.edges)
    {newDist : Int}
    (offered : search.offer edge = some newDist) :
    (search.relaxed edge).labels.dist =
      Function.update search.labels.dist edge.dst newDist := by
  have dstInDist : edge.dst < search.dist.length :=
    fits.dist ▸ (graph.edgesInRange edge member).2
  unfold Search.relaxed Search.labels
  rw [offered]
  funext node
  by_cases isDst : node = edge.dst
  · subst isDst
    simp [dstInDist]
  · simp [Function.update_of_ne isDst, List.getElem?_set_ne (Ne.symm isDst)]

/-- It makes the source of the edge the predecessor of its target. -/
theorem pred_relaxed
    (fits : search.Fits graph.numTokens)
    {edge : PriceEdge}
    (member : edge ∈ graph.edges)
    {newDist : Int}
    (offered : search.offer edge = some newDist) :
    (search.relaxed edge).labels.pred =
      Function.update search.labels.pred edge.dst
        (if edge.src = noNode then none else some edge.src) := by
  have dstInPred : edge.dst < search.pred.length :=
    fits.pred ▸ (graph.edgesInRange edge member).2
  unfold Search.relaxed Search.labels
  rw [offered]
  funext node
  by_cases isDst : node = edge.dst
  · subst isDst
    simp [dstInPred]
  · simp [Function.update_of_ne isDst, List.getElem?_set_ne (Ne.symm isDst)]

/-- A relaxation of the arrays is a relaxation of the labels. -/
theorem labels_relaxed
    (fits : search.Fits graph.numTokens)
    {edge : PriceEdge}
    (member : edge ∈ graph.edges)
    (isNode : edge.src ≠ noNode)
    {newDist : Int}
    (offered : search.offer edge = some newDist) :
    (search.relaxed edge).labels =
      search.labels.relax edge.src edge.dst newDist := by
  have pred := pred_relaxed fits member offered
  rw [if_neg isNode] at pred
  exact congrArg₂ Labels.mk (dist_relaxed fits member offered) pred

/-- From the node that stands for no predecessor it leaves the target without. -/
theorem labels_unlinked
    (fits : search.Fits graph.numTokens)
    {edge : PriceEdge}
    (member : edge ∈ graph.edges)
    (isNone : edge.src = noNode)
    {newDist : Int}
    (offered : search.offer edge = some newDist) :
    (search.relaxed edge).labels =
      search.labels.unlink edge.dst newDist := by
  have pred := pred_relaxed fits member offered
  rw [if_pos isNone] at pred
  exact congrArg₂ Labels.mk (dist_relaxed fits member offered) pred

/-- Distances only decrease. -/
theorem dist_relaxed_le
    (fits : search.Fits graph.numTokens)
    {edge : PriceEdge}
    (member : edge ∈ graph.edges)
    (node : Nat) :
    (search.relaxed edge).labels.dist node ≤ search.labels.dist node := by
  cases offered : search.offer edge with
  | none =>
      rw [Search.relaxed, offered]
  | some newDist =>
      rw [dist_relaxed fits member offered]
      by_cases isDst : node = edge.dst
      · subst isDst
        rw [Function.update_self]
        exact (offer_eq_some.mp offered).2.2.le
      · rw [Function.update_of_ne isDst]

theorem Bounded.isNode
    (bounded : graph.Bounded)
    {edge : PriceEdge}
    (member : edge ∈ graph.edges) :
    edge.src ≠ noNode :=
  ((graph.edgesInRange edge member).1.trans bounded.fewTokens).ne

/-- No sum that is an offer has saturated upwards. -/
theorem add_le_of_offer
    {distance weight newDist current : Int}
    (sum : saturatingAdd distance weight = newDist)
    (lower : newDist < current)
    (capped : current ≤ unreached) :
    distance + weight ≤ newDist := by
  unfold saturatingAdd i32Min at sum
  unfold unreached i32Max at *
  omega

/-! Whatever the weights are, predecessors are linked by edges. -/

/-- Every predecessor is the source of an edge to its node. -/
structure Search.Linked (search : Search) (graph : PriceGraph) : Prop where
  fits : search.Fits graph.numTokens
  linked :
    ∀ {node previous},
      search.labels.pred node = some previous →
      ∃ edge ∈ graph.edges, edge.src = previous ∧ edge.dst = node

theorem linked_relaxed
    (isLinked : search.Linked graph)
    {edge : PriceEdge}
    (member : edge ∈ graph.edges) :
    (search.relaxed edge).Linked graph := by
  refine ⟨fits_relaxed isLinked.fits edge, ?_⟩
  intro node previous linked
  unfold Search.relaxed at linked
  cases offered : search.offer edge with
  | none =>
      rw [offered] at linked
      exact isLinked.linked linked
  | some newDist =>
      rw [offered] at linked
      simp only [Search.labels] at linked
      by_cases isDst : node = edge.dst
      · subst isDst
        obtain ⟨-, dstInRange⟩ := graph.edgesInRange edge member
        rw [List.getElem?_set_self (isLinked.fits.pred ▸ dstInRange)] at linked
        dsimp only at linked
        split_ifs at linked
        exact ⟨edge, member, Option.some.inj linked, rfl⟩
      · rw [List.getElem?_set_ne (Ne.symm isDst)] at linked
        exact isLinked.linked linked

theorem linked_pass
    (isLinked : search.Linked graph)
    {edges : List PriceEdge}
    (members : ∀ edge ∈ edges, edge ∈ graph.edges) :
    (search.pass edges).Linked graph := by
  refine pass_keeps (fun search => search.Linked graph) ?_ isLinked
  intro search kept edge member
  exact linked_relaxed kept (members edge member)

/-- What holds of the arrays at every point of a search. -/
structure Search.Sound (search : Search) (graph : PriceGraph) : Prop where
  fits : search.Fits graph.numTokens
  capped : ∀ node, search.labels.dist node ≤ unreached
  supported : Supported graph.edgeWeight search.labels
  linked :
    ∀ {node previous},
      search.labels.pred node = some previous →
      ∃ edge ∈ graph.edges, edge.src = previous ∧ edge.dst = node

theorem Search.Sound.isLinked (sound : search.Sound graph) :
    search.Linked graph :=
  ⟨sound.fits, sound.linked⟩

theorem sound_relaxed
    (sound : search.Sound graph)
    {edge : PriceEdge}
    (member : edge ∈ graph.edges) :
    (search.relaxed edge).Sound graph := by
  refine ⟨fits_relaxed sound.fits edge,
    fun node => (dist_relaxed_le sound.fits member node).trans
      (sound.capped node), ?_, (linked_relaxed sound.isLinked member).linked⟩
  cases offered : search.offer edge with
  | none =>
      have same : search.relaxed edge = search := by
        rw [Search.relaxed, offered]
      rw [same]
      exact sound.supported
  | some newDist =>
      obtain ⟨-, sum, lower⟩ := offer_eq_some.mp offered
      by_cases isNone : edge.src = noNode
      · rw [labels_unlinked sound.fits member isNone offered]
        exact sound.supported.unlink lower
      · rw [labels_relaxed sound.fits member isNone offered]
        apply sound.supported.relax _ lower
        calc
          search.labels.dist edge.src + graph.edgeWeight edge.src edge.dst
              ≤ search.labels.dist edge.src + edge.weight := by
            have lightest := edgeWeight_le member
            omega
          _ ≤ newDist :=
            add_le_of_offer sum lower (sound.capped edge.dst)

theorem sound_pass
    (sound : search.Sound graph)
    {edges : List PriceEdge}
    (members : ∀ edge ∈ edges, edge ∈ graph.edges) :
    (search.pass edges).Sound graph := by
  refine pass_keeps (fun search => search.Sound graph) ?_ sound
  intro search kept edge member
  exact sound_relaxed kept (members edge member)

theorem sound_rounds
    (sound : search.Sound graph)
    (rounds : Nat) :
    ((Search.pass graph.edges)^[rounds] search).Sound graph := by
  refine rounds_keep (fun search => search.Sound graph) ?_ sound rounds
  intro search kept
  exact sound_pass kept (fun _ member => member)

/-- The arrays before the first round: only the source has a distance. -/
def initialSearch (graph : PriceGraph) (source : Nat) : Search where
  dist := (List.replicate graph.numTokens unreached).set source 0
  pred := List.replicate graph.numTokens ⟨noNode, noNode, false⟩

theorem initialSearch_pred (graph : PriceGraph) (source node : Nat) :
    (graph.initialSearch source).labels.pred node = none := by
  unfold initialSearch Search.labels
  by_cases inRange : node < graph.numTokens <;> simp [inRange, noNode]

theorem initialSearch_dist_le (graph : PriceGraph) (source node : Nat) :
    (graph.initialSearch source).labels.dist node ≤ unreached := by
  unfold initialSearch Search.labels
  by_cases isSource : node = source
  · subst isSource
    by_cases inRange : node < graph.numTokens <;>
      simp [inRange, unreached, i32Max]
  · by_cases inRange : node < graph.numTokens <;>
      simp [Ne.symm isSource, inRange]

theorem sound_initialSearch (graph : PriceGraph) (source : Nat) :
    (graph.initialSearch source).Sound graph where
  fits := ⟨by simp [initialSearch], by simp [initialSearch]⟩
  capped := graph.initialSearch_dist_le source
  supported := supported_of_no_pred (graph.initialSearch_pred source)
  linked := by
    intro node previous linked
    simp [graph.initialSearch_pred source] at linked

/-- The search after all its rounds. -/
def finalSearch (graph : PriceGraph) (maxHops source : Nat) : Search :=
  (Search.pass graph.edges)^[min (graph.numTokens - 1) maxHops]
    (graph.initialSearch source)

theorem searchFrom_eq
    {source : Nat}
    (inRange : source < graph.numTokens)
    (maxHops : Nat) :
    graph.searchFrom maxHops source =
      .ok (graph.finalSearch maxHops source) := by
  have inDist :
      source < (List.replicate graph.numTokens unreached).length := by
    simpa using inRange
  unfold searchFrom
  rw [store_of_lt inDist, Checked.ok_bind]
  exact relaxRounds_eq (graph.sound_initialSearch source).fits _

theorem linked_finalSearch (graph : PriceGraph) (maxHops source : Nat) :
    (graph.finalSearch maxHops source).Linked graph := by
  refine rounds_keep (fun search => search.Linked graph) ?_
    (graph.sound_initialSearch source).isLinked _
  intro search kept
  exact linked_pass kept (fun _ member => member)

theorem sound_finalSearch (graph : PriceGraph) (maxHops source : Nat) :
    (graph.finalSearch maxHops source).Sound graph :=
  sound_rounds (graph.sound_initialSearch source) _

end PriceGraph

end YieldDaemon
