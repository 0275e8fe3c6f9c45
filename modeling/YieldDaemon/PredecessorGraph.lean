import Mathlib.Dynamics.PeriodicPts.Defs
import Mathlib.Tactic

namespace PredecessorGraph

/-!
# Distances with predecessors

A relaxation lowers the distance of a node and makes another node its
predecessor.  The predecessors then support the distances: a node is no closer
than its predecessor and the edge between them, and somewhere on every cycle of
predecessors it is strictly farther.  So a cycle of predecessors has negative
weight, no matter in which order edges were relaxed and when this stopped.
-/

variable {Node : Type}

/-- The distance of every node, and its predecessor if it has one. -/
structure Labels (Node : Type) where
  dist : Node → ℤ
  pred : Node → Option Node

/-- A walk along predecessors that ends where it starts. -/
structure ClosedWalk
    (pred : Node → Option Node)
    (walk : ℕ → Node)
    (length : ℕ) : Prop where
  positive : 0 < length
  linked : ∀ i < length, pred (walk i) = some (walk (i + 1))
  closed : walk length = walk 0

/-- Distances that are supported by their predecessors. -/
structure Supported (weight : Node → Node → ℤ) (labels : Labels Node) :
    Prop where
  slack :
    ∀ {node previous},
      labels.pred node = some previous →
      labels.dist previous + weight previous node ≤ labels.dist node
  strict :
    ∀ {walk length},
      ClosedWalk labels.pred walk length →
      ∃ i < length,
        labels.dist (walk (i + 1)) + weight (walk (i + 1)) (walk i) <
          labels.dist (walk i)

section Relaxation

variable {weight : Node → Node → ℤ} {labels : Labels Node}

/-- The weight of a cycle of predecessors is negative. -/
theorem Supported.closedWalk_negative
    (supported : Supported weight labels)
    {walk : ℕ → Node}
    {length : ℕ}
    (cycle : ClosedWalk labels.pred walk length) :
    ∑ i ∈ Finset.range length, weight (walk (i + 1)) (walk i) < 0 := by
  have below :
      ∑ i ∈ Finset.range length,
          (labels.dist (walk (i + 1)) + weight (walk (i + 1)) (walk i)) <
        ∑ i ∈ Finset.range length, labels.dist (walk i) := by
    apply Finset.sum_lt_sum
    · intro i member
      exact supported.slack (cycle.linked i (Finset.mem_range.mp member))
    · obtain ⟨i, inRange, farther⟩ := supported.strict cycle
      exact ⟨i, Finset.mem_range.mpr inRange, farther⟩
  have around :
      ∑ i ∈ Finset.range length, labels.dist (walk (i + 1)) =
        ∑ i ∈ Finset.range length, labels.dist (walk i) := by
    have telescope :=
      Finset.sum_range_sub (fun i => labels.dist (walk i)) length
    rw [Finset.sum_sub_distrib, cycle.closed, sub_self] at telescope
    exact sub_eq_zero.mp telescope
  rw [Finset.sum_add_distrib, around] at below
  exact neg_of_add_lt_right below

/-- Labels without predecessors support any distances. -/
theorem supported_of_no_pred
    (noPred : ∀ node, labels.pred node = none) :
    Supported weight labels where
  slack linked := by
    simp [noPred] at linked
  strict cycle := by
    have linked := cycle.linked 0 cycle.positive
    simp [noPred] at linked

variable [DecidableEq Node]

/-- Lower the distance of a node and set its predecessor. -/
def Labels.relax
    (labels : Labels Node)
    (previous node : Node)
    (distance : ℤ) : Labels Node where
  dist := Function.update labels.dist node distance
  pred := Function.update labels.pred node (some previous)

variable {previous node other : Node} {distance : ℤ}

@[simp] theorem Labels.relax_dist_self :
    (labels.relax previous node distance).dist node = distance := by
  simp [Labels.relax]

@[simp] theorem Labels.relax_dist_of_ne (isOther : other ≠ node) :
    (labels.relax previous node distance).dist other =
      labels.dist other := by
  simp [Labels.relax, isOther]

@[simp] theorem Labels.relax_pred_self :
    (labels.relax previous node distance).pred node = some previous := by
  simp [Labels.relax]

@[simp] theorem Labels.relax_pred_of_ne (isOther : other ≠ node) :
    (labels.relax previous node distance).pred other =
      labels.pred other := by
  simp [Labels.relax, isOther]

/-- A walk along new predecessors that avoids the node was there before. -/
theorem ClosedWalk.of_relax
    {walk : ℕ → Node}
    {length : ℕ}
    (cycle : ClosedWalk (labels.relax previous node distance).pred walk length)
    (avoids : ∀ i ≤ length, walk i ≠ node) :
    ClosedWalk labels.pred walk length where
  positive := cycle.positive
  linked i inRange := by
    have linked := cycle.linked i inRange
    rwa [Labels.relax_pred_of_ne (avoids i inRange.le)] at linked
  closed := cycle.closed

/-- A relaxation that lowers a distance keeps the distances supported. -/
theorem Supported.relax
    (supported : Supported weight labels)
    (reached : labels.dist previous + weight previous node ≤ distance)
    (lower : distance < labels.dist node) :
    Supported weight (labels.relax previous node distance) where
  slack {target before} linked := by
    by_cases isNode : target = node
    · subst target
      obtain rfl : previous = before := by
        simpa using linked
      rw [Labels.relax_dist_self]
      by_cases isLoop : previous = node
      · subst isLoop
        rw [Labels.relax_dist_self]
        linarith
      · rw [Labels.relax_dist_of_ne isLoop]
        exact reached
    · rw [Labels.relax_pred_of_ne isNode] at linked
      have slack := supported.slack linked
      rw [Labels.relax_dist_of_ne isNode]
      by_cases fromNode : before = node
      · subst before
        rw [Labels.relax_dist_self]
        linarith
      · rw [Labels.relax_dist_of_ne fromNode]
        exact slack
  strict {walk length} cycle := by
    by_cases avoids : ∀ i ≤ length, walk i ≠ node
    · obtain ⟨i, inRange, farther⟩ :=
        supported.strict (cycle.of_relax avoids)
      refine ⟨i, inRange, ?_⟩
      rwa [Labels.relax_dist_of_ne (avoids i inRange.le),
        Labels.relax_dist_of_ne (avoids (i + 1) inRange)]
    · -- The node after which the walk reaches the relaxed one is farther.
      obtain ⟨i, inRange, onNode⟩ :
          ∃ i < length, walk (i + 1) = node := by
        push Not at avoids
        obtain ⟨i, inRange, onNode⟩ := avoids
        rcases i with _ | i
        · refine ⟨length - 1, Nat.sub_lt cycle.positive Nat.one_pos, ?_⟩
          rw [Nat.sub_add_cancel cycle.positive, cycle.closed, onNode]
        · exact ⟨i, inRange, onNode⟩
      refine ⟨i, inRange, ?_⟩
      have linked := cycle.linked i inRange
      rw [onNode] at linked ⊢
      by_cases isLoop : walk i = node
      · rw [isLoop] at linked ⊢
        obtain rfl : previous = node := by
          simpa using linked
        rw [Labels.relax_dist_self]
        linarith
      · rw [Labels.relax_pred_of_ne isLoop] at linked
        have slack := supported.slack linked
        rw [Labels.relax_dist_self, Labels.relax_dist_of_ne isLoop]
        linarith

/-- Lower the distance of a node and leave it without a predecessor. -/
def Labels.unlink
    (labels : Labels Node)
    (node : Node)
    (distance : ℤ) : Labels Node where
  dist := Function.update labels.dist node distance
  pred := Function.update labels.pred node none

@[simp] theorem Labels.unlink_dist :
    (labels.unlink node distance).dist =
      Function.update labels.dist node distance :=
  rfl

@[simp] theorem Labels.unlink_pred :
    (labels.unlink node distance).pred =
      Function.update labels.pred node none :=
  rfl

/-- A node without a predecessor can be lowered to any distance. -/
theorem Supported.unlink
    (supported : Supported weight labels)
    (lower : distance < labels.dist node) :
    Supported weight (labels.unlink node distance) where
  slack {target before} linked := by
    have isOther : target ≠ node := by
      rintro rfl
      simp at linked
    rw [Labels.unlink_pred, Function.update_of_ne isOther] at linked
    have slack := supported.slack linked
    rw [Labels.unlink_dist, Function.update_of_ne isOther]
    by_cases fromNode : before = node
    · subst before
      rw [Function.update_self]
      linarith
    · rw [Function.update_of_ne fromNode]
      exact slack
  strict {walk length} cycle := by
    have avoids (i : ℕ) (inRange : i ≤ length) : walk i ≠ node := by
      intro onNode
      rcases inRange.lt_or_eq with inside | rfl
      · have linked := cycle.linked i inside
        simp [onNode] at linked
      · have linked := cycle.linked 0 cycle.positive
        simp [← cycle.closed, onNode] at linked
    have before : ClosedWalk labels.pred walk length :=
      { positive := cycle.positive
        linked := fun i inRange => by
          have linked := cycle.linked i inRange
          rwa [Labels.unlink_pred,
            Function.update_of_ne (avoids i inRange.le)] at linked
        closed := cycle.closed }
    obtain ⟨i, inRange, farther⟩ := supported.strict before
    refine ⟨i, inRange, ?_⟩
    rwa [Labels.unlink_dist, Function.update_of_ne (avoids i inRange.le),
      Function.update_of_ne (avoids (i + 1) inRange)]

end Relaxation

section Walking

open Function

/-- The predecessor of a node, or the node itself if it has none. -/
def next (pred : Node → Option Node) (node : Node) : Node :=
  (pred node).getD node

variable {pred : Node → Option Node} {start : Node}

theorem pred_eq_some_next (linked : pred start ≠ none) :
    pred start = some (next pred start) := by
  obtain ⟨previous, found⟩ := Option.ne_none_iff_exists'.mp linked
  simp [next, found]

/--
A walk of as many steps as there are nodes ends on a cycle, all of whose nodes
it has passed.
-/
theorem exists_orbit
    {nodes : Finset Node}
    (inside : ∀ i, (next pred)^[i] start ∈ nodes) :
    (next pred)^[nodes.card] start ∈ periodicPts (next pred) ∧
      ∀ m, ∃ i < nodes.card,
        (next pred)^[m] ((next pred)^[nodes.card] start) =
          (next pred)^[i] start := by
  obtain ⟨first, firstIn, second, secondIn, different, same⟩ :=
    Finset.exists_ne_map_eq_of_card_lt_of_maps_to
      (s := Finset.range (nodes.card + 1)) (t := nodes)
      (by simp) (fun i _ => inside i)
  wlog ordered : first < second generalizing first second
  · exact this second secondIn first firstIn different.symm same.symm
      (lt_of_le_of_ne (not_lt.mp ordered) different.symm)
  have secondBound : second ≤ nodes.card :=
    Nat.lt_succ_iff.mp (Finset.mem_range.mp secondIn)
  have periodic :
      IsPeriodicPt (next pred) (second - first)
        ((next pred)^[first] start) := by
    unfold IsPeriodicPt IsFixedPt
    rw [← iterate_add_apply, Nat.sub_add_cancel ordered.le]
    exact same.symm
  have reached (m : ℕ) :
      (next pred)^[m] ((next pred)^[nodes.card] start) =
        (next pred)^[m + (nodes.card - first)]
          ((next pred)^[first] start) := by
    rw [← iterate_add_apply, ← iterate_add_apply]
    congr 1
    omega
  constructor
  · refine ⟨second - first, Nat.sub_pos_of_lt ordered, ?_⟩
    have onCycle := periodic.apply_iterate (nodes.card - first)
    have here := reached 0
    rw [iterate_zero, id_eq, Nat.zero_add] at here
    rwa [here]
  · intro m
    refine ⟨(m + (nodes.card - first)) % (second - first) + first, ?_, ?_⟩
    · have remainder :=
        Nat.mod_lt (m + (nodes.card - first)) (Nat.sub_pos_of_lt ordered)
      omega
    · rw [reached, ← periodic.iterate_mod_apply, ← iterate_add_apply]

end Walking

end PredecessorGraph
