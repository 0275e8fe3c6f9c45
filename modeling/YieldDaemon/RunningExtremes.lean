import Mathlib.Tactic

namespace RunningExtremes

/-!
# Running extremes of a sequence

A scan keeps the smallest value so far and its position.  One that compares
each position with the best before it ends on the first smallest value.  One
that compares the positions of a group with the best before the whole group
keeps the last of those that are smaller, which need not be the smallest.  For
the largest value the order is turned around.
-/

/-- The best value so far and its position. -/
structure Best (Value : Type) where
  value : Value
  idx : Nat
  deriving DecidableEq

variable {Value : Type} [LinearOrder Value] (value : Nat → Value)

/-- Take a position if its value is smaller than a bound. -/
def takeBelow (bound : Value) (best : Best Value) (i : Nat) : Best Value :=
  if value i < bound then ⟨value i, i⟩ else best

/-- Compare a position with the best so far. -/
def improve (best : Best Value) (i : Nat) : Best Value :=
  takeBelow value best.value best i

/-- Compare the positions of a group with the best before the group. -/
def improveLast (best : Best Value) (group : List Nat) : Best Value :=
  group.foldl (takeBelow value best.value) best

/-- Compare group after group. -/
def scanGroups (best : Best Value) (groups : List (List Nat)) : Best Value :=
  groups.foldl (improveLast value) best

variable
  {value : Nat → Value}
  {best : Best Value}
  {group : List Nat}
  {groups : List (List Nat)}
  {position count : Nat}

/-- The first position of a smallest value among the first `count` ones. -/
structure IsFirstLeast
    (value : Nat → Value)
    (count position : Nat) : Prop where
  inRange : position < count
  least : ∀ i < count, value position ≤ value i
  first : ∀ i < position, value position < value i

/-- There is one first smallest value only. -/
theorem IsFirstLeast.unique
    {other : Nat}
    (isFirst : IsFirstLeast value count position)
    (otherIsFirst : IsFirstLeast value count other) :
    position = other := by
  rcases lt_trichotomy position other with before | same | after
  · exact absurd (otherIsFirst.first position before)
      (not_lt.mpr (isFirst.least other otherIsFirst.inRange))
  · exact same
  · exact absurd (isFirst.first other after)
      (not_lt.mpr (otherIsFirst.least position isFirst.inRange))

/-- The next position is the new first smallest one, or the old one stays. -/
theorem IsFirstLeast.improve
    (isFirst : IsFirstLeast value count position) :
    ∃ next,
      IsFirstLeast value (count + 1) next ∧
        improve value ⟨value position, position⟩ count =
          ⟨value next, next⟩ := by
  by_cases smaller : value count < value position
  · refine ⟨count, ⟨Nat.lt_succ_self count, ?_, ?_⟩, if_pos smaller⟩
    · intro i inRange
      rcases Nat.lt_succ_iff_lt_or_eq.mp inRange with earlier | rfl
      · exact smaller.le.trans (isFirst.least i earlier)
      · exact le_refl _
    · exact fun i earlier => smaller.trans_le (isFirst.least i earlier)
  · refine ⟨position, ⟨?_, ?_, isFirst.first⟩, if_neg smaller⟩
    · exact isFirst.inRange.trans (Nat.lt_succ_self count)
    · intro i inRange
      rcases Nat.lt_succ_iff_lt_or_eq.mp inRange with earlier | rfl
      · exact isFirst.least i earlier
      · exact not_lt.mp smaller

/-- A scan from a bound of all values ends on the first smallest one. -/
theorem foldl_improve
    {bound : Value}
    (positive : 0 < count)
    (bounded : value 0 ≤ bound) :
    ∃ position,
      IsFirstLeast value count position ∧
        (List.range count).foldl (improve value) ⟨bound, 0⟩ =
          ⟨value position, position⟩ := by
  induction count, positive using Nat.le_induction with
  | base =>
      refine ⟨0, ⟨Nat.one_pos, ?_, ?_⟩, ?_⟩
      · intro i inRange
        rw [Nat.lt_one_iff.mp inRange]
      · exact fun i earlier => absurd earlier (Nat.not_lt_zero i)
      · rcases bounded.lt_or_eq with smaller | same
        · exact if_pos smaller
        · rw [same]
          exact if_neg (same ▸ lt_irrefl bound)
  | succ count positive inductionHypothesis =>
      obtain ⟨position, isFirst, scanned⟩ := inductionHypothesis
      obtain ⟨next, nextIsFirst, improved⟩ := isFirst.improve
      refine ⟨next, nextIsFirst, ?_⟩
      rw [List.range_succ, List.foldl_append, scanned]
      exact improved

/-- A scan may start with the first position. -/
theorem foldl_improve_rest
    (value : Nat → Value)
    (positive : 0 < count) :
    ∃ position,
      IsFirstLeast value count position ∧
        (List.range' 1 (count - 1)).foldl (improve value) ⟨value 0, 0⟩ =
          ⟨value position, position⟩ := by
  obtain ⟨rest, rfl⟩ := Nat.exists_eq_add_of_le' positive
  obtain ⟨position, isFirst, scanned⟩ :=
    foldl_improve positive (le_refl (value 0))
  have unimproved : improve value ⟨value 0, 0⟩ 0 = ⟨value 0, 0⟩ :=
    if_neg (lt_irrefl _)
  rw [List.range_eq_range', List.range'_succ, List.foldl_cons,
    unimproved] at scanned
  exact ⟨position, isFirst, scanned⟩

/-- Positions that are not smaller than a bound are not taken. -/
theorem foldl_takeBelow_of_le
    {bound : Value}
    (none : ∀ i ∈ group, bound ≤ value i) :
    group.foldl (takeBelow value bound) best = best := by
  induction group generalizing best with
  | nil =>
      rfl
  | cons i group inductionHypothesis =>
      rw [List.forall_mem_cons] at none
      rw [List.foldl_cons, takeBelow, if_neg (not_lt.mpr none.1)]
      exact inductionHypothesis none.2

/-- The last position below a bound is the one that is taken. -/
theorem foldl_takeBelow_of_last
    {bound : Value}
    {before after : List Nat}
    (below : value position < bound)
    (none : ∀ i ∈ after, bound ≤ value i) :
    (before ++ position :: after).foldl (takeBelow value bound) best =
      ⟨value position, position⟩ := by
  rw [List.foldl_append, List.foldl_cons, foldl_takeBelow_of_le none,
    takeBelow, if_pos below]

/-- A group has no position below a bound, or it has a last one. -/
theorem last_below_or_none
    (value : Nat → Value)
    (bound : Value)
    (group : List Nat) :
    (∀ i ∈ group, bound ≤ value i) ∨
      ∃ before position after,
        group = before ++ position :: after ∧
          value position < bound ∧
          ∀ i ∈ after, bound ≤ value i := by
  induction group with
  | nil =>
      exact .inl (List.forall_mem_nil _)
  | cons i group inductionHypothesis =>
      rcases inductionHypothesis with
        none | ⟨before, position, after, rfl, below, none⟩
      · by_cases below : value i < bound
        · exact .inr ⟨[], i, group, rfl, below, none⟩
        · exact .inl (List.forall_mem_cons.mpr ⟨not_lt.mp below, none⟩)
      · exact .inr ⟨i :: before, position, after, rfl, below, none⟩

/--
A position survives the scan of groups: its value is below the best before its
group, no later value of the group is, and none of a later group is below it.
-/
structure Survives
    (value : Nat → Value)
    (start : Best Value)
    (groups : List (List Nat))
    (position : Nat) : Prop where
  splits :
    ∃ earlier before after later,
      groups = earlier ++ (before ++ position :: after) :: later ∧
        value position < (scanGroups value start earlier).value ∧
        (∀ i ∈ after, (scanGroups value start earlier).value ≤ value i) ∧
        ∀ group ∈ later, ∀ i ∈ group, value position ≤ value i

/-- Groups without a smaller value leave the best as it is. -/
theorem scanGroups_of_le
    (none : ∀ group ∈ groups, ∀ i ∈ group, best.value ≤ value i) :
    scanGroups value best groups = best := by
  induction groups with
  | nil =>
      rfl
  | cons group groups inductionHypothesis =>
      rw [List.forall_mem_cons] at none
      have kept : improveLast value best group = best :=
        foldl_takeBelow_of_le none.1
      rw [scanGroups, List.foldl_cons, kept]
      exact inductionHypothesis none.2

/-- The scan ends on the position that survives. -/
theorem Survives.scanGroups_eq
    (survives : Survives value best groups position) :
    scanGroups value best groups = ⟨value position, position⟩ := by
  obtain ⟨earlier, before, after, later, rfl, below, none, least⟩ :=
    survives.splits
  have taken :
      improveLast value (scanGroups value best earlier)
          (before ++ position :: after) =
        ⟨value position, position⟩ :=
    foldl_takeBelow_of_last below none
  unfold scanGroups at taken ⊢
  rw [List.foldl_append, List.foldl_cons, taken]
  exact scanGroups_of_le least

/-- Some position survives the scan, or no value is below the start. -/
theorem survives_or_none
    (value : Nat → Value)
    (start : Best Value)
    (groups : List (List Nat)) :
    (∀ group ∈ groups, ∀ i ∈ group, start.value ≤ value i) ∨
      ∃ position, Survives value start groups position := by
  induction groups using List.reverseRecOn with
  | nil =>
      exact .inl (List.forall_mem_nil _)
  | append_singleton groups group inductionHypothesis =>
      rcases last_below_or_none value (scanGroups value start groups).value
          group with
        none | ⟨before, position, after, rfl, below, none⟩
      · rcases inductionHypothesis with noneBefore | ⟨position, survives⟩
        · rw [scanGroups_of_le noneBefore] at none
          refine .inl fun other member => ?_
          rcases List.mem_append.mp member with isEarlier | isLast
          · exact noneBefore other isEarlier
          · rw [List.mem_singleton.mp isLast]
            exact none
        · rw [survives.scanGroups_eq] at none
          obtain ⟨earlier, before, after, later, rfl, below, noneAfter,
            least⟩ := survives.splits
          refine .inr ⟨position, ⟨earlier, before, after, later ++ [group],
            by simp, below, noneAfter, fun other member => ?_⟩⟩
          rcases List.mem_append.mp member with isEarlier | isLast
          · exact least other isEarlier
          · rw [List.mem_singleton.mp isLast]
            exact none
      · exact .inr ⟨position,
          ⟨groups, before, after, [], rfl, below, none,
            List.forall_mem_nil _⟩⟩

/-- Nothing is taken that is not below the bound. -/
theorem foldl_takeBelow_le
    {bound : Value}
    (under : best.value ≤ bound) :
    (group.foldl (takeBelow value bound) best).value ≤ bound := by
  induction group generalizing best with
  | nil =>
      exact under
  | cons i group inductionHypothesis =>
      rw [List.foldl_cons]
      refine inductionHypothesis ?_
      unfold takeBelow
      split
      · next below => exact below.le
      · exact under

/-- The best of groups is at most the one that the scan starts with. -/
theorem scanGroups_le : (scanGroups value best groups).value ≤ best.value := by
  induction groups generalizing best with
  | nil =>
      exact le_rfl
  | cons group groups inductionHypothesis =>
      rw [scanGroups, List.foldl_cons]
      exact inductionHypothesis.trans (foldl_takeBelow_le le_rfl)

/-- It is at most the last value of any of the groups. -/
theorem scanGroups_le_last
    (before : List Nat)
    (isGroup : before ++ [position] ∈ groups) :
    (scanGroups value best groups).value ≤ value position := by
  induction groups generalizing best with
  | nil =>
      exact absurd isGroup List.not_mem_nil
  | cons group groups inductionHypothesis =>
      rw [scanGroups, List.foldl_cons]
      rcases List.mem_cons.mp isGroup with rfl | later
      · refine scanGroups_le.trans ?_
        rw [improveLast, List.foldl_append, List.foldl_cons, List.foldl_nil]
        unfold takeBelow
        split
        · exact le_rfl
        · next notBelow =>
            exact (foldl_takeBelow_le le_rfl).trans (not_lt.mp notBelow)
      · exact inductionHypothesis later

/-- It is above whatever the start and all values are above. -/
theorem lt_scanGroups
    {lower : Value}
    (start : lower < best.value)
    (all : ∀ group ∈ groups, ∀ i ∈ group, lower < value i) :
    lower < (scanGroups value best groups).value := by
  rcases survives_or_none value best groups with none | ⟨position, survives⟩
  · rwa [scanGroups_of_le none]
  · rw [survives.scanGroups_eq]
    obtain ⟨earlier, before, after, later, rfl, -⟩ := survives.splits
    exact all (before ++ position :: after) (by simp) position (by simp)

/-- A value is below the best of a scan if it is below all that was scanned. -/
theorem lt_foldl_improve_iff
    {positions : List Nat}
    {bound : Value} :
    bound < (positions.foldl (improve value) best).value ↔
      bound < best.value ∧ ∀ i ∈ positions, bound < value i := by
  induction positions generalizing best with
  | nil =>
      simp
  | cons i positions inductionHypothesis =>
      rw [List.foldl_cons, inductionHypothesis, List.forall_mem_cons,
        ← and_assoc]
      refine and_congr_left fun _ => ?_
      unfold improve takeBelow
      by_cases smaller : value i < best.value
      · rw [if_pos smaller]
        exact ⟨fun below => ⟨below.trans smaller, below⟩, And.right⟩
      · rw [if_neg smaller]
        exact ⟨fun below => ⟨below, below.trans_le (not_lt.mp smaller)⟩,
          And.left⟩

/--
If the values of a group below a bound fall, comparing them with the bound is
comparing them with the best so far.
-/
theorem foldl_takeBelow_eq_improve
    {bound : Value}
    (falls :
      group.Pairwise
        (fun first second => value second < bound → value second < value first))
    (under : best.value ≤ bound)
    (first : ∀ i ∈ group, value i < bound → value i < best.value) :
    group.foldl (takeBelow value bound) best =
      group.foldl (improve value) best := by
  induction group generalizing best with
  | nil =>
      rfl
  | cons i group inductionHypothesis =>
      rw [List.forall_mem_cons] at first
      obtain ⟨behind, falls⟩ := List.pairwise_cons.mp falls
      rw [List.foldl_cons, List.foldl_cons]
      by_cases below : value i < bound
      · have taken : takeBelow value bound best i = ⟨value i, i⟩ :=
          if_pos below
        have improved : improve value best i = ⟨value i, i⟩ :=
          if_pos (first.1 below)
        rw [taken, improved]
        exact inductionHypothesis falls below.le behind
      · have kept : takeBelow value bound best i = best := if_neg below
        have same : improve value best i = best :=
          if_neg fun smaller => below (smaller.trans_le under)
        rw [kept, same]
        exact inductionHypothesis falls under first.2

/-- A group that falls from the best before it is scanned one by one. -/
theorem improveLast_of_falls
    (falls :
      group.Pairwise
        (fun first second =>
          value second < best.value → value second < value first)) :
    improveLast value best group = group.foldl (improve value) best :=
  foldl_takeBelow_eq_improve falls le_rfl (fun _ _ below => below)

/-- Single positions are scanned one by one. -/
theorem scanGroups_singletons
    (value : Nat → Value)
    (best : Best Value)
    (positions : List Nat) :
    scanGroups value best (positions.map ([·])) =
      positions.foldl (improve value) best := by
  unfold scanGroups
  rw [List.foldl_map]
  rfl

end RunningExtremes
