import YieldDaemon.PeakSearch

namespace NarrowingSearch

open PeakSearch (lower upper)

/-!
# Ternary search that drops the compared points

Every round compares a function at the two inner points of a range and drops
the worse one with everything beyond it; of equal ones the upper one is
dropped.  After the rounds the first three points that are left are tried.
Nothing is assumed of the function, so the search finds the largest value
exactly if a point of that value is dropped by no round and is then tried.
-/

/-- The points that are left. -/
structure Range where
  lo : Nat
  hi : Nat
  deriving DecidableEq

/-- The points of a range. -/
def Range.Holds (range : Range) (point : Nat) : Prop :=
  range.lo ≤ point ∧ point ≤ range.hi

variable {Value : Type} [LinearOrder Value] (value : Nat → Value)

/-- The comparison in a range drops a point. -/
def Drops (range : Range) (point : Nat) : Prop :=
  if value (lower range.lo range.hi) < value (upper range.lo range.hi) then
    point ≤ lower range.lo range.hi
  else
    upper range.lo range.hi ≤ point

/-- What the comparison leaves. -/
def narrow (range : Range) : Range :=
  if value (lower range.lo range.hi) < value (upper range.lo range.hi) then
    { range with lo := lower range.lo range.hi + 1 }
  else
    { range with hi := upper range.lo range.hi - 1 }

/-- Rounds until a single point is left. -/
def run : Nat → Range → Range
  | 0, range => range
  | rounds + 1, range =>
    if range.hi ≤ range.lo then
      range
    else
      run rounds (narrow value range)

/-- No round drops the point. -/
def Keeps : Nat → Range → Nat → Prop
  | 0, _, _ => True
  | rounds + 1, range, point =>
    range.lo < range.hi →
      ¬ Drops value range point ∧ Keeps rounds (narrow value range) point

/-- The points that the rounds compare. -/
def compared : Nat → Range → List Nat
  | 0, _ => []
  | rounds + 1, range =>
    if range.hi ≤ range.lo then
      []
    else
      lower range.lo range.hi :: upper range.lo range.hi ::
        compared rounds (narrow value range)

/-- The first three points of a range. -/
def candidates (range : Range) : List Nat :=
  List.range' range.lo (min range.hi (range.lo + 2) + 1 - range.lo)

/-- All points that the search looks at. -/
def visited (rounds : Nat) (range : Range) : List Nat :=
  compared value rounds range ++ candidates (run value rounds range)

variable {value} {range : Range} {rounds point : Nat}

theorem lower_lt (wide : range.lo < range.hi) :
    range.lo ≤ lower range.lo range.hi ∧ lower range.lo range.hi < range.hi := by
  unfold lower
  omega

theorem lt_upper (wide : range.lo < range.hi) :
    range.lo < upper range.lo range.hi ∧ upper range.lo range.hi ≤ range.hi := by
  unfold upper
  omega

/-- A comparison leaves a part of the range. -/
theorem narrow_within
    (value : Nat → Value)
    (wide : range.lo < range.hi) :
    range.lo ≤ (narrow value range).lo ∧
      (narrow value range).lo ≤ (narrow value range).hi ∧
      (narrow value range).hi ≤ range.hi := by
  have m1 := lower_lt wide
  have m2 := lt_upper wide
  unfold narrow
  split
  · exact ⟨m1.1.trans (Nat.le_succ _), m1.2, le_refl _⟩
  · exact ⟨le_refl _, Nat.le_sub_one_of_lt m2.1,
      (Nat.sub_le _ 1).trans m2.2⟩

/-- A comparison leaves the points that it does not drop. -/
theorem narrow_holds_iff
    (wide : range.lo < range.hi)
    (inside : range.Holds point) :
    (narrow value range).Holds point ↔ ¬ Drops value range point := by
  have m2 := lt_upper wide
  obtain ⟨least, most⟩ := inside
  unfold narrow Drops Range.Holds
  split <;> dsimp only
  · exact ⟨fun left => by omega, fun left => ⟨by omega, most⟩⟩
  · exact ⟨fun left => by omega, fun left => ⟨least, by omega⟩⟩

/-- The rounds leave a part of the range. -/
theorem run_within
    (value : Nat → Value)
    (rounds : Nat)
    (ordered : range.lo ≤ range.hi) :
    range.lo ≤ (run value rounds range).lo ∧
      (run value rounds range).lo ≤ (run value rounds range).hi ∧
      (run value rounds range).hi ≤ range.hi := by
  induction rounds generalizing range with
  | zero =>
      exact ⟨le_refl _, ordered, le_refl _⟩
  | succ rounds inductionHypothesis =>
      rw [run]
      split
      · exact ⟨le_refl _, ordered, le_refl _⟩
      · next wide =>
          have part := narrow_within value (Nat.not_le.mp wide)
          have later := inductionHypothesis part.2.1
          exact ⟨part.1.trans later.1, later.2.1, later.2.2.trans part.2.2⟩

/-- Nothing is dropped from a range of one point or none. -/
theorem run_of_le
    (value : Nat → Value)
    (rounds : Nat)
    (single : range.hi ≤ range.lo) :
    run value rounds range = range := by
  cases rounds with
  | zero => rfl
  | succ rounds => exact if_pos single

/-- The points that are left are those that no round drops. -/
theorem run_holds_iff (inside : range.Holds point) :
    (run value rounds range).Holds point ↔ Keeps value rounds range point := by
  induction rounds generalizing range with
  | zero =>
      exact iff_of_true inside trivial
  | succ rounds inductionHypothesis =>
      rw [run, Keeps]
      split
      · next single =>
          exact iff_of_true inside
            (fun wide => absurd wide (Nat.not_lt.mpr single))
      · next wide =>
          rw [Nat.not_le] at wide
          rw [imp_iff_right wide, ← narrow_holds_iff wide inside]
          constructor
          · intro left
            have part := narrow_within value wide
            have later := run_within value rounds part.2.1
            have stays : (narrow value range).Holds point :=
              ⟨later.1.trans left.1, left.2.trans later.2.2⟩
            exact ⟨stays, (inductionHypothesis stays).mp left⟩
          · rintro ⟨stays, kept⟩
            exact (inductionHypothesis stays).mpr kept

theorem mem_candidates :
    point ∈ candidates range ↔
      range.Holds point ∧ point ≤ range.lo + 2 := by
  unfold candidates Range.Holds
  rw [List.mem_range'_1]
  omega

theorem mem_compared (isCompared : point ∈ compared value rounds range) :
    range.Holds point := by
  induction rounds generalizing range with
  | zero =>
      exact absurd isCompared List.not_mem_nil
  | succ rounds inductionHypothesis =>
      rw [compared] at isCompared
      split at isCompared
      · exact absurd isCompared List.not_mem_nil
      · next wide =>
          rw [Nat.not_le] at wide
          have m1 := lower_lt wide
          have m2 := lt_upper wide
          have part := narrow_within value wide
          rcases List.mem_cons.mp isCompared with rfl | isLater
          · exact ⟨m1.1, m1.2.le⟩
          · rcases List.mem_cons.mp isLater with rfl | isLater
            · exact ⟨m2.1.le, m2.2⟩
            · have left := inductionHypothesis isLater
              exact ⟨part.1.trans left.1, left.2.trans part.2.2⟩

/-- The search looks at points of its range only. -/
theorem mem_visited (isVisited : point ∈ visited value rounds range) :
    range.Holds point := by
  rcases List.mem_append.mp isVisited with isCompared | isCandidate
  · exact mem_compared isCompared
  · obtain ⟨left, -⟩ := mem_candidates.mp isCandidate
    by_cases ordered : range.lo ≤ range.hi
    · have part := run_within value rounds ordered
      exact ⟨part.1.trans left.1, left.2.trans part.2.2⟩
    · rwa [run_of_le value rounds (Nat.not_le.mp ordered).le] at left

section Guidance

variable (value)

/-- No point of the range has a larger value than this one. -/
def Largest (range : Range) (point : Nat) : Prop :=
  range.Holds point ∧
    ∀ other, range.Holds other → value other ≤ value point

/--
No comparison leaves all largest values behind.  Two points are compared with a
point below or above them only if they are at least as far apart as the nearer
one is from it.
-/
structure Guides (range : Range) : Prop where
  upwards :
    ∀ first second peak,
      first < second →
      second ≤ range.hi →
      Largest value range peak →
      peak ≤ first →
      first - peak ≤ second - first →
      value first < value second →
        ∃ other, Largest value range other ∧ first < other ∧ other ≤ second
  downwards :
    ∀ first second peak,
      range.lo ≤ first →
      first < second →
      Largest value range peak →
      second ≤ peak →
      peak - second ≤ second - first →
      value second ≤ value first →
        ∃ other, Largest value range other ∧ first ≤ other ∧ other < second

end Guidance

/-- A comparison leaves one of the largest values. -/
theorem Guides.narrow
    {part : Range}
    (guides : Guides value range)
    (least : range.lo ≤ part.lo)
    (most : part.hi ≤ range.hi)
    (wide : part.lo < part.hi)
    (left : part.Holds point)
    (largest : Largest value range point) :
    ∃ other,
      (narrow value part).Holds other ∧ Largest value range other := by
  have m1 := lower_lt wide
  have m2 := lt_upper wide
  have apart :
      lower part.lo part.hi < upper part.lo part.hi ∧
        lower part.lo part.hi - part.lo ≤
          upper part.lo part.hi - lower part.lo part.hi ∧
        part.hi - upper part.lo part.hi ≤
          upper part.lo part.hi - lower part.lo part.hi := by
    unfold lower upper
    omega
  obtain ⟨pointLeast, pointMost⟩ := left
  unfold NarrowingSearch.narrow Range.Holds
  split
  · next better =>
      by_cases dropped : point ≤ lower part.lo part.hi
      · obtain ⟨other, otherLargest, above, below⟩ :=
          guides.upwards _ _ point apart.1 (m2.2.trans most) largest dropped
            (by omega) better
        exact ⟨other, ⟨above, below.trans m2.2⟩, otherLargest⟩
      · exact ⟨point, ⟨Nat.not_le.mp dropped, pointMost⟩, largest⟩
  · next worse =>
      by_cases dropped : upper part.lo part.hi ≤ point
      · obtain ⟨other, otherLargest, above, below⟩ :=
          guides.downwards _ _ point (least.trans m1.1) apart.1 largest
            dropped (by omega) (not_lt.mp worse)
        exact ⟨other, ⟨m1.1.trans above, Nat.le_sub_one_of_lt below⟩,
          otherLargest⟩
      · exact ⟨point,
          ⟨pointLeast, Nat.le_sub_one_of_lt (Nat.not_le.mp dropped)⟩, largest⟩

/-- So do all rounds. -/
theorem Guides.run
    {part : Range}
    (guides : Guides value range)
    (least : range.lo ≤ part.lo)
    (most : part.hi ≤ range.hi)
    (left : part.Holds point)
    (largest : Largest value range point) :
    ∃ other,
      (run value rounds part).Holds other ∧ Largest value range other := by
  induction rounds generalizing part point with
  | zero =>
      exact ⟨point, left, largest⟩
  | succ rounds inductionHypothesis =>
      rw [NarrowingSearch.run]
      split
      · exact ⟨point, left, largest⟩
      · next wide =>
          rw [Nat.not_le] at wide
          obtain ⟨other, otherLeft, otherLargest⟩ :=
            guides.narrow least most wide left largest
          have within := narrow_within value wide
          exact inductionHypothesis (least.trans within.1)
            (within.2.2.trans most) otherLeft otherLargest

/-- A comparison leaves two thirds of the points at most. -/
theorem narrow_size
    (value : Nat → Value)
    (wide : range.lo < range.hi) :
    ((narrow value range).hi + 1 - (narrow value range).lo) * 3 ≤
      (range.hi + 1 - range.lo) * 2 := by
  unfold narrow lower upper
  split <;> dsimp only <;> omega

/-- The rounds leave a single point, or as many thirds less. -/
theorem run_size (value : Nat → Value) (rounds : Nat) (range : Range) :
    (run value rounds range).hi ≤ (run value rounds range).lo ∨
      ((run value rounds range).hi + 1 - (run value rounds range).lo) *
          3 ^ rounds ≤
        (range.hi + 1 - range.lo) * 2 ^ rounds := by
  induction rounds generalizing range with
  | zero =>
      exact .inr (le_refl _)
  | succ rounds inductionHypothesis =>
      rw [run]
      split
      · next single =>
          exact .inl single
      · next wide =>
          refine (inductionHypothesis (narrow value range)).imp_right ?_
          intro later
          have once := narrow_size value (Nat.not_le.mp wide)
          calc
            _ = ((run value rounds (narrow value range)).hi + 1 -
                  (run value rounds (narrow value range)).lo) *
                    3 ^ rounds * 3 := by ring
            _ ≤ ((narrow value range).hi + 1 - (narrow value range).lo) *
                  2 ^ rounds * 3 := Nat.mul_le_mul_right 3 later
            _ = ((narrow value range).hi + 1 - (narrow value range).lo) * 3 *
                  2 ^ rounds := by ring
            _ ≤ (range.hi + 1 - range.lo) * 2 * 2 ^ rounds :=
              Nat.mul_le_mul_right _ once
            _ = (range.hi + 1 - range.lo) * 2 ^ (rounds + 1) := by ring

/-- The best point so far and its value. -/
structure Best (Value : Type) where
  point : Nat
  value : Value

/-- Keep the better one of the best point so far and another point. -/
def tryPoint (value : Nat → Value) (best : Best Value) (point : Nat) :
    Best Value :=
  if best.value < value point then ⟨point, value point⟩ else best

variable {points : List Nat} {best : Best Value}

theorem le_foldl_tryPoint :
    best.value ≤ (points.foldl (tryPoint value) best).value ∧
      ∀ point ∈ points,
        value point ≤ (points.foldl (tryPoint value) best).value := by
  induction points generalizing best with
  | nil =>
      exact ⟨le_refl _, List.forall_mem_nil _⟩
  | cons point points inductionHypothesis =>
      rw [List.foldl_cons, List.forall_mem_cons]
      obtain ⟨atLeast, others⟩ :=
        @inductionHypothesis (tryPoint value best point)
      have tried :
          best.value ≤ (tryPoint value best point).value ∧
            value point ≤ (tryPoint value best point).value := by
        unfold tryPoint
        split
        · next better => exact ⟨better.le, le_refl _⟩
        · next worse => exact ⟨le_refl _, not_lt.mp worse⟩
      exact ⟨tried.1.trans atLeast, tried.2.trans atLeast, others⟩

/-- The best point is the first one, or one that has been tried. -/
theorem foldl_tryPoint_cases :
    points.foldl (tryPoint value) best = best ∨
      ∃ point ∈ points,
        points.foldl (tryPoint value) best = ⟨point, value point⟩ := by
  induction points generalizing best with
  | nil =>
      exact .inl rfl
  | cons point points inductionHypothesis =>
      rw [List.foldl_cons]
      rcases @inductionHypothesis (tryPoint value best point) with
        same | ⟨later, member, isLater⟩
      · rw [same]
        unfold tryPoint
        split
        · exact .inr ⟨point, List.mem_cons_self, rfl⟩
        · exact .inl rfl
      · exact .inr ⟨later, List.mem_cons_of_mem point member, isLater⟩

section Searches

variable {value : Nat → Int}

/-- The best of the candidates that are left, if it beats nothing at all. -/
def search (value : Nat → Int) (rounds : Nat) (range : Range) : Best Int :=
  (candidates (run value rounds range)).foldl (tryPoint value) ⟨0, 0⟩

theorem search_nonneg (value : Nat → Int) (rounds : Nat) (range : Range) :
    0 ≤ (search value rounds range).value :=
  (@le_foldl_tryPoint Int _ value (candidates (run value rounds range))
    ⟨0, 0⟩).1

/-- The search finds nothing, or one of the candidates. -/
theorem search_cases (value : Nat → Int) (rounds : Nat) (range : Range) :
    search value rounds range = ⟨0, 0⟩ ∨
      ∃ point ∈ candidates (run value rounds range),
        search value rounds range = ⟨point, value point⟩ :=
  foldl_tryPoint_cases

/-- A positive value that is found is the one of the found point. -/
theorem search_attains (positive : 0 < (search value rounds range).value) :
    (search value rounds range).point ∈ visited value rounds range ∧
      value (search value rounds range).point =
        (search value rounds range).value := by
  rcases search_cases value rounds range with
    nothing | ⟨point, member, isFound⟩
  · rw [nothing] at positive
    exact absurd positive (lt_irrefl 0)
  · rw [isFound]
    exact ⟨List.mem_append_right _ member, rfl⟩

/--
No value is larger than the one found exactly if, where some value is positive,
no round drops some point of the largest value, and it is among the first three
points that are kept.
-/
theorem search_finds_iff :
    (∀ point, range.Holds point →
        value point ≤ (search value rounds range).value) ↔
      ((∃ point, range.Holds point ∧ 0 < value point) →
        ∃ point,
          range.Holds point ∧
            (∀ other, range.Holds other → value other ≤ value point) ∧
            Keeps value rounds range point ∧
            ∀ other, range.Holds other → Keeps value rounds range other →
              point ≤ other + 2) := by
  have tried :
      ∀ point ∈ candidates (run value rounds range),
        value point ≤ (search value rounds range).value :=
    (@le_foldl_tryPoint Int _ value (candidates (run value rounds range))
      ⟨0, 0⟩).2
  constructor
  · rintro largest ⟨positivePoint, inside, positive⟩
    have found : 0 < (search value rounds range).value :=
      positive.trans_le (largest positivePoint inside)
    rcases search_cases value rounds range with
      nothing | ⟨point, member, isFound⟩
    · rw [nothing] at found
      exact absurd found (lt_irrefl 0)
    · obtain ⟨left, first⟩ := mem_candidates.mp member
      have part := run_within value rounds (inside.1.trans inside.2)
      have pointInside : range.Holds point :=
        ⟨part.1.trans left.1, left.2.trans part.2.2⟩
      rw [isFound] at largest
      refine ⟨point, pointInside, largest, (run_holds_iff pointInside).mp left,
        fun other otherInside kept => ?_⟩
      have otherLeft := (run_holds_iff otherInside).mpr kept
      exact first.trans (Nat.add_le_add_right otherLeft.1 2)
  · intro condition point inside
    by_cases some : ∃ point, range.Holds point ∧ 0 < value point
    · obtain ⟨peak, peakInside, largest, kept, first⟩ := condition some
      have left := (run_holds_iff peakInside).mpr kept
      have part := run_within value rounds (inside.1.trans inside.2)
      -- The least point that is left is kept as well.
      have leastInside : range.Holds (run value rounds range).lo :=
        ⟨part.1, part.2.1.trans part.2.2⟩
      have leastKept :=
        (run_holds_iff leastInside).mp ⟨le_refl _, part.2.1⟩
      have isCandidate : peak ∈ candidates (run value rounds range) :=
        mem_candidates.mpr ⟨left, first _ leastInside leastKept⟩
      exact (largest point inside).trans (tried peak isCandidate)
    · have nonpositive : value point ≤ 0 :=
        not_lt.mp (fun positive => some ⟨point, inside, positive⟩)
      exact nonpositive.trans (search_nonneg value rounds range)

/--
The largest value is found if no comparison leaves all largest values behind,
and the rounds leave three points at most.
-/
theorem search_finds_of_guides
    (few :
      (range.hi + 1 - range.lo) * 2 ^ rounds ≤ 3 * 3 ^ rounds)
    (guides : Guides value range) :
    ∀ point, range.Holds point →
      value point ≤ (search value rounds range).value := by
  intro point inside
  have ordered := inside.1.trans inside.2
  obtain ⟨peak, isPeak⟩ :
      ∃ peak, Largest value range peak := by
    obtain ⟨peak, member, largest⟩ :=
      (Finset.Icc range.lo range.hi).exists_max_image value
        ⟨point, Finset.mem_Icc.mpr inside⟩
    exact ⟨peak, Finset.mem_Icc.mp member,
      fun other otherInside =>
        largest other (Finset.mem_Icc.mpr otherInside)⟩
  obtain ⟨left, isLeft, leftLargest⟩ :=
    @Guides.run Int _ value range rounds peak range guides (le_refl _) (le_refl _) isPeak.1 isPeak
  have first : left ≤ (run value rounds range).lo + 2 := by
    rcases run_size value rounds range with single | small
    · exact (isLeft.2.trans single).trans (Nat.le_add_right _ 2)
    · have three :=
        Nat.le_of_mul_le_mul_right (small.trans few)
          (Nat.pow_pos (Nat.succ_pos 2))
      have most := isLeft.2
      omega
  exact (leftLargest.2 point inside).trans
    ((@le_foldl_tryPoint Int _ value (candidates (run value rounds range))
      ⟨0, 0⟩).2 left (mem_candidates.mpr ⟨isLeft, first⟩))

end Searches

end NarrowingSearch
