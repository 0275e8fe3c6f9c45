import Mathlib.Tactic

namespace PeakSearch

/-!
# Ternary search for the peak of a function

Every round compares the function at two inner points of an interval, keeps
the better of them if it beats the best so far, and drops the third of the
interval next to the worse point.  Nothing is assumed of the function, so the
search finds the best of the points that it visits and no more than that; a
wide peak that the function rises to is among them.
-/

/-- The interval and the best point found so far. -/
structure Search where
  lo : Nat
  hi : Nat
  bestInput : Nat
  bestValue : Nat

variable (value : Nat → Nat)

/-- Keep a point that beats the best so far. -/
def visit (search : Search) (point : Nat) : Search :=
  if search.bestValue < value point then
    { search with bestInput := point, bestValue := value point }
  else
    search

/-- The inner point next to the lower end. -/
def lower (lo hi : Nat) : Nat :=
  lo + (hi - lo) / 3

/-- The inner point next to the upper end. -/
def upper (lo hi : Nat) : Nat :=
  hi - (hi - lo) / 3

/-- One round of the search. -/
def narrow (search : Search) : Search :=
  let m1 := lower search.lo search.hi
  let m2 := upper search.lo search.hi
  let tracked := visit value (visit value search m1) m2
  if value m1 < value m2 then
    { tracked with lo := m1 }
  else
    { tracked with hi := m2 }

/-- Rounds until the interval has fewer than four points. -/
def run : Nat → Search → Search
  | 0, search => search
  | rounds + 1, search =>
    if search.hi - search.lo < 3 then
      search
    else
      run rounds (narrow value search)

/-- The points that the rounds visit. -/
def points : Nat → Nat → Nat → List Nat
  | 0, _, _ => []
  | rounds + 1, lo, hi =>
    if hi - lo < 3 then
      []
    else
      let m1 := lower lo hi
      let m2 := upper lo hi
      m1 :: m2 ::
        if value m1 < value m2 then
          points rounds m1 hi
        else
          points rounds lo m2

variable {value} {search : Search} {rounds lo hi point : Nat}

theorem lower_mem (ordered : lo ≤ hi) :
    lo ≤ lower lo hi ∧ lower lo hi ≤ hi := by
  unfold lower
  omega

theorem upper_mem (ordered : lo ≤ hi) :
    lo ≤ upper lo hi ∧ upper lo hi ≤ hi := by
  unfold upper
  omega

@[simp] theorem visit_lo : (visit value search point).lo = search.lo := by
  unfold visit
  split <;> rfl

@[simp] theorem visit_hi : (visit value search point).hi = search.hi := by
  unfold visit
  split <;> rfl

/-- The best value after a visit is the larger of two. -/
theorem visit_bestValue :
    (visit value search point).bestValue =
      max search.bestValue (value point) := by
  unfold visit
  split
  · next better => exact (max_eq_right better.le).symm
  · next worse => exact (max_eq_left (Nat.not_lt.mp worse)).symm

/-- The best point is an old one or the visited one. -/
theorem visit_bestInput :
    (visit value search point).bestInput = search.bestInput ∨
      (visit value search point).bestInput = point := by
  unfold visit
  split
  · exact .inr rfl
  · exact .inl rfl

/-- The best value belongs to the best point, or nothing has been found. -/
def Tracks (value : Nat → Nat) (search : Search) : Prop :=
  search.bestInput = 0 ∧ search.bestValue = 0 ∨
    search.bestValue = value search.bestInput

theorem Tracks.visit
    (tracks : Tracks value search)
    (point : Nat) :
    Tracks value (visit value search point) := by
  unfold PeakSearch.visit
  split
  · exact .inr rfl
  · exact tracks

theorem narrow_bestValue :
    (narrow value search).bestValue =
      max (max search.bestValue (value (lower search.lo search.hi)))
        (value (upper search.lo search.hi)) := by
  unfold narrow
  dsimp only
  split <;> rw [visit_bestValue, visit_bestValue]

/-- The best value of a run is the largest of the values that it visits. -/
theorem le_run_bestValue_iff {bound : Nat} :
    bound ≤ (run value rounds search).bestValue ↔
      bound ≤ search.bestValue ∨
        ∃ point ∈ points value rounds search.lo search.hi,
          bound ≤ value point := by
  induction rounds generalizing search with
  | zero =>
      simp [run, points]
  | succ rounds inductionHypothesis =>
      rw [run, points]
      split
      · simp
      · have later :
            points value rounds (narrow value search).lo
                (narrow value search).hi =
              if value (lower search.lo search.hi) <
                  value (upper search.lo search.hi) then
                points value rounds (lower search.lo search.hi) search.hi
              else
                points value rounds search.lo
                  (upper search.lo search.hi) := by
          unfold narrow
          dsimp only
          split <;> simp
        rw [inductionHypothesis, later, narrow_bestValue, le_max_iff,
          le_max_iff, List.exists_mem_cons_iff, List.exists_mem_cons_iff]
        tauto

/-- The rounds visit points of the interval only. -/
theorem points_within
    (ordered : lo ≤ hi)
    (visited : point ∈ points value rounds lo hi) :
    lo ≤ point ∧ point ≤ hi := by
  induction rounds generalizing lo hi with
  | zero =>
      exact absurd visited List.not_mem_nil
  | succ rounds inductionHypothesis =>
      have m1 := lower_mem ordered
      have m2 := upper_mem ordered
      rw [points] at visited
      split at visited
      · exact absurd visited List.not_mem_nil
      · dsimp only at visited
        rcases List.mem_cons.mp visited with rfl | visited
        · exact m1
        · rcases List.mem_cons.mp visited with rfl | visited
          · exact m2
          · split at visited
            · have inside := inductionHypothesis m1.2 visited
              exact ⟨m1.1.trans inside.1, inside.2⟩
            · have inside := inductionHypothesis m2.1 visited
              exact ⟨inside.1, inside.2.trans m2.2⟩

/--
The function rises towards the points from `first` to `last`, and does not rise
behind them.  Two points are compared with the far end of these points beyond
them only if they are at least as far apart as the nearer one is from it.
-/
structure Peaks (value : Nat → Nat) (bottom top first last : Nat) : Prop where
  least : bottom ≤ first
  most : last ≤ top
  rises :
    ∀ point other,
      bottom ≤ point →
      point < other →
      other < first →
      last - other ≤ other - point →
        value point < value other
  falls :
    ∀ point other,
      last < point →
      point < other →
      other ≤ top →
      point - first ≤ other - point →
        value other ≤ value point

/-- The inner points cut off less than they stand apart, about a third each. -/
theorem inner_points (several : lo + 2 < hi) :
    lo ≤ lower lo hi ∧ lower lo hi < upper lo hi ∧ upper lo hi ≤ hi ∧
      lower lo hi - lo ≤ upper lo hi - lower lo hi ∧
      hi - upper lo hi ≤ upper lo hi - lower lo hi ∧
      (hi - lower lo hi - 2) * 3 ≤ (hi - lo - 2) * 2 ∧
      (upper lo hi - lo - 2) * 3 ≤ (hi - lo - 2) * 2 := by
  unfold lower upper
  omega

/-- A width that loses a third keeps its bound for one round fewer. -/
theorem lt_of_third
    {width whole spread : Nat}
    (third : width * 3 ≤ whole * 2)
    (wide : whole * 2 ^ (rounds + 1) < spread * 3 ^ (rounds + 1)) :
    width * 2 ^ rounds < spread * 3 ^ rounds := by
  refine @Nat.lt_of_mul_lt_mul_right 3 _ _ ?_
  calc
    width * 2 ^ rounds * 3 = width * 3 * 2 ^ rounds := by ring
    _ ≤ whole * 2 * 2 ^ rounds := Nat.mul_le_mul_right _ third
    _ = whole * 2 ^ (rounds + 1) := by ring
    _ < spread * 3 ^ (rounds + 1) := wide
    _ = spread * 3 ^ rounds * 3 := by ring

/-- A search of an interval with a wide enough peak visits the peak. -/
theorem Peaks.exists_point
    {bottom top first last : Nat}
    (peaks : Peaks value bottom top first last)
    (least : bottom ≤ lo)
    (below : lo ≤ first)
    (above : last ≤ hi)
    (most : hi ≤ top)
    (wide : (hi - lo - 2) * 2 ^ rounds < (last - first - 2) * 3 ^ rounds) :
    ∃ point ∈ points value rounds lo hi, first ≤ point ∧ point ≤ last := by
  induction rounds generalizing lo hi with
  | zero =>
      omega
  | succ rounds inductionHypothesis =>
      have several : 0 < last - first - 2 :=
        Nat.pos_of_mul_pos_right (Nat.zero_lt_of_lt wide)
      obtain ⟨m1Least, ordered, m2Most, m1Near, m2Near, rightPart, leftPart⟩ :=
        @inner_points lo hi (by omega)
      rw [points, if_neg (by omega)]
      dsimp only
      by_cases m1Inside : first ≤ lower lo hi ∧ lower lo hi ≤ last
      · exact ⟨_, List.mem_cons_self, m1Inside⟩
      by_cases m2Inside : first ≤ upper lo hi ∧ upper lo hi ≤ last
      · exact ⟨_, List.mem_cons_of_mem _ List.mem_cons_self, m2Inside⟩
      have later :
          ∃ point ∈
              (if value (lower lo hi) < value (upper lo hi) then
                points value rounds (lower lo hi) hi
              else
                points value rounds lo (upper lo hi)),
            first ≤ point ∧ point ≤ last := by
        split
        · next better =>
            -- Behind the peak the upper point is not the better one.
            have before : lower lo hi < first := by
              by_contra behind
              exact absurd better (Nat.not_lt.mpr
                (peaks.falls _ _ (by omega) ordered (m2Most.trans most)
                  (by omega)))
            exact inductionHypothesis (least.trans m1Least) before.le above
              most (lt_of_third rightPart wide)
        · next worse =>
            -- Before the peak the upper point is the better one.
            have behind : last < upper lo hi := by
              by_contra before
              exact worse (peaks.rises _ _ (least.trans m1Least) ordered
                (by omega) (by omega))
            exact inductionHypothesis least below behind.le
              (m2Most.trans most) (lt_of_third leftPart wide)
      obtain ⟨point, visited, inside⟩ := later
      exact ⟨point, List.mem_cons_of_mem _ (List.mem_cons_of_mem _ visited),
        inside⟩

/-- The interval and the best point lie between two bounds. -/
structure Within (bottom top : Nat) (search : Search) : Prop where
  least : bottom ≤ search.lo
  ordered : search.lo ≤ search.hi
  most : search.hi ≤ top
  best :
    search.bestInput = 0 ∨
      bottom ≤ search.bestInput ∧ search.bestInput ≤ top

variable {bottom top : Nat}

theorem Within.visit
    (within : Within bottom top search)
    (value : Nat → Nat)
    (inside : search.lo ≤ point ∧ point ≤ search.hi) :
    Within bottom top (visit value search point) where
  least := visit_lo.symm ▸ within.least
  ordered := by
    rw [visit_lo, visit_hi]
    exact within.ordered
  most := visit_hi.symm ▸ within.most
  best := by
    have chosen :
        (PeakSearch.visit value search point).bestInput =
            search.bestInput ∨
          (PeakSearch.visit value search point).bestInput = point :=
      visit_bestInput
    rcases chosen with same | here
    · rw [same]
      exact within.best
    · rw [here]
      exact .inr
        ⟨within.least.trans inside.1, inside.2.trans within.most⟩

/-- A round keeps the bounds. -/
theorem Within.narrow (within : Within bottom top search) :
    Within bottom top (narrow value search) := by
  have m1 := lower_mem within.ordered
  have m2 := upper_mem within.ordered
  have first := within.visit value m1
  have stillInside :
      (PeakSearch.visit value search (lower search.lo search.hi)).lo ≤
          upper search.lo search.hi ∧
        upper search.lo search.hi ≤
          (PeakSearch.visit value search
            (lower search.lo search.hi)).hi := by
    rwa [visit_lo, visit_hi]
  have tracked := first.visit value stillInside
  unfold PeakSearch.narrow
  dsimp only
  split
  · exact
      { least := within.least.trans m1.1
        ordered := by
          rw [visit_hi, visit_hi]
          exact m1.2
        most := tracked.most
        best := tracked.best }
  · exact
      { least := tracked.least
        ordered := by
          rw [visit_lo, visit_lo]
          exact m2.1
        most := m2.2.trans within.most
        best := tracked.best }

theorem Within.run (within : Within bottom top search) :
    Within bottom top (run value rounds search) := by
  induction rounds generalizing search with
  | zero =>
      exact within
  | succ rounds inductionHypothesis =>
      rw [PeakSearch.run]
      split
      · exact within
      · exact inductionHypothesis within.narrow

theorem Tracks.narrow (tracks : Tracks value search) :
    Tracks value (narrow value search) := by
  have tracked :=
    (tracks.visit (lower search.lo search.hi)).visit
      (upper search.lo search.hi)
  unfold PeakSearch.narrow
  dsimp only
  split <;> exact tracked

theorem Tracks.run (tracks : Tracks value search) :
    Tracks value (run value rounds search) := by
  induction rounds generalizing search with
  | zero =>
      exact tracks
  | succ rounds inductionHypothesis =>
      rw [PeakSearch.run]
      split
      · exact tracks
      · exact inductionHypothesis tracks.narrow

/-- A search of an interval that has found nothing yet. -/
def start (lo hi : Nat) : Search :=
  ⟨lo, hi, 0, 0⟩

theorem within_start (ordered : lo ≤ hi) : Within lo hi (start lo hi) :=
  ⟨le_refl lo, ordered, le_refl hi, .inl rfl⟩

theorem tracks_start : Tracks value (start lo hi) :=
  .inl ⟨rfl, rfl⟩

end PeakSearch
