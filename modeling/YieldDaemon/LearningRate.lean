import Mathlib.Analysis.SpecialFunctions.Trigonometric.Basic

namespace YieldDaemon

/-!
# Learning rate

The schedule of the learning rate in exact arithmetic: a linear warmup, then half
a period of a cosine.  Nothing stops the schedule at its last step, so that the
cosine goes on.
-/

/-- The functions of `f32` that the schedule calls. -/
structure ScheduleFunctions (R : Type) where
  cos : R → R
  pi : R
  ofU64 : Nat → R

/-- Cosine annealing learning rate schedule with warmup. -/
def cosineAnnealingLr
    {R : Type}
    [One R] [Add R] [Sub R] [Mul R] [Div R]
    (functions : ScheduleFunctions R)
    (warmupSteps totalSteps : Nat)
    (lrMax lrMin : R)
    (step : Nat) : R :=
  if warmupSteps = 0 ∧ step = 0 then
    lrMax
  else if step < warmupSteps then
    lrMax * (functions.ofU64 step / functions.ofU64 warmupSteps)
  else if totalSteps ≤ warmupSteps then
    lrMax
  else
    let progress :=
      functions.ofU64 (step - warmupSteps) /
        functions.ofU64 (totalSteps - warmupSteps)
    let cosine := (1 + functions.cos (functions.pi * progress)) / (1 + 1)
    lrMin + (lrMax - lrMin) * cosine

namespace LearningRate

/-- The functions without rounding. -/
noncomputable def exactFunctions : ScheduleFunctions ℝ where
  cos := Real.cos
  pi := Real.pi
  ofU64 := Nat.cast

/-- How a rate changes with the steps. -/
structure Anneals
    (warmupSteps totalSteps : Nat)
    (lrMax lrMin : ℝ)
    (rate : Nat → ℝ) : Prop where
  rises :
    ∀ {earlier later},
      earlier ≤ later → later ≤ warmupSteps → rate earlier ≤ rate later
  peak : rate warmupSteps = lrMax
  falls :
    ∀ {earlier later},
      warmupSteps ≤ earlier → earlier ≤ later → later ≤ totalSteps →
        rate later ≤ rate earlier
  trough : rate totalSteps = lrMin
  /-- After its last step the rate goes the same way back. -/
  mirrored :
    ∀ {step},
      warmupSteps ≤ step → step ≤ totalSteps →
        rate (2 * totalSteps - step) = rate step
  periodic :
    ∀ {step},
      warmupSteps ≤ step →
        rate (step + 2 * (totalSteps - warmupSteps)) = rate step
  /-- The warmup starts from 0, also below the lowest rate. -/
  warmup :
    ∀ {step}, step ≤ warmupSteps → 0 ≤ rate step ∧ rate step ≤ lrMax
  bounded :
    ∀ {step}, warmupSteps ≤ step → lrMin ≤ rate step ∧ rate step ≤ lrMax

variable
  {warmupSteps totalSteps : Nat}
  {lrMax lrMin : ℝ}

/-- The part of a period that a step after the warmup stands at. -/
noncomputable def phase (warmupSteps totalSteps step : Nat) : ℝ :=
  Real.pi *
    (((step - warmupSteps : Nat) : ℝ) / ((totalSteps - warmupSteps : Nat) : ℝ))

/-- After the warmup the rate follows the cosine. -/
theorem rate_eq
    (decays : warmupSteps < totalSteps)
    {step : Nat}
    (warm : warmupSteps ≤ step) :
    cosineAnnealingLr exactFunctions warmupSteps totalSteps lrMax lrMin step =
      lrMin +
        (lrMax - lrMin) *
          ((1 + Real.cos (phase warmupSteps totalSteps step)) / (1 + 1)) := by
  unfold cosineAnnealingLr
  split
  next start =>
    obtain ⟨rfl, rfl⟩ := start
    simp [phase]
  next =>
    rw [if_neg (Nat.not_lt.mpr warm), if_neg (Nat.not_le.mpr decays)]
    rfl

section Decay

variable (decays : warmupSteps < totalSteps)
include decays

theorem span_pos : (0 : ℝ) < (totalSteps - warmupSteps : Nat) :=
  Nat.cast_pos.mpr (Nat.sub_pos_of_lt decays)

theorem phase_mono
    {earlier later : Nat}
    (ordered : earlier ≤ later) :
    phase warmupSteps totalSteps earlier ≤
      phase warmupSteps totalSteps later := by
  have steps : earlier - warmupSteps ≤ later - warmupSteps :=
    Nat.sub_le_sub_right ordered warmupSteps
  exact mul_le_mul_of_nonneg_left
    (div_le_div_of_nonneg_right (Nat.cast_le.mpr steps)
      (span_pos decays).le)
    Real.pi_pos.le

omit decays in
theorem phase_nonneg (step : Nat) : 0 ≤ phase warmupSteps totalSteps step :=
  mul_nonneg Real.pi_pos.le (div_nonneg (Nat.cast_nonneg _) (Nat.cast_nonneg _))

theorem phase_totalSteps : phase warmupSteps totalSteps totalSteps = Real.pi := by
  rw [phase, div_self (span_pos decays).ne', mul_one]

omit decays in
theorem phase_warmupSteps : phase warmupSteps totalSteps warmupSteps = 0 := by
  simp [phase]

theorem phase_mirrored
    {step : Nat}
    (warm : warmupSteps ≤ step)
    (within : step ≤ totalSteps) :
    phase warmupSteps totalSteps (2 * totalSteps - step) =
      2 * Real.pi - phase warmupSteps totalSteps step := by
  have steps :
      ((2 * totalSteps - step - warmupSteps : Nat) : ℝ) =
        2 * (totalSteps - warmupSteps : Nat) - (step - warmupSteps : Nat) := by
    have counted :
        2 * totalSteps - step - warmupSteps + (step - warmupSteps) =
          2 * (totalSteps - warmupSteps) := by
      omega
    rw [eq_sub_iff_add_eq]
    exact_mod_cast counted
  have nonzero := (span_pos decays).ne'
  rw [phase, phase, steps]
  field_simp

theorem phase_periodic
    {step : Nat}
    (warm : warmupSteps ≤ step) :
    phase warmupSteps totalSteps (step + 2 * (totalSteps - warmupSteps)) =
      phase warmupSteps totalSteps step + 2 * Real.pi := by
  have steps :
      ((step + 2 * (totalSteps - warmupSteps) - warmupSteps : Nat) : ℝ) =
        (step - warmupSteps : Nat) + 2 * (totalSteps - warmupSteps : Nat) := by
    have counted :
        step + 2 * (totalSteps - warmupSteps) - warmupSteps =
          step - warmupSteps + 2 * (totalSteps - warmupSteps) := by
      omega
    exact_mod_cast counted
  have nonzero := (span_pos decays).ne'
  rw [phase, phase, steps]
  field_simp

end Decay

/-- During the warmup the rate is a part of the highest one. -/
theorem rate_of_lt
    {step : Nat}
    (cold : step < warmupSteps) :
    cosineAnnealingLr exactFunctions warmupSteps totalSteps lrMax lrMin step =
      lrMax * ((step : ℝ) / (warmupSteps : ℝ)) := by
  have running : ¬ (warmupSteps = 0 ∧ step = 0) := by
    omega
  rw [cosineAnnealingLr, if_neg running, if_pos cold]
  rfl

theorem rate_warmupSteps (decays : warmupSteps < totalSteps) :
    cosineAnnealingLr exactFunctions warmupSteps totalSteps lrMax lrMin
        warmupSteps =
      lrMax := by
  rw [rate_eq decays le_rfl, phase_warmupSteps, Real.cos_zero]
  ring

theorem rate_rises
    (decays : warmupSteps < totalSteps)
    (nonneg : 0 ≤ lrMax)
    {earlier later : Nat}
    (before : earlier ≤ later)
    (cold : later ≤ warmupSteps) :
    cosineAnnealingLr exactFunctions warmupSteps totalSteps lrMax lrMin
        earlier ≤
      cosineAnnealingLr exactFunctions warmupSteps totalSteps lrMax lrMin
        later := by
  rcases Nat.lt_or_eq_of_le cold with later_cold | rfl
  · rw [rate_of_lt (before.trans_lt later_cold), rate_of_lt later_cold]
    have parts : (earlier : ℝ) ≤ later := Nat.cast_le.mpr before
    gcongr
  · rw [rate_warmupSteps decays]
    rcases Nat.lt_or_eq_of_le before with earlier_cold | rfl
    · rw [rate_of_lt earlier_cold]
      have part : (earlier : ℝ) / later ≤ 1 :=
        div_le_one_of_le₀ (Nat.cast_le.mpr before) (Nat.cast_nonneg later)
      exact mul_le_of_le_one_right nonneg part
    · exact (rate_warmupSteps decays).le

theorem rate_falls
    (decays : warmupSteps < totalSteps)
    (ordered : lrMin ≤ lrMax)
    {earlier later : Nat}
    (warm : warmupSteps ≤ earlier)
    (before : earlier ≤ later)
    (within : later ≤ totalSteps) :
    cosineAnnealingLr exactFunctions warmupSteps totalSteps lrMax lrMin
        later ≤
      cosineAnnealingLr exactFunctions warmupSteps totalSteps lrMax lrMin
        earlier := by
  have height : 0 ≤ lrMax - lrMin := sub_nonneg.mpr ordered
  rw [rate_eq decays warm, rate_eq decays (warm.trans before)]
  have last :
      phase warmupSteps totalSteps later ≤ Real.pi :=
    (phase_mono decays within).trans_eq (phase_totalSteps decays)
  have cosine :=
    Real.cos_le_cos_of_nonneg_of_le_pi (phase_nonneg earlier) last
      (phase_mono decays before)
  gcongr

/-- The warmup starts at 0 and goes up. -/
theorem rate_nonneg
    (decays : warmupSteps < totalSteps)
    (nonneg : 0 ≤ lrMax)
    {step : Nat}
    (cold : step ≤ warmupSteps) :
    0 ≤ cosineAnnealingLr exactFunctions warmupSteps totalSteps lrMax lrMin
        step := by
  rcases Nat.lt_or_eq_of_le cold with running | rfl
  · rw [rate_of_lt running]
    exact mul_nonneg nonneg
      (div_nonneg (Nat.cast_nonneg _) (Nat.cast_nonneg _))
  · rw [rate_warmupSteps decays]
    exact nonneg

theorem rate_bounded
    (decays : warmupSteps < totalSteps)
    (ordered : lrMin ≤ lrMax)
    {step : Nat}
    (warm : warmupSteps ≤ step) :
    lrMin ≤
        cosineAnnealingLr exactFunctions warmupSteps totalSteps lrMax lrMin
          step ∧
      cosineAnnealingLr exactFunctions warmupSteps totalSteps lrMax lrMin
          step ≤
        lrMax := by
  have height : 0 ≤ lrMax - lrMin := sub_nonneg.mpr ordered
  rw [rate_eq decays warm]
  have least := Real.neg_one_le_cos (phase warmupSteps totalSteps step)
  have most := Real.cos_le_one (phase warmupSteps totalSteps step)
  constructor
  · have part :
        0 ≤
          (lrMax - lrMin) *
            ((1 + Real.cos (phase warmupSteps totalSteps step)) /
              (1 + 1)) :=
      mul_nonneg height (by linarith)
    linarith
  · have part :
        (1 + Real.cos (phase warmupSteps totalSteps step)) / (1 + 1) ≤ 1 := by
      linarith
    have scaled := mul_le_of_le_one_right height part
    linarith

/--
The rate rises to its highest value in the warmup and falls to its lowest one
at the last step; later steps take it up again, and round and round.
-/
theorem rate_anneals
    (decays : warmupSteps < totalSteps)
    (nonneg : 0 ≤ lrMax)
    (ordered : lrMin ≤ lrMax) :
    Anneals warmupSteps totalSteps lrMax lrMin
      (cosineAnnealingLr exactFunctions warmupSteps totalSteps lrMax lrMin) := by
  refine ⟨rate_rises decays nonneg, rate_warmupSteps decays,
    rate_falls decays ordered, ?trough, ?mirrored, ?periodic, ?warmup,
    rate_bounded decays ordered⟩
  case trough =>
    rw [rate_eq decays decays.le, phase_totalSteps decays, Real.cos_pi]
    ring
  case mirrored =>
    intro step warm within
    rw [rate_eq decays warm, rate_eq decays (by omega),
      phase_mirrored decays warm within, Real.cos_two_pi_sub]
  case periodic =>
    intro step warm
    rw [rate_eq decays warm, rate_eq decays (by omega),
      phase_periodic decays warm, Real.cos_add_two_pi]
  case warmup =>
    intro step cold
    refine ⟨rate_nonneg decays nonneg cold, ?_⟩
    exact (rate_rises decays nonneg cold le_rfl).trans_eq
      (rate_warmupSteps decays)

/-- A schedule of 1000 steps is at its highest rate again after 1900. -/
theorem rate_is_highest_again :
    cosineAnnealingLr exactFunctions 100 1000 1 0 1900 = 1 := by
  have anneals :=
    @rate_anneals 100 1000 1 0 (by norm_num) zero_le_one zero_le_one
  have mirrored := @Anneals.mirrored _ _ _ _ _ anneals 100 le_rfl (by norm_num)
  exact mirrored.trans anneals.peak

end LearningRate

end YieldDaemon
