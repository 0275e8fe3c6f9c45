import YieldDaemon.CheckedArithmetic
import YieldDaemon.WeightedMeans
import Mathlib.Analysis.Real.Sqrt
import Mathlib.Data.List.GetD

namespace YieldDaemon

open CheckedArithmetic WeightedMeans

/-!
# Optimizer

AdamW keeps two running moments a parameter and corrects their bias.  In exact
arithmetic this is an optimizer that keeps all gradients and takes a weighted
mean of them, and of their squares, anew at every step.
-/

/-- The functions of `f32` that the optimizer calls. -/
structure OptimizerFunctions (R : Type) where
  sqrt : R → R
  powi : R → Int → R

/-- The arguments of one call of `step`, besides the parameters. -/
structure AdamWInput (R : Type) where
  grads : List R
  lr : R
  beta1 : R
  beta2 : R
  eps : R
  weightDecay : R

/-- The entries of the gradients of a call. -/
def AdamWInput.gradient {R : Type} [Zero R] (input : AdamWInput R) (i : Nat) :
    R :=
  input.grads.getD i 0

/-- AdamW optimizer state for a single parameter. -/
structure AdamWState (R : Type) where
  m : List R
  v : List R
  step : Nat

/-- `value as i32`, for a `u64` -/
def asI32 (value : Nat) : Int :=
  Int.bmod value (2 ^ 32)

namespace AdamWState

section Code

variable
  {R : Type}
  [Zero R] [One R] [Add R] [Sub R] [Mul R] [Div R]
  (functions : OptimizerFunctions R)
  (profile : Profile)

def new (size : Nat) : AdamWState R where
  m := List.replicate size 0
  v := List.replicate size 0
  step := 0

/-- One round of the loop over the parameters. -/
def updateEntry
    (input : AdamWInput R)
    (biasCorrection1 biasCorrection2 : R)
    (moments : List R × List R × List R)
    (i : Nat) : Checked (List R × List R × List R) := do
  let (m, v, params) := moments
  let mi ← index m i
  let grad ← index input.grads i
  let mi := input.beta1 * mi + (1 - input.beta1) * grad
  let m ← store m i mi
  let vi ← index v i
  let vi := input.beta2 * vi + (1 - input.beta2) * grad * grad
  let v ← store v i vi
  let mHat := mi / biasCorrection1
  let vHat := vi / biasCorrection2
  let param ← index params i
  let params ←
    store params i
      (param -
        input.lr *
          (mHat / (functions.sqrt vHat + input.eps) +
            input.weightDecay * param))
  return (m, v, params)

/-- AdamW update step. -/
def update
    (state : AdamWState R)
    (params : List R)
    (input : AdamWInput R) : Checked (AdamWState R × List R) := do
  let step ← add profile 64 state.step 1
  let biasCorrection1 := 1 - functions.powi input.beta1 (asI32 step)
  let biasCorrection2 := 1 - functions.powi input.beta2 (asI32 step)
  let (m, v, params) ←
    (List.range params.length).foldlM
      (updateEntry functions input biasCorrection1 biasCorrection2)
      (state.m, state.v, params)
  return (⟨m, v, step⟩, params)

end Code

section Tabulated

variable
  {Value : Type}
  {count i : Nat}
  {entry : Nat → Value}

theorem index_tabulated (inside : i < count) :
    index ((List.range count).map entry) i = .ok (entry i) := by
  simp [index, inside]

/-- Storing the next entry extends the stretch that is done. -/
theorem store_tabulated
    {done : Nat → Value}
    (inside : i < count) :
    store
        ((List.range count).map fun j => if j < i then done j else entry j)
        i (done i) =
      .ok ((List.range count).map fun j =>
        if j < i + 1 then done j else entry j) := by
  rw [store, if_pos (by simpa using inside)]
  refine congrArg Except.ok (List.ext_getElem (by simp) fun j _ bounded => ?_)
  rw [List.getElem_set]
  simp only [List.getElem_map, List.getElem_range]
  by_cases same : i = j
  · subst same
    rw [if_pos rfl, if_pos (Nat.lt_succ_self i)]
  · rw [if_neg same]
    exact if_congr (by omega) rfl rfl

end Tabulated

section Plain

variable {F : Type} [Field F]

/-- How much a gradient counts after some steps. -/
def decay (beta : F) (count p : Nat) : F :=
  beta ^ (count - 1 - p)

/-- The mean of an entry of the gradients that were kept. -/
def meanGradient (beta : F) (history : List (Nat → F)) (i : Nat) : F :=
  mean history.length (decay beta history.length)
    (fun p => history.getD p 0 i)

/-- The mean of the squares. -/
def meanSquare (beta : F) (history : List (Nat → F)) (i : Nat) : F :=
  mean history.length (decay beta history.length)
    (fun p => history.getD p 0 i * history.getD p 0 i)

/-- A step that takes the means of all gradients up to its own. -/
def plainUpdate
    (sqrt : F → F)
    (before : List (Nat → F) × (Nat → F))
    (input : AdamWInput F) : List (Nat → F) × (Nat → F) :=
  let history := before.1 ++ [input.gradient]
  (history, fun i =>
    before.2 i -
      input.lr *
        (meanGradient input.beta1 history i /
            (sqrt (meanSquare input.beta2 history i) + input.eps) +
          input.weightDecay * before.2 i))

/-- The decayed sum of some values. -/
def decayedSum (beta : F) (count : Nat) (value : Nat → F) : F :=
  ∑ p ∈ Finset.range count, decay beta count p * value p

theorem decayedSum_succ (beta : F) (count : Nat) (value : Nat → F) :
    decayedSum beta (count + 1) value =
      beta * decayedSum beta count value + value count := by
  rw [decayedSum, Finset.sum_range_succ, decayedSum, Finset.mul_sum]
  have last : decay beta (count + 1) count = 1 := by
    simp [decay]
  rw [last, one_mul]
  refine congrArg (· + value count) (Finset.sum_congr rfl fun p member => ?_)
  have before := Finset.mem_range.mp member
  have shifted : count + 1 - 1 - p = (count - 1 - p) + 1 := by
    omega
  rw [decay, decay, shifted, pow_succ]
  ring

/-- All weights together, times what is missing from one. -/
theorem one_sub_mul_decayedSum (beta : F) (count : Nat) :
    (1 - beta) * decayedSum beta count (fun _ => 1) = 1 - beta ^ count := by
  induction count with
  | zero =>
      simp [decayedSum]
  | succ count inductionHypothesis =>
      rw [decayedSum_succ, pow_succ]
      linear_combination beta * inductionHypothesis

/-- The running moment that a history leads to. -/
def runningMoment
    (beta : F)
    (history : List (Nat → F))
    (value : (Nat → F) → F) : F :=
  (1 - beta) *
    decayedSum beta history.length (fun p => value (history.getD p 0))

/-- The next gradient enters a running moment. -/
theorem runningMoment_snoc
    (beta : F)
    (history : List (Nat → F))
    (latest : Nat → F)
    (value : (Nat → F) → F) :
    runningMoment beta (history ++ [latest]) value =
      beta * runningMoment beta history value + (1 - beta) * value latest := by
  have last : (history ++ [latest]).getD history.length 0 = latest := by
    simp
  have before :
      decayedSum beta history.length
          (fun p => value ((history ++ [latest]).getD p 0)) =
        decayedSum beta history.length
          (fun p => value (history.getD p 0)) := by
    refine Finset.sum_congr rfl fun p member => ?_
    dsimp only
    rw [List.getD_append _ _ _ _ (Finset.mem_range.mp member)]
  rw [runningMoment, List.length_append, List.length_singleton,
    decayedSum_succ, last, before, runningMoment]
  ring

/-- The bias correction turns a running moment into a mean. -/
theorem corrected_eq_mean
    {beta : F}
    {history : List (Nat → F)}
    (biased : beta ^ history.length ≠ 1)
    (value : (Nat → F) → F) :
    runningMoment beta history value / (1 - beta ^ history.length) =
      mean history.length (decay beta history.length)
        (fun p => value (history.getD p 0)) := by
  have total := one_sub_mul_decayedSum beta history.length
  have complement : (1 : F) - beta ^ history.length ≠ 0 :=
    sub_ne_zero.mpr biased.symm
  have factor : (1 : F) - beta ≠ 0 := by
    intro zero
    rw [zero, zero_mul] at total
    exact complement total.symm
  rw [runningMoment, ← total, mul_div_mul_left _ _ factor]
  simp only [mean, decayedSum, mul_one]

/-- The running moments are those of the gradients that were kept. -/
structure Follows
    (count : Nat)
    (beta1 beta2 : F)
    (current : AdamWState F × List F)
    (plain : List (Nat → F) × (Nat → F)) : Prop where
  m :
    current.1.m =
      (List.range count).map fun i => runningMoment beta1 plain.1 (· i)
  v :
    current.1.v =
      (List.range count).map fun i =>
        runningMoment beta2 plain.1 (fun grads => grads i * grads i)
  step : current.1.step = plain.1.length
  params : current.2 = (List.range count).map plain.2

variable
  {functions : OptimizerFunctions F}
  {count : Nat}
  {input : AdamWInput F}

/-- The loop computes every entry from its own moments. -/
theorem foldlM_updateEntry
    (enough : count ≤ input.grads.length)
    (biasCorrection1 biasCorrection2 : F)
    (m v params : Nat → F) :
    let nextM i := input.beta1 * m i + (1 - input.beta1) * input.gradient i
    let nextV i :=
      input.beta2 * v i +
        (1 - input.beta2) * input.gradient i * input.gradient i
    let nextParams i :=
      params i -
        input.lr *
          (nextM i / biasCorrection1 /
              (functions.sqrt (nextV i / biasCorrection2) + input.eps) +
            input.weightDecay * params i)
    ∀ rounds ≤ count,
      (List.range rounds).foldlM
          (updateEntry functions input biasCorrection1 biasCorrection2)
          ((List.range count).map m, (List.range count).map v,
            (List.range count).map params) =
        .ok
          ((List.range count).map fun j =>
              if j < rounds then nextM j else m j,
            (List.range count).map fun j =>
              if j < rounds then nextV j else v j,
            (List.range count).map fun j =>
              if j < rounds then nextParams j else params j) := by
  intro nextM nextV nextParams rounds
  induction rounds with
  | zero =>
      intro _
      simp
  | succ rounds inductionHypothesis =>
      intro within
      have inside : rounds < count := within
      have grad : index input.grads rounds = .ok (input.gradient rounds) := by
        have available := inside.trans_le enough
        simp [index, AdamWInput.gradient, available]
      have reads
          (done entry : Nat → F) :
          index
              ((List.range count).map fun j =>
                if j < rounds then done j else entry j)
              rounds =
            .ok (entry rounds) := by
        rw [index_tabulated inside, if_neg (Nat.lt_irrefl rounds)]
      have stores
          (done entry : Nat → F) :=
        @store_tabulated F count rounds entry done inside
      rw [List.range_succ, List.foldlM_append,
        inductionHypothesis (Nat.le_of_lt inside), Checked.ok_bind,
        List.foldlM_cons, updateEntry]
      dsimp only
      rw [reads, Checked.ok_bind, grad, Checked.ok_bind,
        Checked.bind_of_eq_ok (stores nextM m), reads, Checked.ok_bind,
        Checked.bind_of_eq_ok (stores nextV v), reads, Checked.ok_bind,
        Checked.bind_of_eq_ok (stores nextParams params)]
      rfl

/-- A small step count stays what it is as an `i32`. -/
theorem asI32_of_lt {value : Nat} (small : value < 2 ^ 31) :
    asI32 value = value := by
  have small : (value : Int) < 2147483648 := by
    exact_mod_cast small
  refine Int.bmod_eq_of_le ?_ ?_
  · norm_num
  · norm_num
    omega

/-- Powers are exact, and no power of a decay rate is one. -/
structure Decays
    (functions : OptimizerFunctions F)
    (beta1 beta2 : F) : Prop where
  powi : ∀ (x : F) (n : Nat), functions.powi x n = x ^ n
  biased1 : ∀ steps, 0 < steps → beta1 ^ steps ≠ 1
  biased2 : ∀ steps, 0 < steps → beta2 ^ steps ≠ 1

/-- A call follows the step that keeps its gradient. -/
theorem Follows.update
    {beta1 beta2 : F}
    {current : AdamWState F × List F}
    {plain : List (Nat → F) × (Nat → F)}
    (decays : Decays functions beta1 beta2)
    (follows : Follows count beta1 beta2 current plain)
    (enough : count ≤ input.grads.length)
    (rates : input.beta1 = beta1 ∧ input.beta2 = beta2)
    (few : plain.1.length + 1 < 2 ^ 31)
    (profile : Profile) :
    ∃ next,
      current.1.update functions profile current.2 input = .ok next ∧
        Follows count beta1 beta2 next
          (plainUpdate functions.sqrt plain input) := by
  obtain ⟨⟨m, v, step⟩, params⟩ := current
  obtain ⟨history, entries⟩ := plain
  obtain ⟨isM, isV, isStep, isParams⟩ := follows
  obtain ⟨rfl, rfl⟩ := rates
  dsimp only at isM isV isStep isParams few
  subst isM isV isStep isParams
  have counted : add profile 64 history.length 1 = .ok (history.length + 1) := by
    rw [add, fit_of_lt (by omega)]
  have power (x : F) :
      functions.powi x (asI32 (history.length + 1)) =
        x ^ (history.length + 1) := by
    rw [asI32_of_lt few]
    exact decays.powi x (history.length + 1)
  have looped :=
    @foldlM_updateEntry F _ functions count input enough
      (1 - input.beta1 ^ (history.length + 1))
      (1 - input.beta2 ^ (history.length + 1))
      (fun i => runningMoment input.beta1 history (· i))
      (fun i =>
        runningMoment input.beta2 history (fun grads => grads i * grads i))
      entries count le_rfl
  have inRange
      (done entry : Nat → F) :
      ((List.range count).map fun j => if j < count then done j else entry j) =
        (List.range count).map done :=
    List.map_congr_left fun j member => if_pos (List.mem_range.mp member)
  simp only [inRange] at looped
  have moment (i : Nat) :=
    runningMoment_snoc input.beta1 history input.gradient (· i)
  have square (i : Nat) :=
    runningMoment_snoc input.beta2 history input.gradient
      (fun grads => grads i * grads i)
  have grown : (history ++ [input.gradient]).length = history.length + 1 :=
    List.length_append
  have nonempty : 0 < (history ++ [input.gradient]).length := by
    rw [grown]
    exact Nat.succ_pos _
  have mHat (i : Nat) :=
    corrected_eq_mean (decays.biased1 _ nonempty)
      (fun grads : Nat → F => grads i)
  have vHat (i : Nat) :=
    corrected_eq_mean (decays.biased2 _ nonempty)
      (fun grads : Nat → F => grads i * grads i)
  refine ⟨?next, ?returned, ?follows⟩
  case returned =>
    rw [AdamWState.update, counted, Checked.ok_bind, power, power]
    dsimp only
    rw [List.length_map, List.length_range, looped, Checked.ok_bind]
    rfl
  case follows =>
    refine ⟨?_, ?_, grown.symm, ?_⟩
    · exact List.map_congr_left fun i _ => (moment i).symm
    · refine List.map_congr_left fun i _ => ?_
      rw [mul_assoc (1 - input.beta2)]
      exact (square i).symm
    · refine List.map_congr_left fun i _ => ?_
      dsimp only [plainUpdate]
      rw [meanGradient, meanSquare, ← mHat, ← vHat, moment, square, grown,
        mul_assoc (1 - input.beta2)]

/-- The calls of a run, each on what the one before it left. -/
def run
    (functions : OptimizerFunctions F)
    (profile : Profile)
    (inputs : List (AdamWInput F))
    (start : AdamWState F × List F) : Checked (AdamWState F × List F) :=
  inputs.foldlM
    (fun current input => current.1.update functions profile current.2 input)
    start

/-- The same calls with all gradients kept. -/
def plainRun
    (sqrt : F → F)
    (inputs : List (AdamWInput F))
    (start : List (Nat → F) × (Nat → F)) : List (Nat → F) × (Nat → F) :=
  inputs.foldl (plainUpdate sqrt) start

theorem plainRun_history
    (sqrt : F → F)
    (inputs : List (AdamWInput F))
    (start : List (Nat → F) × (Nat → F)) :
    (plainRun sqrt inputs start).1 =
      start.1 ++ inputs.map AdamWInput.gradient := by
  induction inputs generalizing start with
  | nil =>
      exact (List.append_nil start.1).symm
  | cons input inputs inductionHypothesis =>
      rw [plainRun, List.foldl_cons, ← plainRun, inductionHypothesis,
        plainUpdate, List.append_assoc]
      rfl

/-- A run follows the one that keeps all gradients. -/
theorem Follows.run
    {beta1 beta2 : F}
    {inputs : List (AdamWInput F)}
    {current : AdamWState F × List F}
    {plain : List (Nat → F) × (Nat → F)}
    (decays : Decays functions beta1 beta2)
    (follows : Follows count beta1 beta2 current plain)
    (enough : ∀ input ∈ inputs, count ≤ input.grads.length)
    (rates : ∀ input ∈ inputs, input.beta1 = beta1 ∧ input.beta2 = beta2)
    (few : plain.1.length + inputs.length < 2 ^ 31)
    (profile : Profile) :
    ∃ final,
      AdamWState.run functions profile inputs current = .ok final ∧
        Follows count beta1 beta2 final
          (plainRun functions.sqrt inputs plain) := by
  induction inputs generalizing current plain with
  | nil =>
      exact ⟨current, rfl, follows⟩
  | cons input inputs inductionHypothesis =>
      rw [List.forall_mem_cons] at enough rates
      rw [List.length_cons] at few
      obtain ⟨next, updated, nextFollows⟩ :=
        follows.update decays enough.1 rates.1 (by omega) profile
      have longer :
          (plainUpdate functions.sqrt plain input).1.length =
            plain.1.length + 1 :=
        List.length_append
      obtain ⟨final, returned, finalFollows⟩ :=
        inductionHypothesis nextFollows enough.2 rates.2 (by omega)
      refine ⟨final, ?_, finalFollows⟩
      rw [AdamWState.run, List.foldlM_cons, updated, Checked.ok_bind]
      exact returned

theorem follows_new (beta1 beta2 : F) (params : List F) :
    Follows params.length beta1 beta2 (new params.length, params)
      ([], fun i => params.getD i 0) where
  m := by
    simp [new, runningMoment, decayedSum]
  v := by
    simp [new, runningMoment, decayedSum]
  step := rfl
  params := by
    refine List.ext_getElem (by simp) fun i inside _ => ?_
    simp [inside]

end Plain

section Ordered

variable
  {F : Type}
  [Field F]
  [LinearOrder F]
  [IsStrictOrderedRing F]
  {functions : OptimizerFunctions F}

/-- The first moment after its correction. -/
def correctedMoment (state : AdamWState F) (beta1 : F) (i : Nat) : F :=
  state.m.getD i 0 / (1 - beta1 ^ state.step)

/--
In exact arithmetic a run of the optimizer is the run that takes the means of
all gradients and all squares at each step, the older ones counting less by the
power of the decay rate; a corrected moment stays within the bounds of the
gradients.
-/
theorem optimizer_takes_means
    {beta1 beta2 : F}
    {inputs : List (AdamWInput F)}
    (powi : ∀ (x : F) (n : Nat), functions.powi x n = x ^ n)
    (decays1 : 0 < beta1 ∧ beta1 < 1)
    (decays2 : 0 < beta2 ∧ beta2 < 1)
    (rates : ∀ input ∈ inputs, input.beta1 = beta1 ∧ input.beta2 = beta2)
    (few : inputs.length < 2 ^ 31)
    (profile : Profile)
    (params : List F)
    (enough : ∀ input ∈ inputs, params.length ≤ input.grads.length) :
    ∃ final,
      run functions profile inputs (new params.length, params) = .ok final ∧
        final.2 =
          (List.range params.length).map
            (plainRun functions.sqrt inputs
              ([], fun i => params.getD i 0)).2 ∧
        ∀ i < params.length, ∀ least most,
          inputs ≠ [] →
          (∀ input ∈ inputs,
            least ≤ input.gradient i ∧ input.gradient i ≤ most) →
          least ≤ correctedMoment final.1 beta1 i ∧
            correctedMoment final.1 beta1 i ≤ most := by
  have biased {beta : F} (decays : 0 < beta ∧ beta < 1) (steps : Nat)
      (positive : 0 < steps) : beta ^ steps ≠ 1 :=
    (pow_lt_one₀ decays.1.le decays.2 positive.ne').ne
  have decays : Decays functions beta1 beta2 :=
    ⟨powi, biased decays1, biased decays2⟩
  obtain ⟨final, returned, follows⟩ :=
    (follows_new beta1 beta2 params).run decays enough rates
      (by simpa using few) profile
  refine ⟨final, returned, follows.params, ?_⟩
  intro i inside least most nonempty bounded
  have kept :
      (plainRun functions.sqrt inputs ([], fun i => params.getD i 0)).1 =
        inputs.map AdamWInput.gradient :=
    plainRun_history _ _ _
  have positive : 0 < inputs.length := List.length_pos_iff.mpr nonempty
  have isMean :
      correctedMoment final.1 beta1 i =
        mean inputs.length (decay beta1 inputs.length)
          (fun p => (inputs.map AdamWInput.gradient).getD p 0 i) := by
    have counted : (inputs.map AdamWInput.gradient).length = inputs.length :=
      List.length_map _
    have corrected :=
      corrected_eq_mean
        (decays.biased1 _ (counted.symm ▸ positive))
        (fun grads : Nat → F => grads i)
    rw [correctedMoment, follows.m, follows.step, kept]
    rw [counted] at corrected ⊢
    rw [← corrected]
    simp [inside]
  have weights (p : Nat) : 0 < decay beta1 inputs.length p :=
    pow_pos decays1.1 _
  have entries (p : Nat) (before : p < inputs.length) :
      least ≤ (inputs.map AdamWInput.gradient).getD p 0 i ∧
        (inputs.map AdamWInput.gradient).getD p 0 i ≤ most := by
    have entry := bounded inputs[p] (List.getElem_mem before)
    simpa [before] using entry
  rw [isMean]
  exact ⟨le_mean weights positive fun p before => (entries p before).1,
    mean_le weights positive fun p before => (entries p before).2⟩

end Ordered

/-- A call on a single parameter, with the usual decay rates. -/
def callWith {F : Type} [Field F] (gradient : F) : AdamWInput F where
  grads := [gradient]
  lr := 1 / 1000
  beta1 := 9 / 10
  beta2 := 999 / 1000
  eps := 1 / 100000000
  weightDecay := 1 / 100

/-- The second of two calls takes both gradients, the older one for less. -/
theorem second_call_takes_both_gradients :
    ∃ final,
      run ⟨Real.sqrt, fun x n => x ^ n⟩ .debug
          [callWith (1 / 10), callWith (3 / 10)] (new 1, [1]) = .ok final ∧
        final.2 =
          (List.range 1).map
            (plainRun Real.sqrt [callWith (1 / 10), callWith (3 / 10)]
              ([], fun i => [1].getD i 0)).2 ∧
        meanGradient (9 / 10 : ℝ)
            [(callWith (1 / 10)).gradient, (callWith (3 / 10)).gradient] 0 =
          39 / 190 ∧
        1 / 10 ≤ correctedMoment final.1 (9 / 10) 0 ∧
        correctedMoment final.1 (9 / 10) 0 ≤ 3 / 10 := by
  obtain ⟨final, returned, params, bounds⟩ :=
    @optimizer_takes_means ℝ _ _ _ ⟨Real.sqrt, fun x n => x ^ n⟩ (9 / 10)
      (999 / 1000) [callWith (1 / 10), callWith (3 / 10)]
      (fun x n => zpow_natCast x n) (by norm_num) (by norm_num)
      (by simp [callWith]) (by simp) .debug [1] (by simp [callWith])
  have entry (gradient : ℝ) : (callWith gradient).gradient 0 = gradient := rfl
  have within :=
    bounds 0 Nat.zero_lt_one (1 / 10) (3 / 10) (List.cons_ne_nil _ _)
      (by simp [entry]; norm_num)
  refine ⟨final, returned, params, ?_, within⟩
  simp only [meanGradient, mean, decay, List.length_cons, List.length_nil,
    Finset.sum_range_succ, Finset.sum_range_zero, List.getD_cons_zero,
    List.getD_cons_succ, entry]
  norm_num

end AdamWState

end YieldDaemon
