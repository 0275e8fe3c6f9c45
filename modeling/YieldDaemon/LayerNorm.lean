import YieldDaemon.Attention
import Mathlib.Tactic

namespace YieldDaemon

/-!
# Layer normalization and activation

`rms_norm` divides a layer by its root mean square and scales it by weights;
`silu` is the activation of the feed-forward layers.
-/

section Layers

variable
  {R : Type}
  [Zero R] [One R] [Add R] [Mul R] [Div R]
  (functions : FloatFunctions R)

/-- `let rms = (sum_sq / n as f32 + eps).sqrt()` -/
def rootMeanSquare (data : List R) (eps : R) : R :=
  let sumSq := data.foldl (fun sum v => sum + v * v) 0
  functions.sqrt (sumSq / functions.ofUsize data.length + eps)

/-- RMS Layer Normalization: entries without a weight stay as they are. -/
def rmsNorm (data weight : List R) (eps : R) : List R :=
  let invRms := 1 / rootMeanSquare functions data eps
  List.zipWith (fun d w => d * invRms * w) data weight ++
    data.drop weight.length

/-- SiLU activation -/
def silu [Neg R] (x : R) : R :=
  x / (1 + functions.exp (-x))

end Layers

section Exact

variable
  {F : Type}
  [Field F]
  [LinearOrder F]
  [IsStrictOrderedRing F]
  (functions : FloatFunctions F)

/-- The sum of the squares of a layer. -/
def sumSquares (data : List F) : F :=
  data.foldl (fun sum v => sum + v * v) 0

omit [LinearOrder F] [IsStrictOrderedRing F] in
theorem sumSquares_cons (head : F) (rest : List F) :
    sumSquares (head :: rest) = head * head + sumSquares rest := by
  have from_start :
      ∀ (start : F) (data : List F),
        data.foldl (fun sum v => sum + v * v) start =
          start + sumSquares data := by
    intro start data
    unfold sumSquares
    induction data generalizing start with
    | nil =>
        exact (add_zero start).symm
    | cons value data inductionHypothesis =>
        rw [List.foldl_cons, List.foldl_cons, inductionHypothesis,
          inductionHypothesis (0 + value * value)]
        ring
  rw [sumSquares, List.foldl_cons, from_start, zero_add]

theorem sumSquares_nonneg (data : List F) : 0 ≤ sumSquares data := by
  induction data with
  | nil =>
      exact le_refl _
  | cons head rest inductionHypothesis =>
      rw [sumSquares_cons]
      exact add_nonneg (mul_self_nonneg head) inductionHypothesis

/-- Bounded weights scale the squares of a layer at most by their square. -/
theorem sumSquares_zipWith_le
    {largest : F}
    (factor : F)
    (data weight : List F)
    (bounded : ∀ w ∈ weight, |w| ≤ largest) :
    sumSquares (List.zipWith (fun d w => d * factor * w) data weight) ≤
      sumSquares data * (factor * factor) * (largest * largest) := by
  induction data generalizing weight with
  | nil =>
      simp [sumSquares]
  | cons d data inductionHypothesis =>
      cases weight with
      | nil =>
          have nonneg :
              0 ≤ sumSquares (d :: data) * (factor * factor) *
                (largest * largest) :=
            mul_nonneg
              (mul_nonneg (sumSquares_nonneg _) (mul_self_nonneg factor))
              (mul_self_nonneg largest)
          simpa [sumSquares] using nonneg
      | cons w weight =>
          rw [List.forall_mem_cons] at bounded
          have square : w * w ≤ largest * largest := by
            rw [← abs_mul_abs_self w]
            exact mul_self_le_mul_self (abs_nonneg w) bounded.1
          have head :
              d * factor * w * (d * factor * w) ≤
                d * d * (factor * factor) * (largest * largest) :=
            calc d * factor * w * (d * factor * w)
                = d * d * (factor * factor) * (w * w) := by ring
              _ ≤ d * d * (factor * factor) * (largest * largest) :=
                mul_le_mul_of_nonneg_left square
                  (mul_nonneg (mul_self_nonneg d) (mul_self_nonneg factor))
          rw [List.zipWith_cons_cons, sumSquares_cons, sumSquares_cons,
            add_mul, add_mul]
          exact add_le_add head (inductionHypothesis weight bounded.2)

/--
A normalized layer has at most the mean square of its largest weight, whatever
the layer was.
-/
theorem rmsNorm_meanSquare_le
    {largest eps : F}
    {data weight : List F}
    (countExact : ∀ count, functions.ofUsize count = (count : F))
    (sqrtSquare : ∀ x, 0 < x → functions.sqrt x * functions.sqrt x = x)
    (positive : 0 < eps)
    (sameLength : data.length = weight.length)
    (bounded : ∀ w ∈ weight, |w| ≤ largest) :
    sumSquares (rmsNorm functions data weight eps) ≤
      (data.length : F) * (largest * largest) := by
  cases data with
  | nil =>
      simp [rmsNorm, sumSquares]
  | cons d data =>
      generalize isLayer : d :: data = layer at *
      have lengthPos : (0 : F) < layer.length := by
        rw [← isLayer, List.length_cons]
        exact_mod_cast Nat.succ_pos data.length
      have mean :
          0 ≤ sumSquares layer / (layer.length : F) :=
        div_nonneg (sumSquares_nonneg layer) lengthPos.le
      have squarePos : 0 < sumSquares layer / (layer.length : F) + eps :=
        add_pos_of_nonneg_of_pos mean positive
      have squared :
          rootMeanSquare functions layer eps *
              rootMeanSquare functions layer eps =
            sumSquares layer / (layer.length : F) + eps := by
        rw [rootMeanSquare, countExact]
        exact sqrtSquare _ squarePos
      have normalized :
          sumSquares layer *
              (1 / rootMeanSquare functions layer eps *
                (1 / rootMeanSquare functions layer eps)) ≤
            (layer.length : F) := by
        rw [one_div_mul_one_div, squared, mul_one_div,
          div_le_iff₀ squarePos, mul_add, mul_div_cancel₀ _ lengthPos.ne']
        exact le_add_of_nonneg_right (mul_pos lengthPos positive).le
      unfold rmsNorm
      rw [← sameLength, List.drop_length, List.append_nil]
      exact (sumSquares_zipWith_le _ layer weight bounded).trans
        (mul_le_mul_of_nonneg_right normalized (mul_self_nonneg largest))

/-- The activations of opposite inputs differ by the input. -/
theorem silu_sub_silu_neg
    (expPositive : ∀ x, 0 < functions.exp x)
    (expNeg : ∀ x, functions.exp (-x) = (functions.exp x)⁻¹)
    (x : F) :
    silu functions x - silu functions (-x) = x := by
  have exponential := expPositive x
  rw [silu, silu, neg_neg, expNeg]
  field_simp
  ring

end Exact

end YieldDaemon
