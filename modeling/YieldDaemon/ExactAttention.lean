import YieldDaemon.Attention
import YieldDaemon.WeightedMeans
import Mathlib.Analysis.SpecialFunctions.Exp

namespace YieldDaemon

open CheckedArithmetic WhileLoop WeightedMeans

/-!
# Attention in exact arithmetic

Without rounding, and with an exponential that turns differences into quotients,
subtracting the maximum before the softmax changes nothing, and the output
consists of means of the values.
-/

namespace AttentionInput

open Finset

variable
  {F : Type}
  [Field F]
  [LinearOrder F]
  (functions : FloatFunctions F)
  (input : AttentionInput F)

/-- The entry of `Q·K^T / √d` for a query and a key. -/
def exactScore (i p : Nat) : F :=
  (∑ t ∈ range input.dModel,
      input.query.getD (i * input.dModel + t) 0 *
        input.key.getD (p * input.dModel + t) 0) /
    functions.sqrt (functions.ofUsize input.dModel)

/-- The entry of `softmax(Q·K^T / √d) · V` for a query and a column. -/
def exactOutput (i j : Nat) : F :=
  mean input.seqLen
    (fun p => functions.exp (input.exactScore functions i p))
    (fun p => input.value.getD (p * input.dModel + j) 0)

variable {functions} {input}

omit [LinearOrder F] in
theorem plainDot_eq_sum (count : Nat) (left right : Nat → F) :
    plainDot count left right = ∑ p ∈ range count, left p * right p :=
  foldl_add_eq_sum (fun p => left p * right p) count

omit [LinearOrder F] in
theorem score_eq_exactScore (i p : Nat) :
    input.score functions i p = input.exactScore functions i p := by
  rw [score, plainDot_eq_sum, scale, exactScore, one_div, div_eq_mul_inv]

/-- An entry of a softmax is its normalized, shifted exponential. -/
theorem softmax_map_range
    (score : Nat → F)
    (count : Nat) :
    ∃ shift,
      ∀ p < count,
        (softmax functions ((List.range count).map score)).getD p 0 =
          functions.exp (score p - shift) *
            (1 / ∑ q ∈ range count, functions.exp (score q - shift)) := by
  cases count with
  | zero =>
      exact ⟨0, fun p inside => absurd inside (Nat.not_lt_zero p)⟩
  | succ count =>
      obtain ⟨first, rest, isData⟩ :
          ∃ first rest,
            (List.range (count + 1)).map score = first :: rest :=
        ⟨_, _, by rw [List.range_succ_eq_map, List.map_cons]⟩
      refine ⟨maxValue first rest, fun p inside => ?_⟩
      rw [isData, softmax, ← isData, List.map_map, List.foldl_map,
        List.map_map, List.getD_eq_getElem?_getD, List.getElem?_map,
        List.getElem?_range inside, Option.map_some, Option.getD_some]
      simp only [Function.comp_apply]
      rw [List.foldl_map, foldl_add_eq_sum
        (fun q => functions.exp (score q - maxValue first rest))]

variable (functions)

/-- The softmax weights give the mean under the plain exponentials. -/
theorem attended_eq_exactOutput
    (expNonzero : ∀ x, functions.exp x ≠ 0)
    (expSub :
      ∀ x y, functions.exp (x - y) = functions.exp x / functions.exp y)
    (i j : Nat) :
    input.attended functions i j = input.exactOutput functions i j := by
  obtain ⟨shift, entries⟩ :=
    @softmax_map_range F _ _ functions (input.score functions i) input.seqLen
  have weighted :
      input.attended functions i j =
        ∑ p ∈ range input.seqLen,
          functions.exp (input.score functions i p - shift) *
              (1 / ∑ q ∈ range input.seqLen,
                functions.exp (input.score functions i q - shift)) *
            input.value.getD (p * input.dModel + j) 0 := by
    rw [attended, plainDot_eq_sum]
    refine sum_congr rfl fun p member => ?_
    rw [weights, entries p (mem_range.mp member)]
  rw [weighted,
    sum_normalized_eq_mean input.seqLen
      (fun p => functions.exp (input.score functions i p - shift))]
  simp only [expSub, score_eq_exactScore]
  exact mean_div (expNonzero shift)

/--
In exact arithmetic the attention computes softmax(Q·K^T / √d) · V, although it
transposes the keys, multiplies tile by tile and shifts the scores by their
maximum; and an entry of the output lies between any bounds of the values in its
column.
-/
theorem attention_is_exact
    [IsStrictOrderedRing F]
    (expPositive : ∀ x, 0 < functions.exp x)
    (expSub :
      ∀ x y, functions.exp (x - y) = functions.exp x / functions.exp y)
    (profile : Profile)
    (input : AttentionInput F) :
    ∃ final,
      EndsWith
          (scaledDotProductAttention functions profile input.query input.key
            input.value input.output input.seqLen input.dModel)
          final ∧
        ∀ i < input.seqLen, ∀ j < input.dModel,
          final[i * input.dModel + j]? =
              some (input.exactOutput functions i j) ∧
            ∀ low high,
              (∀ p < input.seqLen,
                  low ≤ input.value.getD (p * input.dModel + j) 0 ∧
                    input.value.getD (p * input.dModel + j) 0 ≤ high) →
                low ≤ input.exactOutput functions i j ∧
                  input.exactOutput functions i j ≤ high := by
  obtain ⟨final, ends, tabulates⟩ :=
    attention_tabulates functions profile input
  refine ⟨final, ends, fun i iInside j jInside => ⟨?_, ?_⟩⟩
  · rw [tabulates.entries i iInside j jInside,
      attended_eq_exactOutput functions (fun x => (expPositive x).ne') expSub]
  · intro low high bounded
    have nonempty : 0 < input.seqLen := Nat.zero_lt_of_lt iInside
    exact
      ⟨le_mean (fun p => expPositive _) nonempty
          (fun p inside => (bounded p inside).1),
        mean_le (fun p => expPositive _) nonempty
          (fun p inside => (bounded p inside).2)⟩

/-- Two positions with the values 0 and 1, over the real numbers. -/
noncomputable def twoPositions : AttentionInput ℝ where
  query := [1, 0]
  key := [0, 1]
  value := [0, 1]
  output := [0, 0]
  seqLen := 2
  dModel := 1
  queryLength := rfl
  keyLength := rfl
  valueLength := rfl
  outputLength := rfl
  slicesFit := by decide
  scoresFit := by decide

/-- The functions of the real numbers. -/
noncomputable def realFunctions : FloatFunctions ℝ where
  exp := Real.exp
  sqrt := Real.sqrt
  ofUsize := Nat.cast

/-- Both positions attend to a value between 0 and 1. -/
theorem two_positions_attend_between :
    ∃ final,
      EndsWith
          (scaledDotProductAttention realFunctions .debug twoPositions.query
            twoPositions.key twoPositions.value twoPositions.output 2 1)
          final ∧
        ∀ i < 2,
          ∃ entry, final[i]? = some entry ∧ 0 ≤ entry ∧ entry ≤ 1 := by
  obtain ⟨final, ends, entries⟩ :=
    attention_is_exact realFunctions Real.exp_pos Real.exp_sub .debug
      twoPositions
  refine ⟨final, ends, fun i inside => ?_⟩
  obtain ⟨isEntry, bounded⟩ := entries i inside 0 Nat.zero_lt_one
  rw [show i * twoPositions.dModel + 0 = i from Nat.mul_one i] at isEntry
  refine ⟨_, isEntry, bounded 0 1 fun p inside => ?_⟩
  have cases : p = 0 ∨ p = 1 := by
    have : p < 2 := inside
    omega
  rcases cases with rfl | rfl <;> simp [twoPositions]

end AttentionInput

end YieldDaemon
