import YieldDaemon.RowMajor
import YieldDaemon.TiledGemm

namespace YieldDaemon

open CheckedArithmetic WhileLoop TileLoops RowMajor

/-!
# Scaled dot-product attention

The keys are transposed, multiplied with the queries tile by tile, scaled and
brought through a softmax row by row, and the result is multiplied with the
values, tile by tile again.  Nothing is assumed of the arithmetic, so that every
operation may round.
-/

/-- The functions of `f32` that are called. -/
structure FloatFunctions (R : Type) where
  exp : R → R
  sqrt : R → R
  ofUsize : Nat → R

section Layers

variable
  {R : Type}
  [Zero R] [One R] [Add R] [Sub R] [Mul R] [Div R]
  [LT R] [DecidableLT R]
  (functions : FloatFunctions R)
  (profile : Profile)

/-- `if v > max_val { max_val = v; }` over the data after the first. -/
def maxValue (first : R) (rest : List R) : R :=
  rest.foldl (fun maxVal v => if maxVal < v then v else maxVal) first

/-- Softmax over a row vector: subtract max before exp. -/
def softmax : List R → List R
  | [] => []
  | first :: rest =>
      let maxVal := maxValue first rest
      let data :=
        (first :: rest).map (fun v => functions.exp (v - maxVal))
      let sum := data.foldl (· + ·) 0
      let invSum := 1 / sum
      data.map (· * invSum)

/-- `key_t[j * seq_len + i] = key[i * d_model + j]` -/
def transposeEntry
    (key : List R)
    (seqLen dModel i : Nat)
    (keyT : List R)
    (j : Nat) : Checked (List R) := do
  let source ← entryIndex profile i dModel j
  let value ← index key source
  let target ← entryIndex profile j seqLen i
  store keyT target value

/-- Transpose K from (seq_len × d_model) to (d_model × seq_len). -/
def transposeKey
    (key : List R)
    (seqLen dModel : Nat)
    (keyT : List R) : Checked (List R) :=
  (List.range' 0 (seqLen - 0)).foldlM
    (fun keyT i =>
      (List.range' 0 (dModel - 0)).foldlM
        (transposeEntry profile key seqLen dModel i) keyT)
    keyT

/-- `softmax(&mut scores[i * seq_len..(i + 1) * seq_len])` -/
def softmaxRow
    (seqLen : Nat)
    (scores : List R)
    (i : Nat) : Checked (List R) := do
  let start ← mul profile 64 i seqLen
  let next ← add profile 64 i 1
  let stop ← mul profile 64 next seqLen
  if start ≤ stop ∧ stop ≤ scores.length then
    return scores.take start ++
      softmax functions ((scores.drop start).take (stop - start)) ++
      scores.drop stop
  else
    .error .indexOutOfRange

/-- Softmax per row -/
def softmaxRows (seqLen : Nat) (scores : List R) : Checked (List R) :=
  (List.range' 0 (seqLen - 0)).foldlM (softmaxRow functions profile seqLen)
    scores

/-- Scaled dot-product attention: softmax(Q·K^T / √d) · V -/
def scaledDotProductAttention
    (query key value output : List R)
    (seqLen dModel fuel : Nat) : Fueled (List R) := do
  let scale := 1 / functions.sqrt (functions.ofUsize dModel)
  let keySize ← mul profile 64 dModel seqLen
  let keyT ←
    transposeKey profile key seqLen dModel (List.replicate keySize 0)
  let scoresSize ← mul profile 64 seqLen seqLen
  let scores ←
    gemmTiled profile query keyT (List.replicate scoresSize 0) seqLen dModel
      seqLen fuel
  let scores ← softmaxRows functions profile seqLen (scores.map (· * scale))
  gemmTiled profile scores value output seqLen seqLen dModel fuel

/-- The plain loop over the products of two vectors. -/
def plainDot (count : Nat) (left right : Nat → R) : R :=
  (List.range count).foldl (fun sum p => sum + left p * right p) 0

end Layers

/--
The arguments of an attention: matrices of the stated sizes, in slices of which
none, nor the buffer of the scores, is larger than `isize::MAX`.
-/
structure AttentionInput (R : Type) where
  query : List R
  key : List R
  value : List R
  output : List R
  seqLen : Nat
  dModel : Nat
  queryLength : query.length = seqLen * dModel
  keyLength : key.length = seqLen * dModel
  valueLength : value.length = seqLen * dModel
  outputLength : output.length = seqLen * dModel
  slicesFit : seqLen * dModel < 2 ^ 63
  scoresFit : seqLen * seqLen < 2 ^ 63

namespace AttentionInput

section Arithmetic

variable
  {R : Type}
  [Zero R] [One R] [Add R] [Sub R] [Mul R] [Div R]
  [LT R] [DecidableLT R]
  (functions : FloatFunctions R)
  (input : AttentionInput R)

/-- `1 / √d` -/
def scale : R :=
  1 / functions.sqrt (functions.ofUsize input.dModel)

/-- The scaled product of a query and a key, by the plain loop. -/
def score (i p : Nat) : R :=
  plainDot input.dModel
      (fun t => input.query.getD (i * input.dModel + t) 0)
      (fun t => input.key.getD (p * input.dModel + t) 0) *
    input.scale functions

/-- The softmax of the scores of a query. -/
def weights (i : Nat) : List R :=
  softmax functions ((List.range input.seqLen).map (input.score functions i))

/-- The sum of the values, weighted for a query, by the plain loop. -/
def attended (i j : Nat) : R :=
  plainDot input.seqLen
    (fun p => (input.weights functions i).getD p 0)
    (fun p => input.value.getD (p * input.dModel + j) 0)

variable
  {functions}
  {input}
  {profile : Profile}
  {i j : Nat}

omit [Zero R] [One R] [Add R] [Sub R] [Mul R] [Div R] [LT R]
  [DecidableLT R] in
/-- A sequence bounds its length: its square is the size of a buffer. -/
theorem seqLen_lt (input : AttentionInput R) : input.seqLen < 2 ^ 32 := by
  by_contra large
  have square : 2 ^ 32 * 2 ^ 32 ≤ input.seqLen * input.seqLen :=
    Nat.mul_le_mul (Nat.le_of_not_lt large) (Nat.le_of_not_lt large)
  have fits := input.scoresFit
  omega

/-- What has been transposed of the keys: some columns, and part of the next. -/
structure Transposed
    (input : AttentionInput R)
    (done : Nat → Nat → Prop)
    (keyT : List R) : Prop where
  length : keyT.length = input.dModel * input.seqLen
  entries :
    ∀ i < input.seqLen, ∀ j < input.dModel, done i j →
      keyT[j * input.seqLen + i]? =
        some (input.key.getD (i * input.dModel + j) 0)

omit [One R] [Add R] [Sub R] [Mul R] [Div R] [LT R] [DecidableLT R] in
/-- An entry of the keys is stored at its transposed position. -/
theorem transposeEntry_keeps
    {done : Nat → Nat → Prop}
    {keyT : List R}
    (iInside : i < input.seqLen)
    (jInside : j < input.dModel)
    (profile : Profile)
    (kept : input.Transposed done keyT) :
    ∃ next,
      transposeEntry profile input.key input.seqLen input.dModel i keyT j =
          .ok next ∧
        input.Transposed
          (fun row column => (row = i ∧ column = j) ∨ done row column)
          next := by
  have source : i * input.dModel + j < input.key.length := by
    rw [input.keyLength]
    exact GemmInput.entry_lt iInside jInside
  have target : j * input.seqLen + i < keyT.length := by
    rw [kept.length]
    exact GemmInput.entry_lt jInside iInside
  have targetFits : input.dModel * input.seqLen < 2 ^ 63 :=
    Nat.mul_comm input.dModel _ ▸ input.slicesFit
  have found :
      input.key.getD (i * input.dModel + j) 0 =
        input.key[i * input.dModel + j] := by
    rw [List.getD_eq_getElem?_getD, List.getElem?_eq_getElem source,
      Option.getD_some]
  refine ⟨keyT.set (j * input.seqLen + i) input.key[i * input.dModel + j],
    ?_, ?_, ?_⟩
  · rw [transposeEntry,
      GemmInput.entryIndex_eq profile iInside jInside input.slicesFit,
      Checked.ok_bind, index_of_lt source, Checked.ok_bind,
      GemmInput.entryIndex_eq profile jInside iInside targetFits,
      Checked.ok_bind, store_of_lt target]
  · rw [List.length_set, kept.length]
  · intro row rowInside column columnInside isDone
    by_cases here : row = i ∧ column = j
    · obtain ⟨rfl, rfl⟩ := here
      rw [List.getElem?_set_self target, found]
    · have apart :
          j * input.seqLen + i ≠ column * input.seqLen + row := by
        intro same
        obtain ⟨sameColumn, sameRow⟩ :=
          GemmInput.entry_injective iInside rowInside same
        exact here ⟨sameRow.symm, sameColumn.symm⟩
      rw [List.getElem?_set_ne apart]
      exact kept.entries row rowInside column columnInside
        (isDone.resolve_left here)

omit [One R] [Add R] [Sub R] [Mul R] [Div R] [LT R] [DecidableLT R] in
/-- The loops leave the transposed keys. -/
theorem transposeKey_tabulates
    (profile : Profile)
    (input : AttentionInput R) :
    ∃ keyT,
      transposeKey profile input.key input.seqLen input.dModel
          (List.replicate (input.dModel * input.seqLen) 0) = .ok keyT ∧
        Tabulates input.dModel input.seqLen
          (fun j i => input.key.getD (i * input.dModel + j) 0) keyT := by
  obtain ⟨keyT, computed, kept⟩ :=
    @foldlM_range_keeps (List R)
      (fun keyT i =>
        (List.range' 0 (input.dModel - 0)).foldlM
          (transposeEntry profile input.key input.seqLen input.dModel i)
          keyT)
      (fun i => input.Transposed (fun row _ => row < i))
      0 input.seqLen (Nat.zero_le _)
      (by
        intro i keyT _ iInside kept
        obtain ⟨next, computed, nextKept⟩ :=
          @foldlM_range_keeps (List R)
            (transposeEntry profile input.key input.seqLen input.dModel i)
            (fun j => input.Transposed
              (fun row column => (row = i ∧ column < j) ∨ row < i))
            0 input.dModel (Nat.zero_le _)
            (by
              intro j keyT _ jInside kept
              obtain ⟨next, stored, nextKept⟩ :=
                transposeEntry_keeps iInside jInside profile kept
              refine ⟨next, stored, nextKept.length, ?_⟩
              intro row rowInside column columnInside isDone
              refine nextKept.entries row rowInside column columnInside ?_
              omega)
            keyT
            ⟨kept.length, fun row rowInside column columnInside isDone =>
              kept.entries row rowInside column columnInside (by omega)⟩
        refine ⟨next, computed, nextKept.length, ?_⟩
        intro row rowInside column columnInside isDone
        exact nextKept.entries row rowInside column columnInside (by omega))
      (List.replicate (input.dModel * input.seqLen) 0)
      ⟨List.length_replicate,
        fun row _ column _ isDone => absurd isDone (Nat.not_lt_zero row)⟩
  exact ⟨keyT, computed, kept.length, fun j jInside i iInside =>
    kept.entries i iInside j jInside iInside⟩

omit [One R] [Sub R] [Div R] [LT R] [DecidableLT R] in
/-- The tiled product of tabulated matrices tabulates the plain loops. -/
theorem gemmTiled_tabulates
    {a b c : List R}
    {m k n : Nat}
    {left right : Nat → Nat → R}
    (aTabulates : Tabulates m k left a)
    (bTabulates : Tabulates k n right b)
    (cLength : c.length = m * n)
    (aFits : m * k < 2 ^ 63)
    (bFits : k * n < 2 ^ 63)
    (cFits : m * n < 2 ^ 63)
    (mFits : m + gemmTile ≤ 2 ^ 64)
    (profile : Profile) :
    ∃ final,
      EndsWith (gemmTiled profile a b c m k n) final ∧
        Tabulates m n
          (fun i j => plainDot k (left i) (fun p => right p j)) final := by
  let product : GemmInput R :=
    ⟨a, b, c, m, k, n, aTabulates.length, bTabulates.length, cLength,
      aTabulates.length ▸ aFits, bTabulates.length ▸ bFits,
      cLength ▸ cFits⟩
  obtain ⟨final, ends, holds⟩ :=
    @GemmInput.gemmTiled_ends R _ _ _ product mFits profile
  refine ⟨final, ends, holds.length, fun i iInside j jInside => ?_⟩
  rw [holds.entries i iInside j jInside]
  apply congrArg some
  refine List.foldl_ext _ _ _ fun sum p member => ?_
  have pInside : p < k := List.mem_range.mp member
  rw [aTabulates.getD_eq iInside pInside, bTabulates.getD_eq pInside jInside]

theorem length_softmax (data : List R) :
    (softmax functions data).length = data.length := by
  cases data with
  | nil =>
      rfl
  | cons first rest =>
      rw [softmax, List.length_map, List.length_map]

/-- A row is replaced by its softmax. -/
theorem softmaxRow_tabulates
    {scores : List R}
    {entry : Nat → Nat → R}
    (iInside : i < input.seqLen)
    (profile : Profile)
    (tabulates : Tabulates input.seqLen input.seqLen entry scores) :
    ∃ next,
      softmaxRow functions profile input.seqLen scores i = .ok next ∧
        Tabulates input.seqLen input.seqLen
          (fun row column =>
            if row = i then
              (softmax functions
                ((List.range input.seqLen).map (entry i))).getD column 0
            else
              entry row column)
          next := by
  have small := input.seqLen_lt
  have scoresFit := input.scoresFit
  have stopInside :
      (i + 1) * input.seqLen ≤ input.seqLen * input.seqLen :=
    Nat.mul_le_mul_right _ iInside
  have startInside : i * input.seqLen ≤ (i + 1) * input.seqLen :=
    Nat.mul_le_mul_right _ (Nat.le_succ i)
  have width : (i + 1) * input.seqLen - i * input.seqLen = input.seqLen := by
    rw [Nat.succ_mul, Nat.add_sub_cancel_left]
  have inside :
      i * input.seqLen ≤ (i + 1) * input.seqLen ∧
        (i + 1) * input.seqLen ≤ scores.length :=
    ⟨startInside, tabulates.length ▸ stopInside⟩
  have isRow := tabulates.row_eq iInside
  refine
    ⟨setRow input.seqLen i
      (softmax functions (row input.seqLen i scores)) scores, ?_, ?_⟩
  · rw [softmaxRow, mul, fit_of_lt (by omega), Checked.ok_bind,
      add_of_lt (by omega), Checked.ok_bind, mul,
      fit_of_lt (by omega), Checked.ok_bind, if_pos inside, width]
    rfl
  · refine tabulates.setRow iInside ?_
    rw [isRow]
    apply eq_map_getD
    rw [length_softmax, List.length_map, List.length_range]

/-- The loop brings every row through the softmax. -/
theorem softmaxRows_tabulates
    {scores : List R}
    {entry : Nat → Nat → R}
    (profile : Profile)
    (tabulates : Tabulates input.seqLen input.seqLen entry scores) :
    ∃ final,
      softmaxRows functions profile input.seqLen scores = .ok final ∧
        Tabulates input.seqLen input.seqLen
          (fun row column =>
            (softmax functions
              ((List.range input.seqLen).map (entry row))).getD column 0)
          final := by
  obtain ⟨final, computed, kept⟩ :=
    @foldlM_range_keeps (List R)
      (softmaxRow functions profile input.seqLen)
      (fun i =>
        Tabulates input.seqLen input.seqLen
          (fun row column =>
            if row < i then
              (softmax functions
                ((List.range input.seqLen).map (entry row))).getD column 0
            else
              entry row column))
      0 input.seqLen (Nat.zero_le _)
      (by
        intro i scores _ iInside kept
        obtain ⟨next, computed, nextKept⟩ :=
          softmaxRow_tabulates iInside profile kept
        refine ⟨next, computed, nextKept.congr ?_⟩
        intro row _ column _
        by_cases here : row = i
        · subst here
          simp only [if_true, Nat.lt_irrefl, if_false, Nat.lt_succ_self]
        · have same : row < i + 1 ↔ row < i := by
            omega
          simp only [here, if_false, same])
      scores
      (tabulates.congr fun row _ column _ =>
        (if_neg (Nat.not_lt_zero row)).symm)
  exact ⟨final, computed,
    kept.congr fun row inside column _ => if_pos inside⟩

variable (functions)

/-- The tiled attention leaves the softmax-weighted sums of the values. -/
theorem attention_tabulates
    (profile : Profile)
    (input : AttentionInput R) :
    ∃ final,
      EndsWith
          (scaledDotProductAttention functions profile input.query input.key
            input.value input.output input.seqLen input.dModel)
          final ∧
        Tabulates input.seqLen input.dModel (input.attended functions)
          final := by
  have small := input.seqLen_lt
  have slicesFit := input.slicesFit
  have keyFits : input.dModel * input.seqLen < 2 ^ 63 :=
    Nat.mul_comm input.dModel _ ▸ slicesFit
  have rowsFit : input.seqLen + gemmTile ≤ 2 ^ 64 := by
    unfold gemmTile
    omega
  have plain
      {matrix : List R}
      (hasLength : matrix.length = input.seqLen * input.dModel) :
      Tabulates input.seqLen input.dModel
        (fun i j => matrix.getD (i * input.dModel + j) 0) matrix := by
    refine ⟨hasLength, fun i iInside j jInside => ?_⟩
    have inside : i * input.dModel + j < matrix.length := by
      rw [hasLength]
      exact GemmInput.entry_lt iInside jInside
    rw [List.getD_eq_getElem?_getD, List.getElem?_eq_getElem inside,
      Option.getD_some]
  obtain ⟨keyT, transposed, keyTabulates⟩ :=
    transposeKey_tabulates profile input
  obtain ⟨products, productsEnd, productsTabulate⟩ :=
    gemmTiled_tabulates (plain input.queryLength) keyTabulates
      (c := List.replicate (input.seqLen * input.seqLen) 0)
      List.length_replicate slicesFit keyFits input.scoresFit rowsFit profile
  obtain ⟨rows, softened, rowsTabulate⟩ :=
    @softmaxRows_tabulates R _ _ _ _ _ _ _ _ functions input _ _ profile
      (productsTabulate.map (· * input.scale functions))
  obtain ⟨final, ends, tabulates⟩ :=
    gemmTiled_tabulates rowsTabulate (plain input.valueLength)
      input.outputLength input.scoresFit slicesFit slicesFit rowsFit profile
  refine ⟨final, ?_, tabulates⟩
  have keySize :
      mul profile 64 input.dModel input.seqLen =
        .ok (input.dModel * input.seqLen) :=
    fit_of_lt (by omega)
  have scoresSize :
      mul profile 64 input.seqLen input.seqLen =
        .ok (input.seqLen * input.seqLen) :=
    fit_of_lt (by have := input.scoresFit; omega)
  exact EndsWith.lift_bind keySize
    (EndsWith.lift_bind transposed
      (EndsWith.lift_bind scoresSize
        (productsEnd.bind (EndsWith.lift_bind softened ends))))

/--
Over any arithmetic, rounding or not, the tiled attention ends, and every entry
of its output is the one of the plain loops: the products of the queries and the
keys, scaled, through a softmax, and the values summed up with these weights.
-/
theorem attention_follows_plain_loops
    (profile : Profile)
    (input : AttentionInput R) :
    ∃ final,
      EndsWith
          (scaledDotProductAttention functions profile input.query input.key
            input.value input.output input.seqLen input.dModel)
          final ∧
        final.length = input.seqLen * input.dModel ∧
        ∀ i < input.seqLen, ∀ j < input.dModel,
          final[i * input.dModel + j]? =
            some (input.attended functions i j) := by
  obtain ⟨final, ends, tabulates⟩ :=
    attention_tabulates functions profile input
  exact ⟨final, ends, tabulates.length, tabulates.entries⟩

end Arithmetic

end AttentionInput

end YieldDaemon
