import YieldDaemon.TileLoops

namespace YieldDaemon

open CheckedArithmetic WhileLoop TileLoops

/-!
# Tiled matrix multiplication

The product is computed tile by tile, and an entry is carried through the
output buffer from one tile of the inner dimension to the next.  Nothing is
assumed of the sums and products, so that they may round: every entry is summed
up in the order of the plain loop.
-/

section Gemm

variable {R : Type} [Zero R] [Add R] [Mul R] (profile : Profile)

/-- `row * columns + column` -/
def entryIndex (row columns column : Nat) : Checked Nat := do
  let start ← mul profile 64 row columns
  add profile 64 start column

/-- `sum += a[i * k + p] * b[p * n + j]` -/
def addProduct
    (a b : List R)
    (k n i j : Nat)
    (sum : R)
    (p : Nat) : Checked R := do
  let left ← entryIndex profile i k p
  let aEntry ← index a left
  let right ← entryIndex profile p n j
  let bEntry ← index b right
  return sum + aEntry * bEntry

/-- Add the products of one tile of the inner dimension to an entry. -/
def updateEntry
    (a b : List R)
    (k n kk kEnd i : Nat)
    (c : List R)
    (j : Nat) : Checked (List R) := do
  let entry ← entryIndex profile i n j
  let start ← index c entry
  let sum ←
    (List.range' kk (kEnd - kk)).foldlM (addProduct profile a b k n i j) start
  let entry ← entryIndex profile i n j
  store c entry sum

/-- Micro-kernel: multiply a tile of A by a tile of B. -/
def microKernel
    (a b : List R)
    (k n ii iEnd jj jEnd kk kEnd : Nat)
    (c : List R) : Checked (List R) :=
  (List.range' ii (iEnd - ii)).foldlM
    (fun c i =>
      (List.range' jj (jEnd - jj)).foldlM
        (updateEntry profile a b k n kk kEnd i) c)
    c

/-- 64×64 f32 = 16KB, fits L1 cache -/
def gemmTile : Nat := 64

/-- `while kk < k` -/
def innerTiles
    (a b : List R)
    (k n ii iEnd jj jEnd fuel : Nat)
    (c : List R) : Fueled (List R) :=
  tileLoop profile 64 gemmTile k
    (fun _ kk kEnd c =>
      liftM (microKernel profile a b k n ii iEnd jj jEnd kk kEnd c))
    fuel c

/-- `while jj < n` -/
def columnTiles
    (a b : List R)
    (k n ii iEnd fuel : Nat)
    (c : List R) : Fueled (List R) :=
  tileLoop profile 64 gemmTile n
    (fun fuel jj jEnd c => innerTiles profile a b k n ii iEnd jj jEnd fuel c)
    fuel c

/-- Tiled matrix multiplication: C = A * B -/
def gemmTiled (a b c : List R) (m k n fuel : Nat) : Fueled (List R) :=
  tileLoop profile 64 gemmTile m
    (fun fuel ii iEnd c => columnTiles profile a b k n ii iEnd fuel c)
    fuel (c.map (fun _ => 0))

end Gemm

/--
The arguments of a multiplication: matrices of the stated sizes, in slices of
which none is larger than `isize::MAX`.
-/
structure GemmInput (R : Type) where
  a : List R
  b : List R
  c : List R
  m : Nat
  k : Nat
  n : Nat
  aLength : a.length = m * k
  bLength : b.length = k * n
  cLength : c.length = m * n
  aFits : a.length < 2 ^ 63
  bFits : b.length < 2 ^ 63
  cFits : c.length < 2 ^ 63

namespace GemmInput

variable {R : Type} [Zero R] [Add R] [Mul R] (input : GemmInput R)

/-- The plain loop over the first products of an entry, from zero on. -/
def partialSum (i j count : Nat) : R :=
  (List.range count).foldl
    (fun sum p =>
      sum + input.a.getD (i * input.k + p) 0 *
        input.b.getD (p * input.n + j) 0)
    0

/-- The output holds as many products of every entry as the progress says. -/
structure Holds (progress : Nat → Nat → Nat) (out : List R) : Prop where
  length : out.length = input.m * input.n
  entries :
    ∀ i < input.m, ∀ j < input.n,
      out[i * input.n + j]? = some (input.partialSum i j (progress i j))

variable
  {input}
  {profile : Profile}
  {progress other : Nat → Nat → Nat}
  {c : List R}
  {i j p : Nat}

theorem Holds.congr
    (holds : input.Holds progress c)
    (same :
      ∀ i < input.m, ∀ j < input.n, progress i j = other i j) :
    input.Holds other c where
  length := holds.length
  entries i iInside j jInside := by
    rw [← same i iInside j jInside]
    exact holds.entries i iInside j jInside

theorem partialSum_succ :
    input.partialSum i j (p + 1) =
      input.partialSum i j p +
        input.a.getD (i * input.k + p) 0 *
          input.b.getD (p * input.n + j) 0 := by
  rw [partialSum, List.range_succ, List.foldl_append]
  rfl

/-- An entry of a matrix is inside its slice. -/
theorem entry_lt
    {rows columns row column : Nat}
    (rowInside : row < rows)
    (columnInside : column < columns) :
    row * columns + column < rows * columns :=
  calc row * columns + column
      < row * columns + columns := Nat.add_lt_add_left columnInside _
    _ = (row + 1) * columns := (Nat.succ_mul row columns).symm
    _ ≤ rows * columns := Nat.mul_le_mul_right columns rowInside

theorem entryIndex_eq
    {rows columns row column : Nat}
    (profile : Profile)
    (rowInside : row < rows)
    (columnInside : column < columns)
    (fits : rows * columns < 2 ^ 63) :
    entryIndex profile row columns column =
      .ok (row * columns + column) := by
  have inside := entry_lt rowInside columnInside
  have sumFits : row * columns + column < 2 ^ 64 := by
    omega
  rw [entryIndex, mul,
    fit_of_lt ((Nat.le_add_right _ column).trans_lt sumFits),
    Checked.ok_bind, add_of_lt sumFits]

/-- Different entries have different positions. -/
theorem entry_injective
    {columns row column otherRow otherColumn : Nat}
    (columnInside : column < columns)
    (otherInside : otherColumn < columns)
    (same :
      row * columns + column = otherRow * columns + otherColumn) :
    row = otherRow ∧ column = otherColumn := by
  have rows : (row * columns + column) / columns = row := by
    rw [Nat.mul_comm, Nat.mul_add_div (Nat.zero_lt_of_lt columnInside),
      Nat.div_eq_of_lt columnInside, Nat.add_zero]
  have otherRows :
      (otherRow * columns + otherColumn) / columns = otherRow := by
    rw [Nat.mul_comm, Nat.mul_add_div (Nat.zero_lt_of_lt otherInside),
      Nat.div_eq_of_lt otherInside, Nat.add_zero]
  have sameRow : row = otherRow := by
    rw [← rows, same, otherRows]
  subst sameRow
  exact ⟨rfl, Nat.add_left_cancel same⟩

theorem addProduct_eq
    (iInside : i < input.m)
    (jInside : j < input.n)
    (pInside : p < input.k)
    (profile : Profile)
    (sum : R) :
    addProduct profile input.a input.b input.k input.n i j sum p =
      .ok (sum + input.a.getD (i * input.k + p) 0 *
        input.b.getD (p * input.n + j) 0) := by
  have aInside : i * input.k + p < input.a.length := by
    rw [input.aLength]
    exact entry_lt iInside pInside
  have bInside : p * input.n + j < input.b.length := by
    rw [input.bLength]
    exact entry_lt pInside jInside
  rw [addProduct,
    entryIndex_eq profile iInside pInside (input.aLength ▸ input.aFits),
    Checked.ok_bind, index_of_lt aInside, Checked.ok_bind,
    entryIndex_eq profile pInside jInside (input.bLength ▸ input.bFits),
    Checked.ok_bind, index_of_lt bInside, Checked.ok_bind]
  simp [aInside, bInside]

/-- An update brings its entry from the start of a tile to the end. -/
theorem updateEntry_holds
    {kk kEnd : Nat}
    (iInside : i < input.m)
    (jInside : j < input.n)
    (ordered : kk ≤ kEnd)
    (kInside : kEnd ≤ input.k)
    (profile : Profile)
    (holds : input.Holds progress c)
    (atStart : progress i j = kk) :
    ∃ next,
      updateEntry profile input.a input.b input.k input.n kk kEnd i c j =
          .ok next ∧
        input.Holds
          (fun row column =>
            if row = i ∧ column = j then kEnd else progress row column)
          next := by
  have inside : i * input.n + j < c.length := by
    rw [holds.length]
    exact entry_lt iInside jInside
  have found :
      index c (i * input.n + j) = .ok (input.partialSum i j kk) := by
    rw [index_eq_ok, holds.entries i iInside j jInside, atStart]
  obtain ⟨sum, summed, isSum⟩ :=
    @foldlM_range_keeps R
      (addProduct profile input.a input.b input.k input.n i j)
      (fun p sum => sum = input.partialSum i j p)
      kk kEnd ordered
      (by
        rintro p sum - below rfl
        exact ⟨_, addProduct_eq iInside jInside (below.trans_le kInside)
          profile _, partialSum_succ.symm⟩)
      _ rfl
  subst isSum
  refine ⟨c.set (i * input.n + j) (input.partialSum i j kEnd), ?_, ?_, ?_⟩
  · rw [updateEntry,
      entryIndex_eq profile iInside jInside (input.cLength ▸ input.cFits),
      Checked.ok_bind, found, Checked.ok_bind, summed, Checked.ok_bind,
      Checked.ok_bind, store_of_lt inside]
  · rw [List.length_set, holds.length]
  · intro row rowInside column columnInside
    by_cases here : row = i ∧ column = j
    · obtain ⟨rfl, rfl⟩ := here
      rw [if_pos ⟨rfl, rfl⟩, List.getElem?_set_self inside]
    · have apart : i * input.n + j ≠ row * input.n + column :=
        fun same => here
          ((entry_injective jInside columnInside same).imp Eq.symm Eq.symm)
      rw [if_neg here, List.getElem?_set_ne apart]
      exact holds.entries row rowInside column columnInside

variable {ii iEnd jj jEnd kk kEnd : Nat}

/-- The updates of a row bring the entries of the tile to the end. -/
theorem row_holds
    (iInside : i < input.m)
    (jOrdered : jj ≤ jEnd)
    (jBound : jEnd ≤ input.n)
    (kOrdered : kk ≤ kEnd)
    (kBound : kEnd ≤ input.k)
    (profile : Profile)
    (holds : input.Holds progress c)
    (atStart : ∀ j, jj ≤ j → j < jEnd → progress i j = kk) :
    ∃ next,
      (List.range' jj (jEnd - jj)).foldlM
          (updateEntry profile input.a input.b input.k input.n kk kEnd i) c =
          .ok next ∧
        input.Holds
          (fun row column =>
            if row = i ∧ jj ≤ column ∧ column < jEnd then
              kEnd
            else
              progress row column)
          next :=
  foldlM_range_keeps
    (fun j c =>
      input.Holds
        (fun row column =>
          if row = i ∧ jj ≤ column ∧ column < j then
            kEnd
          else
            progress row column)
        c)
    jOrdered
    (by
      intro j c above below kept
      have atEntry :
          (if i = i ∧ jj ≤ j ∧ j < j then kEnd else progress i j) = kk := by
        rw [if_neg (fun inside => inside.2.2.false)]
        exact atStart j above below
      obtain ⟨next, updated, nextHolds⟩ :=
        updateEntry_holds iInside (below.trans_le jBound) kOrdered kBound
          profile kept atEntry
      refine ⟨next, updated, nextHolds.congr fun row _ column _ => ?_⟩
      split_ifs <;> first | rfl | omega)
    (holds.congr fun row _ column _ => by
      rw [if_neg (by omega)])

/-- The micro-kernel brings all entries of its tile to the end. -/
theorem microKernel_holds
    (iOrdered : ii ≤ iEnd)
    (iBound : iEnd ≤ input.m)
    (jOrdered : jj ≤ jEnd)
    (jBound : jEnd ≤ input.n)
    (kOrdered : kk ≤ kEnd)
    (kBound : kEnd ≤ input.k)
    (profile : Profile)
    (holds : input.Holds progress c)
    (atStart :
      ∀ i j, ii ≤ i → i < iEnd → jj ≤ j → j < jEnd → progress i j = kk) :
    ∃ next,
      microKernel profile input.a input.b input.k input.n ii iEnd jj jEnd
          kk kEnd c = .ok next ∧
        input.Holds
          (fun row column =>
            if (ii ≤ row ∧ row < iEnd) ∧ jj ≤ column ∧ column < jEnd then
              kEnd
            else
              progress row column)
          next :=
  foldlM_range_keeps
    (fun i c =>
      input.Holds
        (fun row column =>
          if (ii ≤ row ∧ row < i) ∧ jj ≤ column ∧ column < jEnd then
            kEnd
          else
            progress row column)
        c)
    iOrdered
    (by
      intro i c above below kept
      obtain ⟨next, updated, nextHolds⟩ :=
        row_holds (below.trans_le iBound) jOrdered jBound kOrdered kBound
          profile kept
          (by
            intro j jAbove jBelow
            rw [if_neg (fun inside => inside.1.2.false)]
            exact atStart i j above below jAbove jBelow)
      refine ⟨next, updated, nextHolds.congr fun row _ column _ => ?_⟩
      split_ifs <;> first | rfl | omega)
    (holds.congr fun row _ column _ => by
      rw [if_neg (by omega)])

/-- The tiles of the inner dimension complete the entries of a tile. -/
theorem innerTiles_holds
    (iOrdered : ii ≤ iEnd)
    (iBound : iEnd ≤ input.m)
    (jOrdered : jj ≤ jEnd)
    (jBound : jEnd ≤ input.n)
    (kFits : input.k + gemmTile ≤ 2 ^ 64)
    (profile : Profile)
    (holds : input.Holds progress c)
    (atStart :
      ∀ i j, ii ≤ i → i < iEnd → jj ≤ j → j < jEnd → progress i j = 0) :
    ∃ next,
      EndsWith
          (fun fuel =>
            innerTiles profile input.a input.b input.k input.n ii iEnd jj
              jEnd fuel c)
          next ∧
        input.Holds
          (fun row column =>
            if (ii ≤ row ∧ row < iEnd) ∧ jj ≤ column ∧ column < jEnd then
              input.k
            else
              progress row column)
          next :=
  tileLoop_ends
    (fun kk c =>
      input.Holds
        (fun row column =>
          if (ii ≤ row ∧ row < iEnd) ∧ jj ≤ column ∧ column < jEnd then
            kk
          else
            progress row column)
        c)
    (by decide)
    kFits
    (by
      intro kk c below kept
      obtain ⟨next, multiplied, nextHolds⟩ :=
        microKernel_holds iOrdered iBound jOrdered jBound
          (le_min (Nat.le_add_right kk gemmTile) below.le)
          (min_le_right _ _) profile kept
          (by
            intro i j iAbove iBelow jAbove jBelow
            exact if_pos ⟨⟨iAbove, iBelow⟩, jAbove, jBelow⟩)
      refine ⟨next, ?_, nextHolds.congr fun row _ column _ => ?_⟩
      · rw [multiplied]
        exact EndsWith.pure next
      · split_ifs <;> rfl)
    (holds.congr fun row _ column _ => by
      split_ifs with inside
      · exact atStart row column inside.1.1 inside.1.2 inside.2.1 inside.2.2
      · rfl)

omit [Zero R] [Add R] [Mul R] in
/-- A column to multiply with bounds the inner dimension. -/
theorem k_fits (input : GemmInput R) (positive : 0 < input.n) :
    input.k + gemmTile ≤ 2 ^ 64 := by
  have bounded : input.k < 2 ^ 63 :=
    (Nat.le_mul_of_pos_right _ positive).trans_lt
      (input.bLength ▸ input.bFits)
  unfold gemmTile
  omega

omit [Zero R] [Add R] [Mul R] in
/-- A row to compute bounds the number of columns. -/
theorem n_fits (input : GemmInput R) (positive : 0 < input.m) :
    input.n + gemmTile ≤ 2 ^ 64 := by
  have bounded : input.n < 2 ^ 63 :=
    (Nat.le_mul_of_pos_left _ positive).trans_lt
      (input.cLength ▸ input.cFits)
  unfold gemmTile
  omega

/-- The tiles of the columns complete the rows of a tile. -/
theorem columnTiles_holds
    (iOrdered : ii ≤ iEnd)
    (iBound : iEnd ≤ input.m)
    (nFits : input.n + gemmTile ≤ 2 ^ 64)
    (profile : Profile)
    (holds : input.Holds progress c)
    (atStart : ∀ i j, ii ≤ i → i < iEnd → progress i j = 0) :
    ∃ next,
      EndsWith
          (fun fuel =>
            columnTiles profile input.a input.b input.k input.n ii iEnd
              fuel c)
          next ∧
        input.Holds
          (fun row column =>
            if (ii ≤ row ∧ row < iEnd) ∧ column < input.n then
              input.k
            else
              progress row column)
          next :=
  tileLoop_ends
    (fun jj c =>
      input.Holds
        (fun row column =>
          if (ii ≤ row ∧ row < iEnd) ∧ column < jj then
            input.k
          else
            progress row column)
        c)
    (by decide)
    nFits
    (by
      intro jj c below kept
      obtain ⟨next, ends, nextHolds⟩ :=
        innerTiles_holds iOrdered iBound
          (le_min (Nat.le_add_right jj gemmTile) below.le)
          (min_le_right _ _) (input.k_fits (Nat.zero_lt_of_lt below)) profile
          kept
          (by
            intro i j iAbove iBelow jAbove _
            rw [if_neg (fun inside => jAbove.not_gt inside.2)]
            exact atStart i j iAbove iBelow)
      refine ⟨next, ends, nextHolds.congr fun row _ column _ => ?_⟩
      have covers : jj ≤ min (jj + gemmTile) input.n :=
        le_min (Nat.le_add_right jj gemmTile) below.le
      split_ifs <;> first | rfl | omega)
    (holds.congr fun row _ column _ => by
      rw [if_neg (fun inside => Nat.not_lt_zero _ inside.2)])

/-- The whole loop completes all entries. -/
theorem gemmTiled_ends
    (mFits : input.m + gemmTile ≤ 2 ^ 64)
    (profile : Profile) :
    ∃ final,
      EndsWith
          (gemmTiled profile input.a input.b input.c input.m input.k input.n)
          final ∧
        input.Holds (fun _ _ => input.k) final := by
  have cleared :
      input.Holds (fun _ _ => 0) (input.c.map (fun _ => 0)) := by
    refine ⟨by rw [List.length_map, input.cLength], ?_⟩
    intro i iInside j jInside
    have inside : i * input.n + j < input.c.length := by
      rw [input.cLength]
      exact entry_lt iInside jInside
    rw [List.getElem?_map, List.getElem?_eq_getElem inside]
    rfl
  obtain ⟨final, ends, holds⟩ :=
    @tileLoop_ends (List R) profile 64 gemmTile input.m
      (fun fuel ii iEnd c =>
        columnTiles profile input.a input.b input.k input.n ii iEnd fuel c)
      (fun ii c =>
        input.Holds (fun row _ => if row < ii then input.k else 0) c)
      (by decide)
      mFits
      (by
        intro ii c below kept
        obtain ⟨next, ends, nextHolds⟩ :=
          columnTiles_holds (le_min (Nat.le_add_right ii gemmTile) below.le)
            (min_le_right _ _) (input.n_fits (Nat.zero_lt_of_lt below))
            profile kept (fun i _ above _ => if_neg (Nat.not_lt.mpr above))
        refine ⟨next, ends, nextHolds.congr fun row _ column inside => ?_⟩
        have covers : ii ≤ min (ii + gemmTile) input.m :=
          le_min (Nat.le_add_right ii gemmTile) below.le
        split_ifs <;> first | rfl | omega)
      _ (cleared.congr fun row _ column _ =>
        (if_neg (Nat.not_lt_zero row)).symm)
  exact ⟨final, ends,
    holds.congr fun row inside column _ => if_pos inside⟩

/-- The output has the entries of the plain loop, in row-major order. -/
structure IsProduct (input : GemmInput R) (out : List R) : Prop where
  length : out.length = input.m * input.n
  entries :
    ∀ i < input.m, ∀ j < input.n,
      out[i * input.n + j]? = some (input.partialSum i j input.k)

/-- The multiplication ends with the product of the plain loop. -/
def EndsWithProduct (profile : Profile) (input : GemmInput R) : Prop :=
  ∃ final,
    EndsWith
        (gemmTiled profile input.a input.b input.c input.m input.k input.n)
        final ∧
      input.IsProduct final

/--
The tiled multiplication ends with the product of the plain loop exactly if the
rows end at least a tile below the largest integer.  More rows are possible
only for empty matrices.
-/
theorem gemmTiled_is_product_iff
    (profile : Profile)
    (input : GemmInput R) :
    input.EndsWithProduct profile ↔ input.m ≤ 2 ^ 64 - 64 := by
  constructor
  · rintro ⟨final, ends, -⟩
    by_contra large
    have beyond : 2 ^ 64 < input.m + gemmTile := by
      unfold gemmTile
      omega
    exact tileLoop_never_ends (by decide) beyond _ final ends
  · intro small
    have mFits : input.m + gemmTile ≤ 2 ^ 64 := by
      unfold gemmTile
      omega
    obtain ⟨final, ends, holds⟩ := gemmTiled_ends mFits profile
    exact ⟨final, ends, holds.length, holds.entries⟩

/-- As many rows of nothing as a usize can count. -/
def emptyRows : GemmInput Int where
  a := []
  b := []
  c := []
  m := 2 ^ 64 - 1
  k := 0
  n := 0
  aLength := rfl
  bLength := rfl
  cLength := rfl
  aFits := by decide
  bFits := by decide
  cFits := by decide

/-- These rows never end, neither in a debug build nor in a release build. -/
theorem empty_rows_never_end :
    ¬ emptyRows.EndsWithProduct .debug ∧
      ¬ emptyRows.EndsWithProduct .release := by
  have never (profile : Profile) : ¬ emptyRows.EndsWithProduct profile := by
    rintro ⟨final, ends, -⟩
    exact tileLoop_never_ends (by decide) (by decide) _ final ends
  exact ⟨never .debug, never .release⟩

end GemmInput

end YieldDaemon
