import Mathlib.Algebra.BigOperators.Intervals
import Mathlib.Tactic

namespace BucketMethod

/-!
# The bucket method

A sum of multiples is computed from the digits of its factors.  In the window
of a digit every item goes into the bucket of its digit, a running sum weighs
the buckets, and the windows are combined by doublings.  Additions to a bucket
that fail for equal items lose doublings; the result lacks exactly their
multiples.
-/

variable {Group : Type}

section Lossy

variable [AddCommGroup Group] [DecidableEq Group]

/-- Add an item to a sum, unless they are equal. -/
def chordAdd (sum item : Group) : Group :=
  if sum = item then 0 else sum + item

/-- What the additions to a sum lose. -/
def lost : Group → List Group → Group
  | _, [] => 0
  | sum, item :: items =>
      (if sum = item then item + item else 0) + lost (chordAdd sum item) items

/-- The sum and what was lost on the way are the exact sum. -/
theorem foldl_chordAdd_add_lost (sum : Group) (items : List Group) :
    items.foldl chordAdd sum + lost sum items = sum + items.sum := by
  induction items generalizing sum with
  | nil =>
      rw [List.foldl_nil, lost, List.sum_nil]
  | cons item items inductionHypothesis =>
      have step :
          chordAdd sum item + (if sum = item then item + item else 0) =
            sum + item := by
        by_cases same : sum = item
        · rw [chordAdd, if_pos same, if_pos same, same, zero_add]
        · rw [chordAdd, if_neg same, if_neg same, add_zero]
      calc
        items.foldl chordAdd (chordAdd sum item) +
            lost sum (item :: items) =
            (items.foldl chordAdd (chordAdd sum item) +
                lost (chordAdd sum item) items) +
              (if sum = item then item + item else 0) := by
          rw [lost]
          abel
        _ = chordAdd sum item + (if sum = item then item + item else 0) +
              items.sum := by
          rw [inductionHypothesis]
          abel
        _ = sum + (item :: items).sum := by
          rw [step, List.sum_cons, add_assoc]

/-- Without two items nothing is lost. -/
theorem lost_of_length_le_one
    {items : List Group}
    (few : items.length ≤ 1) :
    lost 0 items = 0 := by
  cases items with
  | nil =>
      rfl
  | cons item items =>
      obtain rfl : items = [] :=
        List.length_eq_zero_iff.mp (Nat.le_zero.mp (Nat.succ_le_succ_iff.mp few))
      rw [lost, lost, add_zero]
      split
      · rename_i isZero
        rw [← isZero, add_zero]
      · rfl

end Lossy

/-- A digit of a factor, by its index and its number of bits. -/
def digit (bits index factor : Nat) : Nat :=
  factor / 2 ^ (bits * index) % 2 ^ bits

theorem digit_lt (bits index factor : Nat) :
    digit bits index factor < 2 ^ bits :=
  Nat.mod_lt _ (Nat.two_pow_pos bits)

/-- The digits of a factor sum up to its lowest bits. -/
theorem sum_digits (bits count factor : Nat) :
    ∑ index ∈ Finset.range count,
        2 ^ (bits * index) * digit bits index factor =
      factor % 2 ^ (bits * count) := by
  induction count with
  | zero =>
      rw [Finset.range_zero, Finset.sum_empty, Nat.mul_zero, Nat.pow_zero,
        Nat.mod_one]
  | succ count inductionHypothesis =>
      rw [Finset.sum_range_succ, inductionHypothesis, Nat.mul_succ,
        Nat.pow_add, Nat.mod_mul, digit]

/-- A multiple is the sum of the multiples by the digits. -/
theorem sum_digit_smul
    [AddCommGroup Group]
    {bits count factor : Nat}
    (small : factor < 2 ^ (bits * count))
    (item : Group) :
    ∑ index ∈ Finset.range count,
        2 ^ (bits * index) • digit bits index factor • item =
      factor • item := by
  simp only [smul_smul]
  rw [← Finset.sum_smul, sum_digits, Nat.mod_eq_of_lt small]

/-- The items with a positive digit, by the digit less one. -/
def bucketItems
    (bits index : Nat)
    (items : List (Nat × Group))
    (k : Nat) : List Group :=
  (items.filter (fun item => digit bits index item.1 = k + 1)).map Prod.snd

theorem bucketItems_cons
    (bits index : Nat)
    (item : Nat × Group)
    (items : List (Nat × Group))
    (k : Nat) :
    bucketItems bits index (item :: items) k =
      (if digit bits index item.1 = k + 1 then [item.2] else []) ++
        bucketItems bits index items k := by
  by_cases isDigit : digit bits index item.1 = k + 1
  · simp [bucketItems, isDigit]
  · simp [bucketItems, isDigit]

variable [AddCommGroup Group]

/-- The items of all buckets, weighted, are the multiples by the digits. -/
theorem sum_bucketItems
    (bits index : Nat)
    (items : List (Nat × Group)) :
    ∑ k ∈ Finset.range (2 ^ bits - 1),
        (k + 1) • (bucketItems bits index items k).sum =
      (items.map (fun item => digit bits index item.1 • item.2)).sum := by
  induction items with
  | nil =>
      simp [bucketItems]
  | cons item items inductionHypothesis =>
      have single :
          ∑ k ∈ Finset.range (2 ^ bits - 1),
              (k + 1) •
                (if digit bits index item.1 = k + 1 then [item.2]
                  else []).sum =
            digit bits index item.1 • item.2 := by
        have small := digit_lt bits index item.1
        cases isDigit : digit bits index item.1 with
        | zero =>
            simp
        | succ k =>
            rw [Finset.sum_eq_single k]
            · rw [if_pos rfl, List.sum_singleton]
            · intro other _ different
              have otherDigit : k + 1 ≠ other + 1 := by
                omega
              rw [if_neg otherDigit, List.sum_nil, smul_zero]
            · intro outside
              exact absurd (Finset.mem_range.mpr (by omega)) outside
      simp only [bucketItems_cons, List.sum_append, smul_add]
      rw [Finset.sum_add_distrib, single, inductionHypothesis, List.map_cons,
        List.sum_cons]

section Distribution

variable [DecidableEq Group]

/-- Add an item with a positive digit to its bucket. -/
def distributeItem
    (bits index : Nat)
    (buckets : Nat → Group)
    (item : Nat × Group) : Nat → Group :=
  if 0 < digit bits index item.1 then
    Function.update buckets (digit bits index item.1 - 1)
      (chordAdd (buckets (digit bits index item.1 - 1)) item.2)
  else
    buckets

/-- The buckets of all items. -/
def distribute (bits index : Nat) (items : List (Nat × Group)) : Nat → Group :=
  items.foldl (distributeItem bits index) (fun _ => 0)

/-- A bucket holds what the additions of its items give. -/
theorem distribute_apply
    (bits index : Nat)
    (items : List (Nat × Group))
    (k : Nat) :
    distribute bits index items k =
      (bucketItems bits index items k).foldl chordAdd 0 := by
  have partway (buckets : Nat → Group) :
      items.foldl (distributeItem bits index) buckets k =
        (bucketItems bits index items k).foldl chordAdd (buckets k) := by
    induction items generalizing buckets with
    | nil =>
        rfl
    | cons item items inductionHypothesis =>
        rw [List.foldl_cons, inductionHypothesis, bucketItems_cons,
          List.foldl_append, distributeItem]
        congr 1
        by_cases isDigit : digit bits index item.1 = k + 1
        · rw [if_pos (by omega), if_pos isDigit, isDigit,
            Nat.add_sub_cancel, Function.update_self]
          rfl
        · rw [if_neg isDigit, List.foldl_nil]
          split
          · rw [Function.update_of_ne (by omega)]
          · rfl
  exact partway (fun _ => 0)

end Distribution

/-- A loop downwards starts with the highest index. -/
theorem foldl_range_succ
    {State : Type}
    (step : State → Nat → State)
    (state : State)
    (count : Nat) :
    (List.range (count + 1)).reverse.foldl step state =
      (List.range count).reverse.foldl step (step state count) := by
  rw [List.range_succ, List.reverse_append, List.reverse_singleton,
    List.singleton_append, List.foldl_cons]

/-- Add a bucket to the running sum, and this to the total. -/
def aggregateBucket
    (buckets : Nat → Group)
    (sums : Group × Group)
    (k : Nat) : Group × Group :=
  (sums.1 + buckets k, sums.2 + (sums.1 + buckets k))

/-- The running sum from the highest bucket down, and the sum of these. -/
def aggregate (count : Nat) (buckets : Nat → Group) : Group × Group :=
  (List.range count).reverse.foldl (aggregateBucket buckets) (0, 0)

/-- The sum of the running sums weighs every bucket. -/
theorem aggregate_eq (count : Nat) (buckets : Nat → Group) :
    (aggregate count buckets).2 =
      ∑ k ∈ Finset.range count, (k + 1) • buckets k := by
  have partway (running total : Group) :
      ((List.range count).reverse.foldl (aggregateBucket buckets)
          (running, total)).2 =
        total + count • running +
          ∑ k ∈ Finset.range count, (k + 1) • buckets k := by
    induction count generalizing running total with
    | zero =>
        simp
    | succ count inductionHypothesis =>
        rw [foldl_range_succ, aggregateBucket, inductionHypothesis,
          Finset.sum_range_succ, smul_add, succ_nsmul, succ_nsmul]
        abel
  rw [aggregate, partway, smul_zero, add_zero, zero_add]

theorem foldl_double (bits : Nat) (total : Group) :
    (List.range bits).foldl (fun total _ => total + total) total =
      2 ^ bits • total := by
  induction bits with
  | zero =>
      rw [List.range_zero, List.foldl_nil, pow_zero, one_smul]
  | succ bits inductionHypothesis =>
      rw [List.range_succ, List.foldl_append, inductionHypothesis,
        List.foldl_cons, List.foldl_nil, ← two_smul Nat, smul_smul,
        ← pow_succ']

/-- Shift the sum of the higher windows and add the next one. -/
def addWindow
    (bits last : Nat)
    (windows : Nat → Group)
    (total : Group)
    (index : Nat) : Group :=
  (if index < last then 2 ^ bits • total else total) + windows index

/-- The sum of the windows from the highest one down. -/
def combine (bits count : Nat) (windows : Nat → Group) : Group :=
  (List.range count).reverse.foldl (addWindow bits (count - 1) windows) 0

/-- Every window is shifted to the place of its digits. -/
theorem combine_eq (bits count : Nat) (windows : Nat → Group) :
    combine bits count windows =
      ∑ index ∈ Finset.range count, 2 ^ (bits * index) • windows index := by
  have shifted
      (last rest : Nat)
      (below : rest ≤ last)
      (total : Group) :
      (List.range rest).reverse.foldl (addWindow bits last windows) total =
        2 ^ (bits * rest) • total +
          ∑ index ∈ Finset.range rest,
            2 ^ (bits * index) • windows index := by
    induction rest generalizing total with
    | zero =>
        simp
    | succ rest inductionHypothesis =>
        have inRange : rest < last := below
        rw [foldl_range_succ, inductionHypothesis inRange.le, addWindow,
          if_pos inRange, Finset.sum_range_succ, smul_add, smul_smul,
          ← pow_add, ← Nat.mul_succ]
        abel
  cases count with
  | zero =>
      rfl
  | succ last =>
      rw [combine, foldl_range_succ, Nat.add_sub_cancel,
        shifted last last (Nat.le_refl last), addWindow,
        if_neg (Nat.lt_irrefl last), zero_add, Finset.sum_range_succ,
        add_comm]

/-- The sum of the multiples. -/
def multiples (items : List (Nat × Group)) : Group :=
  (items.map (fun item => item.1 • item.2)).sum

/-- The windows of the digits sum up to the multiples. -/
theorem sum_windows
    {bits count : Nat}
    {items : List (Nat × Group)}
    (small : ∀ item ∈ items, item.1 < 2 ^ (bits * count)) :
    ∑ index ∈ Finset.range count,
        2 ^ (bits * index) •
          (items.map (fun item => digit bits index item.1 • item.2)).sum =
      multiples items := by
  induction items with
  | nil =>
      simp [multiples]
  | cons item items inductionHypothesis =>
      simp only [List.map_cons, List.sum_cons, smul_add]
      rw [Finset.sum_add_distrib,
        sum_digit_smul (small item List.mem_cons_self),
        inductionHypothesis
          (fun other member => small other (List.mem_cons_of_mem item member))]
      rfl

section Whole

variable [DecidableEq Group]

/-- All windows, combined. -/
def bucketSum (bits count : Nat) (items : List (Nat × Group)) : Group :=
  combine bits count
    (fun index =>
      (aggregate (2 ^ bits - 1) (distribute bits index items)).2)

/-- What the additions to all buckets lose, with its weights. -/
def lostSum (bits count : Nat) (items : List (Nat × Group)) : Group :=
  ∑ index ∈ Finset.range count,
    2 ^ (bits * index) •
      ∑ k ∈ Finset.range (2 ^ bits - 1),
        (k + 1) • lost 0 (bucketItems bits index items k)

/-- The bucket method gives the multiples, less what it loses. -/
theorem bucketSum_add_lostSum
    {bits count : Nat}
    {items : List (Nat × Group)}
    (small : ∀ item ∈ items, item.1 < 2 ^ (bits * count)) :
    bucketSum bits count items + lostSum bits count items =
      multiples items := by
  have window (index : Nat) :
      (aggregate (2 ^ bits - 1) (distribute bits index items)).2 +
          ∑ k ∈ Finset.range (2 ^ bits - 1),
            (k + 1) • lost 0 (bucketItems bits index items k) =
        (items.map (fun item => digit bits index item.1 • item.2)).sum := by
    rw [aggregate_eq, ← sum_bucketItems, ← Finset.sum_add_distrib]
    apply Finset.sum_congr rfl
    intro k _
    rw [distribute_apply, ← smul_add, foldl_chordAdd_add_lost, zero_add]
  rw [bucketSum, combine_eq, lostSum, ← Finset.sum_add_distrib,
    ← sum_windows small]
  apply Finset.sum_congr rfl
  intro index _
  rw [← smul_add, window]

/-- The bucket method is exact where the losses cancel, and only there. -/
theorem bucketSum_eq_iff
    {bits count : Nat}
    {items : List (Nat × Group)}
    (small : ∀ item ∈ items, item.1 < 2 ^ (bits * count)) :
    bucketSum bits count items = multiples items ↔
      lostSum bits count items = 0 := by
  rw [← bucketSum_add_lostSum small, left_eq_add]

/-- With at most one item no bucket is added to twice. -/
theorem lostSum_of_length_le_one
    {items : List (Nat × Group)}
    (few : items.length ≤ 1)
    (bits count : Nat) :
    lostSum bits count items = 0 := by
  apply Finset.sum_eq_zero
  intro index _
  have noLoss :
      ∀ k ∈ Finset.range (2 ^ bits - 1),
        (k + 1) • lost 0 (bucketItems bits index items k) = 0 := by
    intro k _
    have fewInBucket : (bucketItems bits index items k).length ≤ 1 := by
      rw [bucketItems, List.length_map]
      exact (List.length_filter_le _ _).trans few
    rw [lost_of_length_le_one fewInBucket, smul_zero]
  rw [Finset.sum_eq_zero noLoss, smul_zero]

theorem digit_one
    {bits : Nat}
    (positive : 1 ≤ bits)
    (index : Nat) :
    digit bits index 1 = if index = 0 then 1 else 0 := by
  have wide : 1 < 2 ^ bits := Nat.one_lt_two_pow (Nat.ne_of_gt positive)
  by_cases isFirst : index = 0
  · rw [if_pos isFirst, isFirst, digit, Nat.mul_zero, Nat.pow_zero,
      Nat.div_one, Nat.mod_eq_of_lt wide]
  · have high : 1 < 2 ^ (bits * index) :=
      Nat.one_lt_two_pow
        (Nat.mul_ne_zero (Nat.ne_of_gt positive) isFirst)
    rw [if_neg isFirst, digit, Nat.div_eq_of_lt high, Nat.zero_mod]

/-- The sum of an item and itself loses the double of it. -/
theorem lostSum_twice
    {bits count : Nat}
    (positive : 1 ≤ bits)
    (someWindow : 1 ≤ count)
    (item : Group) :
    lostSum bits count [(1, item), (1, item)] = item + item := by
  have wide : 1 < 2 ^ bits := Nat.one_lt_two_pow (Nat.ne_of_gt positive)
  have bucket (index k : Nat) :
      bucketItems bits index [(1, item), (1, item)] k =
        if index = 0 ∧ k = 0 then [item, item] else [] := by
    rw [bucketItems_cons, bucketItems_cons, digit_one positive]
    by_cases isFirst : index = 0
    · by_cases isLowest : k = 0
      · simp [isFirst, isLowest, bucketItems]
      · simp [isFirst, isLowest, bucketItems]
    · simp [isFirst, bucketItems]
  have lostTwice : lost 0 [item, item] = item + item := by
    by_cases isZero : item = 0
    · simp [lost, chordAdd, isZero]
    · simp [lost, chordAdd, Ne.symm isZero]
  rw [lostSum, Finset.sum_eq_single 0, Nat.mul_zero, pow_zero, one_smul,
    Finset.sum_eq_single 0, bucket, if_pos ⟨rfl, rfl⟩, lostTwice, Nat.zero_add,
    one_smul]
  · intro k _ higher
    rw [bucket, if_neg (fun isFirst => higher isFirst.2), lost, smul_zero]
  · intro outside
    exact absurd (Finset.mem_range.mpr (by omega)) outside
  · intro index _ higher
    have noLoss :
        ∀ k ∈ Finset.range (2 ^ bits - 1),
          (k + 1) •
            lost 0 (bucketItems bits index [(1, item), (1, item)] k) = 0 := by
      intro k _
      rw [bucket, if_neg (fun isFirst => higher isFirst.1), lost, smul_zero]
    rw [Finset.sum_eq_zero noLoss, smul_zero]
  · intro outside
    exact absurd (Finset.mem_range.mpr someWindow) outside

end Whole

end BucketMethod
