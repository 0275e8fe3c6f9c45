import Mathlib.Data.List.GetD
import YieldDaemon.CheckedArithmetic

namespace YieldDaemon

open CheckedArithmetic

/-!
# Order book

The prices of several pools in one array each.  The exhaustive detection
compares each ask with each bid of another pool.  Prices are u64.
-/

/-- SoA order book: position by position a bid, an ask and their pool. -/
structure SoAOrderBook where
  bidPrices : List Nat
  askPrices : List Nat
  poolIds : List Nat
  len : Nat
  bidPricesLength : bidPrices.length = len
  askPricesLength : askPrices.length = len
  poolIdsLength : poolIds.length = len
  bidPricesFit : ∀ bid ∈ bidPrices, bid < 2 ^ 64
  askPricesFit : ∀ ask ∈ askPrices, ask < 2 ^ 64

namespace SoAOrderBook

/-- Compare the ask of a position with the bid of another one. -/
def comparePrices
    (book : SoAOrderBook)
    (minSpread i : Nat)
    (opportunities : List (Nat × Nat × Nat))
    (j : Nat) : Checked (List (Nat × Nat × Nat)) := do
  if i = j then
    return opportunities
  let buyPool ← index book.poolIds i
  let sellPool ← index book.poolIds j
  if buyPool = sellPool then
    return opportunities
  let bid ← index book.bidPrices j
  let ask ← index book.askPrices i
  if ask < bid then
    -- The difference is not negative here.
    if minSpread ≤ bid - ask then
      return opportunities ++ [(i, j, bid - ask)]
  return opportunities

/-- Detect cross-exchange arbitrage: bid on one exchange > ask on another. -/
def detectArbitrage
    (book : SoAOrderBook)
    (minSpread : Nat) : Checked (List (Nat × Nat × Nat)) :=
  (List.range book.len).foldlM
    (fun opportunities i =>
      (List.range book.len).foldlM (book.comparePrices minSpread i)
        opportunities)
    []

variable {book : SoAOrderBook} {i j : Nat}

def bid (book : SoAOrderBook) (i : Nat) : Nat :=
  book.bidPrices.getD i 0

def ask (book : SoAOrderBook) (i : Nat) : Nat :=
  book.askPrices.getD i 0

def pool (book : SoAOrderBook) (i : Nat) : Nat :=
  book.poolIds.getD i 0

/-- An access in range finds the entry of the position. -/
theorem index_getD
    {values : List Nat}
    (length : values.length = book.len)
    (inRange : i < book.len) :
    index values i = .ok (values.getD i 0) := by
  have inValues : i < values.length := inRange.trans_eq length.symm
  rw [index_of_lt inValues, List.getD_eq_getElem _ _ inValues]

theorem index_bidPrices (inRange : i < book.len) :
    index book.bidPrices i = .ok (book.bid i) :=
  index_getD book.bidPricesLength inRange

theorem index_askPrices (inRange : i < book.len) :
    index book.askPrices i = .ok (book.ask i) :=
  index_getD book.askPricesLength inRange

theorem index_poolIds (inRange : i < book.len) :
    index book.poolIds i = .ok (book.pool i) :=
  index_getD book.poolIdsLength inRange

/-- An entry of a list below a bound, or the default of the access, is too. -/
theorem getD_lt
    {values : List Nat}
    (small : ∀ value ∈ values, value < 2 ^ 64)
    (i : Nat) :
    values.getD i 0 < 2 ^ 64 := by
  by_cases inRange : i < values.length
  · rw [List.getD_eq_getElem _ _ inRange]
    exact small _ (List.getElem_mem inRange)
  · rw [List.getD_eq_default _ _ (Nat.not_lt.mp inRange)]
    exact Nat.two_pow_pos 64

theorem bid_lt (book : SoAOrderBook) (i : Nat) : book.bid i < 2 ^ 64 :=
  getD_lt book.bidPricesFit i

theorem ask_lt (book : SoAOrderBook) (i : Nat) : book.ask i < 2 ^ 64 :=
  getD_lt book.askPricesFit i

/-- Bought at one position, a unit is sold for more in another pool. -/
structure Crosses (book : SoAOrderBook) (i j : Nat) : Prop where
  buyInRange : i < book.len
  sellInRange : j < book.len
  apart : book.pool i ≠ book.pool j
  gains : book.ask i < book.bid j

/-- What a comparison of two positions finds. -/
def found (book : SoAOrderBook) (minSpread i j : Nat) :
    List (Nat × Nat × Nat) :=
  if book.pool i ≠ book.pool j ∧ book.ask i < book.bid j ∧
      minSpread ≤ book.bid j - book.ask i then
    [(i, j, book.bid j - book.ask i)]
  else
    []

theorem comparePrices_eq
    (buyInRange : i < book.len)
    (sellInRange : j < book.len)
    (minSpread : Nat)
    (opportunities : List (Nat × Nat × Nat)) :
    book.comparePrices minSpread i opportunities j =
      .ok (opportunities ++ book.found minSpread i j) := by
  unfold comparePrices found
  by_cases same : i = j
  · simp [same]
  rw [if_neg same, index_poolIds buyInRange, index_poolIds sellInRange,
    index_bidPrices sellInRange, index_askPrices buyInRange]
  simp only [Checked.ok_bind]
  by_cases samePool : book.pool i = book.pool j
  · simp [samePool]
  · by_cases gains : book.ask i < book.bid j
    · by_cases enough : minSpread ≤ book.bid j - book.ask i <;>
        simp [samePool, gains, enough]
    · simp [samePool, gains]

/-- The detection returns what the comparisons of all positions find. -/
theorem detectArbitrage_eq (book : SoAOrderBook) (minSpread : Nat) :
    book.detectArbitrage minSpread =
      .ok ((List.range book.len).flatMap (fun i =>
        (List.range book.len).flatMap (book.found minSpread i))) := by
  have inner :
      ∀ i ∈ List.range book.len, ∀ opportunities,
        (List.range book.len).foldlM (book.comparePrices minSpread i)
            opportunities =
          .ok (opportunities ++
            (List.range book.len).flatMap (book.found minSpread i)) := by
    intro i buyMember opportunities
    have simulated :=
      Checked.foldlM_simulates id _
        (fun j sellMember earlier =>
          comparePrices_eq (List.mem_range.mp buyMember)
            (List.mem_range.mp sellMember) minSpread earlier)
        opportunities
    rw [List.foldl_append_eq_append] at simulated
    exact simulated
  have simulated :
      book.detectArbitrage minSpread =
        .ok ((List.range book.len).foldl
          (fun earlier i =>
            earlier ++
              (List.range book.len).flatMap (book.found minSpread i)) []) :=
    Checked.foldlM_simulates id _ inner []
  rw [List.foldl_append_eq_append] at simulated
  exact simulated

/-- The detection finds the pairs that cross by the smallest spread at least. -/
theorem mem_detectArbitrage
    {minSpread : Nat}
    {opportunities : List (Nat × Nat × Nat)}
    (returned : book.detectArbitrage minSpread = .ok opportunities)
    {entry : Nat × Nat × Nat} :
    entry ∈ opportunities ↔
      book.Crosses entry.1 entry.2.1 ∧
        minSpread ≤ book.bid entry.2.1 - book.ask entry.1 ∧
        entry.2.2 = book.bid entry.2.1 - book.ask entry.1 := by
  obtain rfl :=
    Except.ok.inj ((detectArbitrage_eq book minSpread).symm.trans returned)
  simp only [List.mem_flatMap, List.mem_range, found]
  constructor
  · rintro ⟨i, buyInRange, j, sellInRange, isFound⟩
    split at isFound
    · next crosses =>
        obtain rfl := List.mem_singleton.mp isFound
        exact ⟨⟨buyInRange, sellInRange, crosses.1, crosses.2.1⟩,
          crosses.2.2, rfl⟩
    · exact absurd isFound List.not_mem_nil
  · obtain ⟨i, j, spread⟩ := entry
    rintro ⟨crosses, enough, isSpread⟩
    refine ⟨i, crosses.buyInRange, j, crosses.sellInRange, ?_⟩
    rw [if_pos ⟨crosses.apart, crosses.gains, enough⟩]
    exact List.mem_singleton.mpr (congrArg (fun spread => (i, j, spread)) isSpread)

end SoAOrderBook

end YieldDaemon
