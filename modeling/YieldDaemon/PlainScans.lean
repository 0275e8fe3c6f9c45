import YieldDaemon.SpreadScan

namespace YieldDaemon

open CheckedArithmetic OrderDual RunningExtremes

/-!
# Plain scans of the order book

The book itself looks for its lowest ask and its highest bid position by
position, without a branch.  The scan for the best spread is compared with these
two: it takes the same bid, but not always the same ask.
-/

/-- Branchless: cmov-style selection. -/
def selectBest (isBetter : Bool) (val i : Nat) (best : Best Nat) : Best Nat :=
  { idx := isBetter.toNat * i + (1 - isBetter.toNat) * best.idx
    value := if isBetter then val else best.value }

/-- The position of the best price, for an order of the prices. -/
def argBest (better : Nat → Nat → Bool) (prices : List Nat) :
    Checked (Option Nat) :=
  if prices.isEmpty then
    return none
  else do
    let first ← index prices 0
    let best ←
      (List.range' 1 (prices.length - 1)).foldlM
        (fun best i => do
          let val ← index prices i
          return selectBest (better val best.value) val i best)
        ⟨first, 0⟩
    return some best.idx

namespace SoAOrderBook

/-- SIMD-friendly argmin over ask prices — find cheapest sell. -/
def argminAsk (book : SoAOrderBook) : Checked (Option Nat) :=
  argBest (fun val minVal => val < minVal) book.askPrices

/-- SIMD-friendly argmax over bid prices — find most expensive buy. -/
def argmaxBid (book : SoAOrderBook) : Checked (Option Nat) :=
  argBest (fun val maxVal => maxVal < val) book.bidPrices

end SoAOrderBook

/-- A selection without a branch is one with a branch. -/
theorem selectBest_eq (isBetter : Bool) (val i : Nat) (best : Best Nat) :
    selectBest isBetter val i best = if isBetter then ⟨val, i⟩ else best := by
  cases isBetter with
  | false =>
      simp [selectBest]
  | true =>
      simp [selectBest]

section Scans

variable
  {Key : Type}
  [LinearOrder Key]
  {key : Nat → Key}
  {better : Nat → Nat → Bool}
  {prices : List Nat}

/-- The best price so far, by its key. -/
def keyed (key : Nat → Key) (best : Best Nat) : Best Key :=
  ⟨key best.value, best.idx⟩

/-- A selection compares the keys of the prices. -/
theorem keyed_selectBest
    (compares : ∀ val best, better val best = decide (key val < key best))
    (i : Nat)
    (best : Best Nat) :
    keyed key
        (selectBest (better (prices.getD i 0) best.value) (prices.getD i 0) i
          best) =
      improve (fun i => key (prices.getD i 0)) (keyed key best) i := by
  rw [selectBest_eq, compares, improve, takeBelow]
  by_cases isLess : key (prices.getD i 0) < key best.value
  · rw [decide_eq_true isLess, if_pos rfl]
    exact (if_pos isLess).symm
  · rw [decide_eq_false isLess, if_neg Bool.false_ne_true]
    exact (if_neg isLess).symm

/-- The scan returns the first position with the lowest key. -/
theorem argBest_first
    (compares : ∀ val best, better val best = decide (key val < key best))
    (nonempty : prices ≠ []) :
    ∃ i,
      IsFirstLeast (fun i => key (prices.getD i 0)) prices.length i ∧
        argBest better prices = .ok (some i) := by
  have someOne : 0 < prices.length := List.length_pos_of_ne_nil nonempty
  have read {i : Nat} (inRange : i < prices.length) :
      index prices i = .ok (prices.getD i 0) := by
    rw [index_of_lt inRange, List.getD_eq_getElem _ _ inRange]
  have step :
      ∀ i ∈ List.range' 1 (prices.length - 1), ∀ best keys,
        keys = keyed key best →
        ∃ following,
          (do
            let val ← index prices i
            return selectBest (better val best.value) val i best) =
              .ok following ∧
            improve (fun i => key (prices.getD i 0)) keys i =
              keyed key following := by
    rintro i member best _ rfl
    have inRange := List.mem_range'_1.mp member
    refine ⟨_, ?_, (keyed_selectBest compares i best).symm⟩
    rw [read (by omega)]
    rfl
  obtain ⟨i, isFirst, scanned⟩ :=
    foldl_improve_rest (fun i => key (prices.getD i 0)) someOne
  obtain ⟨best, computed, isBest⟩ :=
    Checked.foldlM_relates (fun best keys => keys = keyed key best)
      (improve (fun i => key (prices.getD i 0))) step
      (show (⟨key (prices.getD 0 0), 0⟩ : Best Key) =
        keyed key ⟨prices.getD 0 0, 0⟩ from rfl)
  have isIdx : best.idx = i :=
    congrArg Best.idx (isBest.symm.trans scanned)
  have notEmpty : ¬ prices.isEmpty :=
    fun isEmpty => nonempty (List.isEmpty_iff.mp isEmpty)
  refine ⟨i, isFirst, ?_⟩
  rw [argBest, if_neg notEmpty, read someOne, Checked.ok_bind, computed,
    Checked.ok_bind, isIdx]
  rfl

end Scans

namespace SoAOrderBook

variable {book : SoAOrderBook}

/-- The book finds its first lowest ask. -/
theorem argminAsk_first (someOne : 0 < book.len) :
    ∃ i,
      IsFirstLeast book.ask book.len i ∧ book.argminAsk = .ok (some i) := by
  have nonempty : book.askPrices ≠ [] :=
    List.ne_nil_of_length_pos (someOne.trans_eq book.askPricesLength.symm)
  obtain ⟨i, isFirst, scanned⟩ :=
    @argBest_first Nat _ id _ _ (fun _ _ => rfl) nonempty
  rw [book.askPricesLength] at isFirst
  exact ⟨i, isFirst, scanned⟩

/-- The book finds its first highest bid. -/
theorem argmaxBid_first (someOne : 0 < book.len) :
    ∃ j,
      IsFirstLeast (fun j => toDual (book.bid j)) book.len j ∧
        book.argmaxBid = .ok (some j) := by
  have nonempty : book.bidPrices ≠ [] :=
    List.ne_nil_of_length_pos (someOne.trans_eq book.bidPricesLength.symm)
  obtain ⟨j, isFirst, scanned⟩ :=
    @argBest_first Natᵒᵈ _ toDual _ _ (fun _ _ => rfl) nonempty
  rw [book.bidPricesLength] at isFirst
  exact ⟨j, isFirst, scanned⟩

end SoAOrderBook

namespace SpreadScan

variable
  {book : SoAOrderBook}
  {i j : Nat}

/-- A unit that is bought at one position is sold for more in another pool. -/
def Trades (book : SoAOrderBook) (i j : Nat) : Prop :=
  book.ask i < book.bid j ∧ book.pool i ≠ book.pool j

instance (book : SoAOrderBook) (i j : Nat) : Decidable (Trades book i j) :=
  inferInstanceAs (Decidable (_ ∧ _))

/-- The scan judges the positions that the plain scans find. -/
def FollowsPlainScans (book : SoAOrderBook) : Prop :=
  ∃ i j,
    book.argminAsk = .ok (some i) ∧
      book.argmaxBid = .ok (some j) ∧
      scanBestSpread book.askPrices book.bidPrices book.poolIds =
        .ok (if Trades book i j then
          some (i, j, book.bid j - book.ask i)
        else
          none)

/--
The first lowest ask survives the groups of four, or neither it nor the ask
that does trades with the first highest bid.
-/
def KeepsLowestAsk (book : SoAOrderBook) : Prop :=
  ∃ i j,
    IsFirstLeast book.ask book.len i ∧
      IsFirstLeast (fun j => toDual (book.bid j)) book.len j ∧
      ∀ kept,
        Survives book.ask start.1 (groups book.len) kept →
        kept = i ∨ ¬ Trades book i j ∧ ¬ Trades book kept j

/-- Two positions give the same outcome when they agree or neither trades. -/
theorem outcome_eq_iff {kept : Nat} :
    ((if Trades book kept j then some (kept, j, book.bid j - book.ask kept)
      else none) =
      if Trades book i j then some (i, j, book.bid j - book.ask i)
      else none) ↔
      kept = i ∨ ¬ Trades book i j ∧ ¬ Trades book kept j := by
  by_cases same : kept = i
  · simp [same]
  · by_cases first : Trades book i j
    · by_cases second : Trades book kept j
      · simp [same, first, second]
      · simp [same, first, second]
    · by_cases second : Trades book kept j
      · simp [same, first, second]
      · simp [same, first, second]

/--
The scan follows the plain scans exactly if it keeps the first lowest ask, or
another one where neither trades.
-/
theorem followsPlainScans_iff
    {book : SoAOrderBook}
    (someTwo : 2 ≤ book.len) :
    FollowsPlainScans book ↔ KeepsLowestAsk book := by
  have someOne : 0 < book.len := Nat.zero_lt_of_lt someTwo
  obtain ⟨i, isLowest, foundAsk⟩ := SoAOrderBook.argminAsk_first someOne
  obtain ⟨j, isHighest, foundBid⟩ := SoAOrderBook.argmaxBid_first someOne
  obtain ⟨kept, inRange, isAsk, survivesOrLargest⟩ := lastAsk_cases someOne
  obtain ⟨last, isLast, isBid⟩ := lastBid_first someOne
  obtain rfl := isLast.unique isHighest
  have scanned :=
    scanBestSpread_eq someTwo isAsk isBid inRange isHighest.inRange
  have follows :
      FollowsPlainScans book ↔
        kept = i ∨ ¬ Trades book i last ∧ ¬ Trades book kept last := by
    rw [← outcome_eq_iff]
    constructor
    · rintro ⟨other, otherBid, isOther, isOtherBid, otherScanned⟩
      obtain rfl := Option.some.inj
        (Except.ok.inj (foundAsk.symm.trans isOther))
      obtain rfl := Option.some.inj
        (Except.ok.inj (foundBid.symm.trans isOtherBid))
      exact Except.ok.inj (scanned.symm.trans otherScanned)
    · intro same
      exact ⟨i, last, foundAsk, foundBid, scanned.trans (congrArg _ same)⟩
  rw [follows]
  constructor
  · intro agrees
    refine ⟨i, last, isLowest, isHighest, fun other survives => ?_⟩
    have isKept : other = kept :=
      congrArg Best.idx (survives.scanGroups_eq.symm.trans isAsk)
    rwa [isKept]
  · rintro ⟨other, otherBid, otherIsLowest, otherIsHighest, keeps⟩
    obtain rfl := otherIsLowest.unique isLowest
    obtain rfl := otherIsHighest.unique isHighest
    rcases survivesOrLargest with survives | largest
    · exact keeps kept survives
    · -- No bid is above the largest u64.
      have noTrade {a : Nat} (aInRange : a < book.len) :
          ¬ Trades book a otherBid := by
        intro trades
        have ask := largest a aInRange
        have bid := book.bid_lt otherBid
        have gains := trades.1
        omega
      exact .inr ⟨noTrade isLowest.inRange, noTrade inRange⟩

/--
The scan follows the plain scans if nothing overwrites the lowest ask, or if no
ask trades with the first highest bid.
-/
theorem followsPlainScans_of_kept
    {book : SoAOrderBook}
    (someTwo : 2 ≤ book.len)
    (kept :
      NoAskOverwritten book ∨ LowestAskStays book ∨
        ∃ j,
          IsFirstLeast (fun j => toDual (book.bid j)) book.len j ∧
            ∀ i < book.len, ¬ Trades book i j) :
    FollowsPlainScans book := by
  have someOne : 0 < book.len := Nat.zero_lt_of_lt someTwo
  rw [followsPlainScans_iff someTwo]
  rw [← or_assoc] at kept
  rcases kept with kept | ⟨j, isHighest, noTrade⟩
  · obtain ⟨i, isLowest, isAsk⟩ := lastAsk_first someOne kept
    obtain ⟨j, isHighest, -⟩ := lastBid_first someOne
    refine ⟨i, j, isLowest, isHighest, fun other survives => .inl ?_⟩
    exact congrArg Best.idx (survives.scanGroups_eq.symm.trans isAsk)
  · obtain ⟨i, isLowest, -⟩ := SoAOrderBook.argminAsk_first someOne
    refine ⟨i, j, isLowest, isHighest, fun other survives => .inr ?_⟩
    obtain ⟨earlier, before, after, later, shape, -⟩ := survives.splits
    have isGroup : before ++ other :: after ∈ groups book.len := by
      simp [shape]
    exact ⟨noTrade i isLowest.inRange,
      noTrade other (lt_of_mem_groups isGroup (by simp))⟩

/-- The quotes are followed to the ask of 92. -/
theorem quotedBook_followsPlainScans : FollowsPlainScans quotedBook :=
  followsPlainScans_of_kept (by decide)
    (.inr (.inl ⟨6, ⟨by decide, by decide, by decide⟩, by decide⟩))

/-- The lowest ask of the book is overwritten, and its trade is not found. -/
theorem overwrittenBook_is_not_followed : ¬ FollowsPlainScans overwrittenBook := by
  have foundAsk : overwrittenBook.argminAsk = .ok (some 0) := by decide
  have foundBid : overwrittenBook.argmaxBid = .ok (some 1) := by decide
  have nothing :
      scanBestSpread overwrittenBook.askPrices overwrittenBook.bidPrices
        overwrittenBook.poolIds = .ok none := by
    decide
  rintro ⟨i, j, isAsk, isBid, scanned⟩
  obtain rfl := Option.some.inj (Except.ok.inj (foundAsk.symm.trans isAsk))
  obtain rfl := Option.some.inj (Except.ok.inj (foundBid.symm.trans isBid))
  have trades : Trades overwrittenBook 0 1 := by decide
  rw [nothing, if_pos trades] at scanned
  exact absurd scanned nofun

end SpreadScan

end YieldDaemon
