import YieldDaemon.OrderBook
import YieldDaemon.RunningExtremes

namespace YieldDaemon

open CheckedArithmetic OrderDual RunningExtremes

/-!
# Scan for the best spread

One pass looks for the smallest ask and the largest bid of a book, four
positions at a time.  The bids of a chunk are compared one after the other, its
asks all with the smallest ask before the chunk.
-/

/-- The smallest ask and the largest bid so far, each with its position. -/
structure SpreadScan where
  minAsk : Nat
  minAskIdx : Nat
  maxBid : Nat
  maxBidIdx : Nat
  deriving DecidableEq

namespace SpreadScan

/-- Take an ask that a comparison has found to be smaller. -/
def takeAsk (scan : SpreadScan) (isLess : Bool) (ask idx : Nat) : SpreadScan :=
  if isLess then { scan with minAsk := ask, minAskIdx := idx } else scan

/-- Take a bid that is larger than the largest one so far. -/
def takeBid (scan : SpreadScan) (bid idx : Nat) : SpreadScan :=
  if scan.maxBid < bid then
    { scan with maxBid := bid, maxBidIdx := idx }
  else
    scan

/-- Process four elements at a time. -/
def scanChunk
    (askPrices bidPrices : List Nat)
    (scan : SpreadScan)
    (c : Nat) : Checked SpreadScan := do
  let base := c * 4
  let a0 ← index askPrices base
  let a1 ← index askPrices (base + 1)
  let a2 ← index askPrices (base + 2)
  let a3 ← index askPrices (base + 3)
  let b0 ← index bidPrices base
  let b1 ← index bidPrices (base + 1)
  let b2 ← index bidPrices (base + 2)
  let b3 ← index bidPrices (base + 3)
  -- All four comparisons come before the first update.
  let lt0 := decide (a0 < scan.minAsk)
  let lt1 := decide (a1 < scan.minAsk)
  let lt2 := decide (a2 < scan.minAsk)
  let lt3 := decide (a3 < scan.minAsk)
  let scan := scan.takeAsk lt0 a0 base
  let scan := scan.takeAsk lt1 a1 (base + 1)
  let scan := scan.takeAsk lt2 a2 (base + 2)
  let scan := scan.takeAsk lt3 a3 (base + 3)
  let scan := scan.takeBid b0 base
  let scan := scan.takeBid b1 (base + 1)
  let scan := scan.takeBid b2 (base + 2)
  return scan.takeBid b3 (base + 3)

/-- Handle one position of the remainder. -/
def scanRest
    (askPrices bidPrices : List Nat)
    (scan : SpreadScan)
    (i : Nat) : Checked SpreadScan := do
  let ask ← index askPrices i
  let scan := scan.takeAsk (decide (ask < scan.minAsk)) ask i
  let bid ← index bidPrices i
  return scan.takeBid bid i

end SpreadScan

/-- Scan a price array for the best spread across pools. -/
def scanBestSpread
    (askPrices bidPrices poolIds : List Nat) :
    Checked (Option (Nat × Nat × Nat)) := do
  let n := askPrices.length
  if n < 2 then
    return none
  let chunks := n / 4
  let scan ←
    (List.range chunks).foldlM (SpreadScan.scanChunk askPrices bidPrices)
      ⟨2 ^ 64 - 1, 0, 0, 0⟩
  let scan ←
    (List.range' (chunks * 4) (n - chunks * 4)).foldlM
      (SpreadScan.scanRest askPrices bidPrices) scan
  if scan.minAsk < scan.maxBid then
    let buyPool ← index poolIds scan.minAskIdx
    let sellPool ← index poolIds scan.maxBidIdx
    if buyPool ≠ sellPool then
      return some
        (scan.minAskIdx, scan.maxBidIdx, scan.maxBid - scan.minAsk)
  return none

namespace SpreadScan

variable {book : SoAOrderBook}

/-- The positions of a chunk. -/
def four (c : Nat) : List Nat :=
  [c * 4, c * 4 + 1, c * 4 + 2, c * 4 + 3]

/-- Groups of four positions, then single positions. -/
def groups (n : Nat) : List (List Nat) :=
  (List.range (n / 4)).map four ++
    (List.range' (n / 4 * 4) (n - n / 4 * 4)).map ([·])

theorem four_flatten (chunks : Nat) :
    ((List.range chunks).map four).flatten = List.range (chunks * 4) := by
  induction chunks with
  | zero =>
      rfl
  | succ chunks inductionHypothesis =>
      rw [List.range_succ, List.map_append, List.flatten_append,
        inductionHypothesis,
        show (chunks + 1) * 4 = chunks * 4 + 3 + 1 by omega]
      simp only [List.range_succ, List.append_assoc]
      rfl

/-- The groups hold every position once, in order. -/
theorem groups_flatten (n : Nat) : (groups n).flatten = List.range n := by
  have whole : n / 4 * 4 + (n - n / 4 * 4) = n := by omega
  rw [groups, List.flatten_append, four_flatten,
    List.range_eq_range', List.range_eq_range']
  conv_rhs => rw [← whole]
  rw [← List.range'_append_1, Nat.zero_add]
  congr 1
  generalize List.range' _ _ = rest
  induction rest with
  | nil => rfl
  | cons i rest inductionHypothesis =>
      simpa using inductionHypothesis

theorem lt_of_mem_groups
    {n i : Nat}
    {group : List Nat}
    (isGroup : group ∈ groups n)
    (member : i ∈ group) :
    i < n := by
  rw [← List.mem_range, ← groups_flatten]
  exact List.mem_flatten.mpr ⟨group, isGroup, member⟩

/-! The scan as two scans. -/

/-- The scan at the best ask and the best bid, where larger bids are better. -/
def ofBest (best : Best Nat × Best Natᵒᵈ) : SpreadScan :=
  ⟨best.1.value, best.1.idx, ofDual best.2.value, best.2.idx⟩

/-- A group of positions in both scans. -/
def improveBoth
    (book : SoAOrderBook)
    (best : Best Nat × Best Natᵒᵈ)
    (group : List Nat) : Best Nat × Best Natᵒᵈ :=
  (improveLast book.ask best.1 group,
    group.foldl (improve (fun i => toDual (book.bid i))) best.2)

theorem ofBest_takeAsk
    (asks : Best Nat)
    (bids : Best Natᵒᵈ)
    (bound i : Nat) :
    (ofBest (asks, bids)).takeAsk (decide (book.ask i < bound)) (book.ask i)
        i =
      ofBest (takeBelow book.ask bound asks i, bids) := by
  unfold takeAsk takeBelow
  by_cases less : book.ask i < bound <;> simp [less, ofBest]

theorem ofBest_takeBid (asks : Best Nat) (bids : Best Natᵒᵈ) (i : Nat) :
    (ofBest (asks, bids)).takeBid (book.bid i) i =
      ofBest (asks, improve (fun i => toDual (book.bid i)) bids i) := by
  by_cases larger : (ofBest (asks, bids)).maxBid < book.bid i
  · have better : toDual (book.bid i) < bids.value := larger
    rw [takeBid, if_pos larger, improve, takeBelow, if_pos better]
    rfl
  · have worse : ¬ toDual (book.bid i) < bids.value := larger
    rw [takeBid, if_neg larger, improve, takeBelow, if_neg worse]

theorem scanChunk_eq
    {c : Nat}
    (inRange : c * 4 + 3 < book.len)
    (best : Best Nat × Best Natᵒᵈ) :
    scanChunk book.askPrices book.bidPrices (ofBest best) c =
      .ok (ofBest (improveBoth book best (four c))) := by
  obtain ⟨asks, bids⟩ := best
  unfold scanChunk
  simp (disch := omega) only [SoAOrderBook.index_askPrices,
    SoAOrderBook.index_bidPrices, Checked.ok_bind, ofBest_takeAsk,
    ofBest_takeBid, Checked.pure_eq_ok]
  rfl

theorem scanRest_eq
    {i : Nat}
    (inRange : i < book.len)
    (best : Best Nat × Best Natᵒᵈ) :
    scanRest book.askPrices book.bidPrices (ofBest best) i =
      .ok (ofBest (improveBoth book best [i])) := by
  obtain ⟨asks, bids⟩ := best
  unfold scanRest
  rw [SoAOrderBook.index_askPrices inRange,
    SoAOrderBook.index_bidPrices inRange]
  simp only [Checked.ok_bind, ofBest_takeAsk, ofBest_takeBid,
    Checked.pure_eq_ok]
  rfl

/-- The best ask and the best bid that the scan starts with. -/
def start : Best Nat × Best Natᵒᵈ :=
  (⟨2 ^ 64 - 1, 0⟩, ⟨toDual 0, 0⟩)

/-- The ask that the scan ends on. -/
def lastAsk (book : SoAOrderBook) : Best Nat :=
  scanGroups book.ask start.1 (groups book.len)

/-- The bid that the scan ends on. -/
def lastBid (book : SoAOrderBook) : Best Natᵒᵈ :=
  (List.range book.len).foldl (improve (fun i => toDual (book.bid i))) start.2

/-- Both scans of all groups. -/
theorem foldl_improveBoth (book : SoAOrderBook) :
    (groups book.len).foldl (improveBoth book) start =
      (lastAsk book, lastBid book) := by
  have asks :
      lastAsk book = ((groups book.len).foldl (improveBoth book) start).1 :=
    List.foldl_hom Prod.fst (fun _ _ => rfl)
  have bids :
      (groups book.len).foldl
          (fun best group =>
            group.foldl (improve (fun i => toDual (book.bid i))) best)
          start.2 =
        ((groups book.len).foldl (improveBoth book) start).2 :=
    List.foldl_hom Prod.snd (fun _ _ => rfl)
  rw [← List.foldl_flatten, groups_flatten] at bids
  exact Prod.ext asks.symm bids.symm

theorem foldlM_scanChunk
    (book : SoAOrderBook)
    (best : Best Nat × Best Natᵒᵈ) :
    (List.range (book.len / 4)).foldlM
        (scanChunk book.askPrices book.bidPrices) (ofBest best) =
      .ok (ofBest
        (((List.range (book.len / 4)).map four).foldl (improveBoth book)
          best)) := by
  rw [List.foldl_map]
  refine Checked.foldlM_simulates ofBest _ ?_ best
  intro c member best
  have inRange := List.mem_range.mp member
  exact scanChunk_eq (by omega) best

theorem foldlM_scanRest
    (book : SoAOrderBook)
    (best : Best Nat × Best Natᵒᵈ) :
    (List.range' (book.len / 4 * 4) (book.len - book.len / 4 * 4)).foldlM
        (scanRest book.askPrices book.bidPrices) (ofBest best) =
      .ok (ofBest
        (((List.range' (book.len / 4 * 4)
            (book.len - book.len / 4 * 4)).map ([·])).foldl
          (improveBoth book) best)) := by
  rw [List.foldl_map]
  refine Checked.foldlM_simulates ofBest _ ?_ best
  intro i member best
  have inRange := List.mem_range'_1.mp member
  exact scanRest_eq (by omega) best

/-- A book of two positions or more is judged by the last ask and bid. -/
theorem scanBestSpread_eq
    {i j : Nat}
    (someTwo : 2 ≤ book.len)
    (isAsk : lastAsk book = ⟨book.ask i, i⟩)
    (isBid : lastBid book = ⟨toDual (book.bid j), j⟩)
    (buyInRange : i < book.len)
    (sellInRange : j < book.len) :
    scanBestSpread book.askPrices book.bidPrices book.poolIds =
      .ok (if book.ask i < book.bid j ∧ book.pool i ≠ book.pool j then
        some (i, j, book.bid j - book.ask i)
      else
        none) := by
  have chunks := foldlM_scanChunk book start
  have rest :=
    foldlM_scanRest book
      (((List.range (book.len / 4)).map four).foldl (improveBoth book) start)
  rw [← List.foldl_append] at rest
  have whole := foldl_improveBoth book
  rw [groups] at whole
  rw [whole, isAsk, isBid] at rest
  unfold scanBestSpread
  rw [book.askPricesLength, if_neg (Nat.not_lt.mpr someTwo)]
  dsimp only
  rw [show (⟨2 ^ 64 - 1, 0, 0, 0⟩ : SpreadScan) = ofBest start from rfl,
    chunks, Checked.ok_bind, rest, Checked.ok_bind]
  simp only [ofBest, ofDual_toDual, SoAOrderBook.index_poolIds buyInRange,
    SoAOrderBook.index_poolIds sellInRange, Checked.ok_bind]
  by_cases gains : book.ask i < book.bid j
  · by_cases apart : book.pool i ≠ book.pool j <;> simp [gains, apart]
  · simp [gains]

/-- The last ask survives the groups, or all asks are the largest u64. -/
theorem lastAsk_cases (someOne : 0 < book.len) :
    ∃ i < book.len,
      lastAsk book = ⟨book.ask i, i⟩ ∧
        (Survives book.ask start.1 (groups book.len) i ∨
          ∀ a < book.len, 2 ^ 64 - 1 ≤ book.ask a) := by
  rcases survives_or_none book.ask start.1 (groups book.len) with
    none | ⟨i, survives⟩
  · have largest : ∀ a < book.len, 2 ^ 64 - 1 ≤ book.ask a := by
      intro a inRange
      rw [← List.mem_range, ← groups_flatten, List.mem_flatten] at inRange
      obtain ⟨group, isGroup, member⟩ := inRange
      exact none group isGroup a member
    have first : book.ask 0 = 2 ^ 64 - 1 :=
      le_antisymm (Nat.le_sub_one_of_lt (book.ask_lt 0)) (largest 0 someOne)
    refine ⟨0, someOne, ?_, .inr largest⟩
    rw [lastAsk, scanGroups_of_le none, first]
    rfl
  · obtain ⟨earlier, before, after, later, isGroups, -⟩ := survives.splits
    have isGroup : before ++ i :: after ∈ groups book.len := by
      rw [isGroups]
      simp
    exact ⟨i, lt_of_mem_groups isGroup (by simp), survives.scanGroups_eq,
      .inl survives⟩

/-- The last bid is the first highest one. -/
theorem lastBid_first (someOne : 0 < book.len) :
    ∃ j,
      IsFirstLeast (fun i => toDual (book.bid i)) book.len j ∧
        lastBid book = ⟨toDual (book.bid j), j⟩ :=
  foldl_improve someOne (show toDual (book.bid 0) ≤ toDual 0 from
    Nat.zero_le (book.bid 0))

/--
The scan returns an opportunity of the largest spread that the detection finds,
and nothing if it finds none.
-/
def FindsLargest (book : SoAOrderBook) : Prop :=
  ∃ found opportunities,
    scanBestSpread book.askPrices book.bidPrices book.poolIds = .ok found ∧
      book.detectArbitrage 1 = .ok opportunities ∧
      (opportunities = [] → found = none) ∧
      (opportunities ≠ [] →
        ∃ entry ∈ opportunities,
          found = some entry ∧
            ∀ other ∈ opportunities, other.2.2 ≤ entry.2.2)

/-- A pair crosses exactly if the detection finds it with its spread. -/
theorem mem_detected_iff
    {opportunities : List (Nat × Nat × Nat)}
    (detected : book.detectArbitrage 1 = .ok opportunities)
    (i j spread : Nat) :
    (i, j, spread) ∈ opportunities ↔
      book.Crosses i j ∧ spread = book.bid j - book.ask i := by
  rw [SoAOrderBook.mem_detectArbitrage detected]
  constructor
  · exact fun ⟨crosses, _, isSpread⟩ => ⟨crosses, isSpread⟩
  · exact fun ⟨crosses, isSpread⟩ =>
      ⟨crosses, Nat.sub_pos_of_lt crosses.gains, isSpread⟩

/-- What the two last positions have to be for the largest spread. -/
theorem findsLargest_iff_last
    {i j : Nat}
    (someTwo : 2 ≤ book.len)
    (isAsk : lastAsk book = ⟨book.ask i, i⟩)
    (isBid : lastBid book = ⟨toDual (book.bid j), j⟩)
    (buyInRange : i < book.len)
    (sellInRange : j < book.len) :
    FindsLargest book ↔
      ((∃ a b, book.Crosses a b) →
        book.pool i ≠ book.pool j ∧
          ∀ a b, book.Crosses a b →
            book.bid b - book.ask a ≤ book.bid j - book.ask i) := by
  have scanned :=
    scanBestSpread_eq someTwo isAsk isBid buyInRange sellInRange
  have detected := SoAOrderBook.detectArbitrage_eq book 1
  have isFound := mem_detected_iff detected
  constructor
  · rintro ⟨found, opportunities, isScanned, isDetected, -, finds⟩
      ⟨first, second, crosses⟩
    obtain rfl := Except.ok.inj (scanned.symm.trans isScanned)
    obtain rfl := Except.ok.inj (detected.symm.trans isDetected)
    obtain ⟨entry, -, isEntry, largest⟩ :=
      finds (List.ne_nil_of_mem ((isFound _ _ _).mpr ⟨crosses, rfl⟩))
    split at isEntry
    · next wide =>
        obtain rfl := Option.some.inj isEntry
        exact ⟨wide.2, fun a b crosses =>
          largest (a, b, _) ((isFound a b _).mpr ⟨crosses, rfl⟩)⟩
    · exact absurd isEntry nofun
  · intro condition
    refine ⟨_, _, scanned, detected, ?_, ?_⟩
    · intro nothing
      refine if_neg fun wide => ?_
      have member :=
        (isFound i j _).mpr
          ⟨⟨buyInRange, sellInRange, wide.2, wide.1⟩, rfl⟩
      rw [nothing] at member
      exact List.not_mem_nil member
    · intro something
      obtain ⟨⟨a, b, spread⟩, member⟩ := List.exists_mem_of_ne_nil _ something
      have crosses := ((isFound a b spread).mp member).1
      obtain ⟨apart, largest⟩ := condition ⟨a, b, crosses⟩
      have wide : book.ask i < book.bid j := by
        have positive := Nat.sub_pos_of_lt crosses.gains
        exact Nat.lt_of_sub_pos (positive.trans_le (largest a b crosses))
      refine ⟨_, (isFound i j _).mpr
        ⟨⟨buyInRange, sellInRange, apart, wide⟩, rfl⟩,
        if_pos ⟨wide, apart⟩, ?_⟩
      rintro ⟨a, b, spread⟩ member
      obtain ⟨crosses, rfl⟩ := (isFound a b spread).mp member
      exact largest a b crosses

/--
The scan finds the largest spread exactly if, where some prices cross, the ask
that survives the groups of four and the first highest bid are in different
pools and no two prices that cross are further apart.
-/
theorem findsLargest_iff (book : SoAOrderBook) :
    FindsLargest book ↔
      ((∃ a b, book.Crosses a b) →
        ∃ i j,
          Survives book.ask start.1 (groups book.len) i ∧
            IsFirstLeast (fun b => toDual (book.bid b)) book.len j ∧
            book.pool i ≠ book.pool j ∧
            ∀ a b, book.Crosses a b →
              book.bid b - book.ask a ≤ book.bid j - book.ask i) := by
  rcases Nat.lt_or_ge book.len 2 with few | someTwo
  · have noneCross : ∀ a b, ¬ book.Crosses a b := by
      intro a b crosses
      have same : a = b := by
        have buyInRange := crosses.buyInRange
        have sellInRange := crosses.sellInRange
        omega
      exact crosses.apart (congrArg book.pool same)
    have nothing : book.detectArbitrage 1 = .ok [] := by
      have detected := SoAOrderBook.detectArbitrage_eq book 1
      rw [detected]
      refine congrArg Except.ok (List.eq_nil_iff_forall_not_mem.mpr ?_)
      rintro ⟨a, b, spread⟩ member
      exact noneCross a b ((mem_detected_iff detected a b spread).mp member).1
    have scanned :
        scanBestSpread book.askPrices book.bidPrices book.poolIds =
          .ok none := by
      unfold scanBestSpread
      rw [book.askPricesLength, if_pos few]
      rfl
    constructor
    · rintro - ⟨a, b, crosses⟩
      exact absurd crosses (noneCross a b)
    · exact fun _ =>
        ⟨none, [], scanned, nothing, fun _ => rfl,
          fun something => absurd rfl something⟩
  · have someOne : 0 < book.len := Nat.zero_lt_of_lt someTwo
    obtain ⟨i, buyInRange, isAsk, survivesOrLargest⟩ := lastAsk_cases someOne
    obtain ⟨j, isFirst, isBid⟩ := lastBid_first someOne
    rw [findsLargest_iff_last someTwo isAsk isBid buyInRange isFirst.inRange]
    refine imp_congr_right fun ⟨first, second, crosses⟩ => ?_
    constructor
    · rintro ⟨apart, largest⟩
      refine ⟨i, j, survivesOrLargest.resolve_right fun none => ?_, isFirst,
        apart, largest⟩
      -- No bid is above the largest u64.
      have ask := none first crosses.buyInRange
      have bid := book.bid_lt second
      have gains := crosses.gains
      omega
    · rintro ⟨otherAsk, otherBid, survives, otherIsFirst, apart, largest⟩
      have sameAsk : otherAsk = i :=
        congrArg Best.idx (survives.scanGroups_eq.symm.trans isAsk)
      rw [← sameAsk, isFirst.unique otherIsFirst]
      exact ⟨apart, largest⟩

/-! Books whose lowest ask is kept. -/

/--
An ask is below all asks before its chunk, and below the largest u64, but not
below an earlier ask of the same chunk.
-/
def OverwritesAsk (book : SoAOrderBook) (i k : Nat) : Prop :=
  i / 4 = k / 4 ∧
    book.ask i ≤ book.ask k ∧
    book.ask k < 2 ^ 64 - 1 ∧
    ∀ m < k / 4 * 4, book.ask k < book.ask m

instance (book : SoAOrderBook) (i k : Nat) :
    Decidable (OverwritesAsk book i k) :=
  inferInstanceAs (Decidable (_ ∧ _ ∧ _ ∧ _))

/-- No ask of a whole chunk of four is so. -/
def NoAskOverwritten (book : SoAOrderBook) : Prop :=
  ∀ k < book.len / 4 * 4, ∀ i < k, ¬ OverwritesAsk book i k

instance (book : SoAOrderBook) : Decidable (NoAskOverwritten book) :=
  inferInstanceAs (Decidable
    (∀ k < book.len / 4 * 4, ∀ i < k, ¬ OverwritesAsk book i k))

/-- The chunks of such a book are scanned one position after the other. -/
theorem scanGroups_fours
    (kept : NoAskOverwritten book)
    {chunks : Nat}
    (inBook : chunks ≤ book.len / 4) :
    scanGroups book.ask start.1 ((List.range chunks).map four) =
      (List.range (chunks * 4)).foldl (improve book.ask) start.1 := by
  induction chunks with
  | zero =>
      rfl
  | succ chunks inductionHypothesis =>
      have earlier := inductionHypothesis (Nat.le_of_succ_le inBook)
      have falls :
          (four chunks).Pairwise
            (fun i k =>
              book.ask k <
                  (scanGroups book.ask start.1
                    ((List.range chunks).map four)).value →
                book.ask k < book.ask i) := by
        refine List.Pairwise.imp_of_mem ?_
          (show (four chunks).Pairwise (· < ·) by simp [four])
        intro i k iMember kMember before below
        simp only [four, List.mem_cons, List.not_mem_nil, or_false]
          at iMember kMember
        rw [earlier, lt_foldl_improve_iff] at below
        by_contra notLower
        refine kept k (by omega) i before
          ⟨by omega, not_lt.mp notLower, below.1, fun m inEarlier => ?_⟩
        exact below.2 m (List.mem_range.mpr (by omega))
      rw [List.range_succ, List.map_append, List.map_singleton]
      have next :
          scanGroups book.ask start.1
              ((List.range chunks).map four ++ [four chunks]) =
            improveLast book.ask
              (scanGroups book.ask start.1 ((List.range chunks).map four))
              (four chunks) := by
        simp [scanGroups]
      rw [next, improveLast_of_falls falls, earlier, ← List.foldl_append,
        ← four_flatten, ← four_flatten, List.range_succ]
      simp

/-- So the scan of such a book ends on its first lowest ask. -/
theorem lastAsk_of_noAskOverwritten
    (someOne : 0 < book.len)
    (kept : NoAskOverwritten book) :
    ∃ i,
      IsFirstLeast book.ask book.len i ∧ lastAsk book = ⟨book.ask i, i⟩ := by
  obtain ⟨i, isFirst, scanned⟩ :=
    foldl_improve someOne (show book.ask 0 ≤ 2 ^ 64 - 1 from
      Nat.le_sub_one_of_lt (book.ask_lt 0))
  refine ⟨i, isFirst, ?_⟩
  have fours := scanGroups_fours kept le_rfl
  unfold lastAsk groups
  unfold scanGroups at fours ⊢
  rw [List.foldl_append, fours]
  have rest :=
    scanGroups_singletons book.ask
      ((List.range (book.len / 4 * 4)).foldl (improve book.ask) start.1)
      (List.range' (book.len / 4 * 4) (book.len - book.len / 4 * 4))
  unfold scanGroups at rest
  rw [rest, ← List.foldl_append]
  have whole :
      List.range (book.len / 4 * 4) ++
          List.range' (book.len / 4 * 4) (book.len - book.len / 4 * 4) =
        List.range book.len := by
    have joined :=
      @List.range'_append_1 0 (book.len / 4 * 4)
        (book.len - book.len / 4 * 4)
    rwa [Nat.zero_add, Nat.add_sub_of_le (Nat.div_mul_le_self book.len 4),
      ← List.range_eq_range', ← List.range_eq_range'] at joined
  rw [whole]
  exact scanned

/--
No ask behind the first lowest one in its chunk of four is below the largest
u64 and below the fourth asks of all chunks before.
-/
def LowestAskStays (book : SoAOrderBook) : Prop :=
  ∃ i,
    IsFirstLeast book.ask book.len i ∧
      ∀ k < book.len / 4 * 4,
        i < k →
        k / 4 = i / 4 →
          2 ^ 64 - 1 ≤ book.ask k ∨
            ∃ chunk < i / 4, book.ask (chunk * 4 + 3) ≤ book.ask k

/-- A position of a chunk splits it. -/
theorem four_split {i c : Nat} (isChunk : i / 4 = c) :
    ∃ before after,
      four c = before ++ i :: after ∧ ∀ k ∈ after, i < k ∧ k / 4 = c := by
  obtain ⟨offset, small, rfl⟩ : ∃ offset < 4, i = c * 4 + offset :=
    ⟨i % 4, Nat.mod_lt i (by omega), by omega⟩
  interval_cases offset
  · exact ⟨[], [c * 4 + 1, c * 4 + 2, c * 4 + 3], rfl, by simp; omega⟩
  · exact ⟨[c * 4], [c * 4 + 2, c * 4 + 3], rfl, by simp; omega⟩
  · exact ⟨[c * 4, c * 4 + 1], [c * 4 + 3], rfl, by simp; omega⟩
  · exact ⟨[c * 4, c * 4 + 1, c * 4 + 2], [], rfl, by simp⟩

/-- A position of a whole chunk splits the groups at its chunk. -/
theorem groups_split_chunk
    {n i : Nat}
    (inChunk : i < n / 4 * 4) :
    ∃ later,
      groups n = (List.range (i / 4)).map four ++ four (i / 4) :: later := by
  obtain ⟨more, chunks⟩ : ∃ more, n / 4 = i / 4 + 1 + more :=
    ⟨n / 4 - (i / 4 + 1), by omega⟩
  rw [groups, chunks, List.range_add, List.range_succ]
  simp only [List.map_append, List.append_assoc, List.singleton_append]
  exact ⟨_, rfl⟩

/-- A position of the remainder is a group of its own. -/
theorem groups_split_rest
    {n i : Nat}
    (inRest : n / 4 * 4 ≤ i)
    (inRange : i < n) :
    ∃ earlier later,
      groups n = earlier ++ [i] :: later ∧
        ∀ group ∈ earlier, ∀ m ∈ group, m < i := by
  obtain ⟨more, rest⟩ :
      ∃ more, n - n / 4 * 4 = i - n / 4 * 4 + (1 + more) :=
    ⟨n - i - 1, by omega⟩
  rw [groups, rest, ← List.range'_append_1, ← List.range'_append_1,
    Nat.add_sub_of_le inRest, List.range'_one]
  simp only [List.map_append, List.singleton_append]
  rw [← List.append_assoc]
  refine ⟨_, _, rfl, ?_⟩
  intro group isEarlier m member
  rcases List.mem_append.mp isEarlier with isChunk | isSingle
  · obtain ⟨chunk, isIndex, rfl⟩ := List.mem_map.mp isChunk
    have inChunks := List.mem_range.mp isIndex
    simp only [four, List.mem_cons, List.not_mem_nil, or_false] at member
    omega
  · obtain ⟨single, isPosition, rfl⟩ := List.mem_map.mp isSingle
    have inSingles := List.mem_range'_1.mp isPosition
    obtain rfl := List.mem_singleton.mp member
    omega

/-- The first lowest ask survives the groups in such a book. -/
theorem survives_of_stays
    {i : Nat}
    (isFirst : IsFirstLeast book.ask book.len i)
    (small : book.ask i < 2 ^ 64 - 1)
    (stays :
      ∀ k < book.len / 4 * 4,
        i < k →
        k / 4 = i / 4 →
          2 ^ 64 - 1 ≤ book.ask k ∨
            ∃ chunk < i / 4, book.ask (chunk * 4 + 3) ≤ book.ask k) :
    Survives book.ask start.1 (groups book.len) i := by
  have least
      {later : List (List Nat)}
      (areGroups : ∀ group ∈ later, group ∈ groups book.len) :
      ∀ group ∈ later, ∀ k ∈ group, book.ask i ≤ book.ask k :=
    fun group member k inGroup =>
      isFirst.least k (lt_of_mem_groups (areGroups group member) inGroup)
  by_cases inChunk : i < book.len / 4 * 4
  · obtain ⟨later, shape⟩ := groups_split_chunk inChunk
    obtain ⟨before, after, split, behind⟩ := @four_split i (i / 4) rfl
    rw [split] at shape
    refine ⟨_, before, after, later, shape, ?_, ?_, least ?_⟩
    · refine lt_scanGroups small ?_
      intro group isEarlier m member
      obtain ⟨chunk, isIndex, rfl⟩ := List.mem_map.mp isEarlier
      have inChunks := List.mem_range.mp isIndex
      simp only [four, List.mem_cons, List.not_mem_nil, or_false] at member
      exact isFirst.first m (by omega)
    · intro k inAfter
      obtain ⟨isBehind, sameChunk⟩ := behind k inAfter
      rcases stays k (by omega) isBehind sameChunk with
        largest | ⟨chunk, isEarlier, fourth⟩
      · exact scanGroups_le.trans largest
      · refine le_trans (scanGroups_le_last
          [chunk * 4, chunk * 4 + 1, chunk * 4 + 2] ?_) fourth
        exact List.mem_map.mpr ⟨chunk, List.mem_range.mpr isEarlier, rfl⟩
    · intro group member
      rw [shape]
      simp [member]
  · obtain ⟨earlier, later, shape, isBefore⟩ :=
      groups_split_rest (not_lt.mp inChunk) isFirst.inRange
    refine ⟨earlier, [], [], later, shape, ?_, by simp, least ?_⟩
    · exact lt_scanGroups small fun group isEarlier m member =>
        isFirst.first m (isBefore group isEarlier m member)
    · intro group member
      rw [shape]
      simp [member]

/-- The scan ends on the first lowest ask if nothing overwrites it. -/
theorem lastAsk_first
    (someOne : 0 < book.len)
    (kept : NoAskOverwritten book ∨ LowestAskStays book) :
    ∃ i,
      IsFirstLeast book.ask book.len i ∧ lastAsk book = ⟨book.ask i, i⟩ := by
  rcases kept with noneOverwritten | ⟨i, isFirst, stays⟩
  · exact lastAsk_of_noAskOverwritten someOne noneOverwritten
  refine ⟨i, isFirst, ?_⟩
  by_cases small : book.ask i < 2 ^ 64 - 1
  · exact (survives_of_stays isFirst small stays).scanGroups_eq
  · -- All asks are the largest u64, and the scan stays where it starts.
    have largest : ∀ a < book.len, 2 ^ 64 - 1 ≤ book.ask a :=
      fun a inRange => (not_lt.mp small).trans (isFirst.least a inRange)
    obtain rfl : i = 0 := by
      by_contra notZero
      have lower := isFirst.first 0 (Nat.pos_of_ne_zero notZero)
      have bound := book.ask_lt 0
      omega
    have bound := book.ask_lt 0
    have value : book.ask 0 = 2 ^ 64 - 1 := by omega
    rw [lastAsk, scanGroups_of_le, value]
    · rfl
    · intro group isGroup k member
      exact largest k (lt_of_mem_groups isGroup member)

/-- A book without a pair that crosses has nothing to find. -/
theorem findsLargest_of_noCrosses
    (noneCross : ∀ a b, ¬ book.Crosses a b) :
    FindsLargest book :=
  (findsLargest_iff book).mpr fun ⟨a, b, crosses⟩ =>
    absurd crosses (noneCross a b)

/--
Where no prices cross or the lowest ask is kept, the scan finds the largest
spread exactly if, where some prices cross, the first lowest ask and the first
highest bid are in different pools.
-/
theorem findsLargest_iff_pools_differ
    (book : SoAOrderBook)
    (kept :
      (∀ a b, ¬ book.Crosses a b) ∨
        NoAskOverwritten book ∨ LowestAskStays book) :
    FindsLargest book ↔
      ((∃ a b, book.Crosses a b) →
        ∃ i j,
          IsFirstLeast book.ask book.len i ∧
            IsFirstLeast (fun b => toDual (book.bid b)) book.len j ∧
            book.pool i ≠ book.pool j) := by
  rcases kept with noneCross | kept
  · exact iff_of_true (findsLargest_of_noCrosses noneCross)
      fun ⟨a, b, crosses⟩ => absurd crosses (noneCross a b)
  rcases Nat.lt_or_ge book.len 2 with few | someTwo
  · have noneCross : ∀ a b, ¬ book.Crosses a b := by
      intro a b crosses
      have same : a = b := by
        have buyInRange := crosses.buyInRange
        have sellInRange := crosses.sellInRange
        omega
      exact crosses.apart (congrArg book.pool same)
    exact iff_of_true (findsLargest_of_noCrosses noneCross)
      fun ⟨a, b, crosses⟩ => absurd crosses (noneCross a b)
  · have someOne : 0 < book.len := Nat.zero_lt_of_lt someTwo
    obtain ⟨i, isLowest, isAsk⟩ := lastAsk_first someOne kept
    obtain ⟨j, isHighest, isBid⟩ := lastBid_first someOne
    rw [findsLargest_iff_last someTwo isAsk isBid isLowest.inRange
      isHighest.inRange]
    refine imp_congr_right fun _ => ?_
    constructor
    · exact fun ⟨apart, _⟩ => ⟨i, j, isLowest, isHighest, apart⟩
    · rintro ⟨otherAsk, otherBid, otherIsLowest, otherIsHighest, apart⟩
      rw [isLowest.unique otherIsLowest, isHighest.unique otherIsHighest]
      refine ⟨apart, fun a b crosses => ?_⟩
      have ask := otherIsLowest.least a crosses.buyInRange
      have bid : book.bid b ≤ book.bid otherBid :=
        otherIsHighest.least b crosses.sellInRange
      omega

/-- Two chunks of quotes; the lowest ask stands in the second one. -/
def quotedBook : SoAOrderBook where
  bidPrices := [99, 94, 108, 102, 97, 112, 91, 104]
  askPrices := [100, 95, 110, 103, 98, 107, 92, 105]
  poolIds := [0, 1, 2, 3, 0, 1, 2, 3]
  len := 8
  bidPricesLength := rfl
  askPricesLength := rfl
  poolIdsLength := rfl
  bidPricesFit := by decide
  askPricesFit := by decide

/-- Its scan finds the largest spread, from the ask of 92 to the bid of 112. -/
theorem quotedBook_findsLargest : FindsLargest quotedBook := by
  have lowest : IsFirstLeast quotedBook.ask quotedBook.len 6 :=
    ⟨by decide, by decide, by decide⟩
  have highest :
      IsFirstLeast (fun b => toDual (quotedBook.bid b)) quotedBook.len 5 :=
    ⟨by decide, by decide, by decide⟩
  exact (findsLargest_iff_pools_differ quotedBook
    (.inr (.inr ⟨6, lowest, by decide⟩))).mpr
      fun _ => ⟨6, 5, lowest, highest, by decide⟩

/-- A scan that returns nothing misses what the detection finds. -/
theorem not_findsLargest
    {entry : Nat × Nat × Nat}
    {opportunities : List (Nat × Nat × Nat)}
    (scanned :
      scanBestSpread book.askPrices book.bidPrices book.poolIds = .ok none)
    (detected : book.detectArbitrage 1 = .ok (entry :: opportunities)) :
    ¬ FindsLargest book := by
  rintro ⟨found, all, isScanned, isDetected, -, finds⟩
  obtain rfl := Except.ok.inj (scanned.symm.trans isScanned)
  obtain rfl := Except.ok.inj (detected.symm.trans isDetected)
  obtain ⟨_, -, isEntry, -⟩ := finds (List.cons_ne_nil _ _)
  exact absurd isEntry nofun

/-- The ask of 1 is overwritten by the asks of 9 behind it. -/
def overwrittenBook : SoAOrderBook where
  bidPrices := [0, 5, 0, 0]
  askPrices := [1, 9, 9, 9]
  poolIds := [0, 1, 2, 3]
  len := 4
  bidPricesLength := rfl
  askPricesLength := rfl
  poolIdsLength := rfl
  bidPricesFit := by decide
  askPricesFit := by decide

/-- The lowest ask and the highest bid are both of the pool 0. -/
def onePoolBook : SoAOrderBook where
  bidPrices := [9, 4]
  askPrices := [1, 3]
  poolIds := [0, 1]
  len := 2
  bidPricesLength := rfl
  askPricesLength := rfl
  poolIdsLength := rfl
  bidPricesFit := by decide
  askPricesFit := by decide

/-- In both books the detection finds a spread, and the scan nothing. -/
theorem crossing_prices_are_missed :
    ¬ FindsLargest overwrittenBook ∧ ¬ FindsLargest onePoolBook :=
  ⟨@not_findsLargest overwrittenBook (0, 1, 4) [] (by decide) (by decide),
    @not_findsLargest onePoolBook (0, 1, 3) [(1, 0, 6)] (by decide)
      (by decide)⟩

end SpreadScan

end YieldDaemon
