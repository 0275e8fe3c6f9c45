import YieldDaemon.IntentFills
import YieldDaemon.WhileLoop

namespace YieldDaemon

open CheckedArithmetic TwoSidedMatching WhileLoop

/-!
# Batches in any order

The matching loop keeps an index into either side of a pair and two vectors of
remaining amounts.  What is left of a side are its offers from the index on, so
the loop pairs the two sides off and ends when one of them has no offer left.
A visit to a key starts from the pending intents alone, and its matches are the
same whenever it takes place.
-/

/-- The state of the loop over the intents of a pair and of its reverse. -/
structure Matching where
  sIdx : Nat
  bIdx : Nat
  sRemaining : List Nat
  bRemaining : List Nat
  batch : Batch

namespace IntentSolver.Indexed

/-- The sell amounts of a list of pending intents. -/
def sellAmounts
    (intents : List Intent)
    (positions : List Nat) : Checked (List Nat) :=
  positions.mapM fun position => do
    let intent ← index intents position
    return intent.sellAmount

/-- `s_idx < sellers.len() && b_idx < buyers.len()` -/
def goesOn (sellers buyers : List Nat) (state : Matching) : Bool :=
  state.sIdx < sellers.length && state.bIdx < buyers.length

/-- A round of the loop.  The indices stay below the lengths of vectors. -/
def matchRound
    (profile : Profile)
    (intents : List Intent)
    (sellers buyers : List Nat)
    (state : Matching) : Checked Matching := do
  let sLeft ← index state.sRemaining state.sIdx
  if sLeft = 0 then
    return { state with sIdx := state.sIdx + 1 }
  else
    let bLeft ← index state.bRemaining state.bIdx
    if bLeft = 0 then
      return { state with bIdx := state.bIdx + 1 }
    else
      let matched := min sLeft bLeft
      let sReduced ← sub profile 128 sLeft matched
      let sRemaining ← store state.sRemaining state.sIdx sReduced
      let bReduced ← sub profile 128 bLeft matched
      let bRemaining ← store state.bRemaining state.bIdx bReduced
      let sellPosition ← index sellers state.sIdx
      let intentA ← index intents sellPosition
      let buyPosition ← index buyers state.bIdx
      let intentB ← index intents buyPosition
      let totalSurplus ←
        add profile 128 state.batch.totalSurplus (matched / 100)
      return {
        sIdx := state.sIdx
        bIdx := state.bIdx
        sRemaining := sRemaining
        bRemaining := bRemaining
        batch := {
          intentMatches :=
            state.batch.intentMatches ++ [⟨intentA.id, intentB.id, matched⟩]
          totalSurplus := totalSurplus } }

/-- Greedy matching: pair off intents by amount. -/
def matchLoop
    (profile : Profile)
    (intents : List Intent)
    (sellers buyers : List Nat) : Nat → Matching → Fueled Matching :=
  whileLoop
    (fun state => return goesOn sellers buyers state)
    (fun _ state => matchRound profile intents sellers buyers state)

/-- Match one key of the order book against its reverse. -/
def solveKey
    (solver : IntentSolver)
    (profile : Profile)
    (fuel : Nat)
    (batch : Batch)
    (key : TokenPair) : Fueled Batch :=
  match solver.orderBook.lookup key, solver.orderBook.lookup key.swap with
  | some sellers, some buyers => do
    let sRemaining ← sellAmounts solver.pendingIntents sellers
    let bRemaining ← sellAmounts solver.pendingIntents buyers
    let state ←
      matchLoop profile solver.pendingIntents sellers buyers fuel
        ⟨0, 0, sRemaining, bRemaining, batch⟩
    return state.batch
  | _, _ => return batch

/-- Solve the current batch, visiting the keys of the order book in `pairs`. -/
def solveBatch
    (solver : IntentSolver)
    (profile : Profile)
    (pairs : List TokenPair)
    (fuel : Nat) : Fueled BatchSolution := do
  let batch ← pairs.foldlM (solveKey solver profile fuel) ⟨[], 0⟩
  return {
    intentMatches := batch.intentMatches
    dexRoutes := []
    totalSurplus := batch.totalSurplus
    solverFee := batch.totalSurplus / 10 }

/-- The offers from an index on, with their remaining amounts. -/
structure Side
    (positions amounts : List Nat)
    (idx : Nat)
    (offers : List (Offer Nat)) : Prop where
  sameLength : amounts.length = positions.length
  offersLeft : (List.zipWith Offer.mk positions amounts).drop idx = offers

namespace Side

variable
  {positions amounts : List Nat}
  {idx : Nat}
  {offer : Offer Nat}
  {offers : List (Offer Nat)}

/-- All offers of a side are left at the start. -/
theorem start
    (offers : List (Offer Nat)) :
    Side (offers.map Offer.label) (offers.map Offer.amount) 0 offers where
  sameLength := by
    rw [List.length_map, List.length_map]
  offersLeft := by
    rw [List.drop_zero, List.zipWith_map, List.zipWith_self]
    exact List.map_id offers

/-- An index is in range exactly as long as an offer is left. -/
theorem lt_length_iff (side : Side positions amounts idx offers) :
    idx < positions.length ↔ offers ≠ [] := by
  rw [← side.offersLeft, ne_eq, List.drop_eq_nil_iff, List.length_zipWith,
    side.sameLength, min_self, not_le]

theorem here (side : Side positions amounts idx (offer :: offers)) :
    (List.zipWith Offer.mk positions amounts)[idx]? = some offer := by
  have first :=
    @List.getElem?_drop _ (List.zipWith Offer.mk positions amounts) idx 0
  rw [side.offersLeft] at first
  exact first.symm

/-- The first offer that is left stands at the index. -/
theorem index_eq (side : Side positions amounts idx (offer :: offers)) :
    index positions idx = .ok offer.label ∧
      index amounts idx = .ok offer.amount := by
  obtain ⟨position, amount, atPosition, atAmount, rfl⟩ :=
    List.getElem?_zipWith_eq_some.mp side.here
  exact ⟨index_eq_ok.mpr atPosition, index_eq_ok.mpr atAmount⟩

/-- The next index stands before the later offers. -/
theorem next (side : Side positions amounts idx (offer :: offers)) :
    Side positions amounts (idx + 1) offers where
  sameLength := side.sameLength
  offersLeft := by
    rw [← List.drop_drop, side.offersLeft]
    rfl

/-- A stored amount is what remains of the first offer that is left. -/
theorem store
    (side : Side positions amounts idx (offer :: offers))
    (matched : Nat) :
    ∃ reduced,
      store amounts idx (offer.amount - matched) = .ok reduced ∧
        Side positions reduced idx (offer.fillBy matched :: offers) := by
  have inRange : idx < amounts.length := by
    rw [side.sameLength]
    exact side.lt_length_iff.mpr (List.cons_ne_nil _ _)
  refine ⟨_, store_of_lt inRange _, ?_, ?_⟩
  · rw [List.length_set, side.sameLength]
  · have later :
        (List.zipWith Offer.mk positions
            (amounts.set idx (offer.amount - matched))).drop (idx + 1) =
          offers := by
      rw [List.drop_zipWith, List.drop_set_of_lt (Nat.lt_succ_self idx),
        ← List.drop_zipWith]
      exact side.next.offersLeft
    have first :
        (List.zipWith Offer.mk positions
            (amounts.set idx (offer.amount - matched)))[idx]? =
          some (offer.fillBy matched) := by
      obtain ⟨position, amount, atPosition, atAmount, rfl⟩ :=
        List.getElem?_zipWith_eq_some.mp side.here
      exact List.getElem?_zipWith_eq_some.mpr
        ⟨position, amount - matched, atPosition,
          List.getElem?_set_self inRange, rfl⟩
    obtain ⟨inZip, isFirst⟩ := List.getElem?_eq_some_iff.mp first
    rw [List.drop_eq_getElem_cons inZip, isFirst, later]

end Side

variable {profile : Profile} {intents : List Intent}

/-- A state of the loop before the offers that it has left on both sides. -/
structure Before
    (sellers buyers : List Nat)
    (state : Matching)
    (sells buys : List (Offer Nat))
    (batch : Batch) : Prop where
  selling : Side sellers state.sRemaining state.sIdx sells
  buying : Side buyers state.bRemaining state.bIdx buys
  sameBatch : state.batch = batch

/-- The loop goes on exactly as long as both sides have an offer left. -/
theorem goesOn_iff
    {sellers buyers : List Nat}
    {state : Matching}
    {sells buys : List (Offer Nat)}
    {batch : Batch}
    (before : Before sellers buyers state sells buys batch) :
    goesOn sellers buyers state = true ↔ sells ≠ [] ∧ buys ≠ [] := by
  simp only [goesOn, Bool.and_eq_true, decide_eq_true_eq,
    before.selling.lt_length_iff, before.buying.lt_length_iff]

section Rounds

variable
  {sellers buyers : List Nat}
  {state : Matching}
  {seller buyer : Offer Nat}
  {sells buys : List (Offer Nat)}
  {batch : Batch}

/-- A round steps over an exhausted seller. -/
theorem matchRound_of_sold
    (before :
      Before sellers buyers state (seller :: sells) (buyer :: buys) batch)
    (exhausted : seller.amount = 0) :
    matchRound profile intents sellers buyers state =
        .ok { state with sIdx := state.sIdx + 1 } ∧
      Before sellers buyers { state with sIdx := state.sIdx + 1 } sells
        (buyer :: buys) batch := by
  refine ⟨?_, before.selling.next, before.buying, before.sameBatch⟩
  rw [matchRound, before.selling.index_eq.2, Checked.ok_bind,
    if_pos exhausted]
  rfl

/-- A round steps over an exhausted buyer. -/
theorem matchRound_of_bought
    (before :
      Before sellers buyers state (seller :: sells) (buyer :: buys) batch)
    (remains : seller.amount ≠ 0)
    (exhausted : buyer.amount = 0) :
    matchRound profile intents sellers buyers state =
        .ok { state with bIdx := state.bIdx + 1 } ∧
      Before sellers buyers { state with bIdx := state.bIdx + 1 }
        (seller :: sells) buys batch := by
  refine ⟨?_, before.selling, before.buying.next, before.sameBatch⟩
  rw [matchRound, before.selling.index_eq.2, Checked.ok_bind,
    if_neg remains, before.buying.index_eq.2, Checked.ok_bind,
    if_pos exhausted]
  rfl

/-- A round matches a seller and a buyer that both have something left. -/
theorem matchRound_of_remaining
    {intentA intentB : Intent}
    {totalSurplus : Nat}
    (before :
      Before sellers buyers state (seller :: sells) (buyer :: buys) batch)
    (sellerRemains : seller.amount ≠ 0)
    (buyerRemains : buyer.amount ≠ 0)
    (foundA : index intents seller.label = .ok intentA)
    (foundB : index intents buyer.label = .ok intentB)
    (added :
      add profile 128 batch.totalSurplus
          (min seller.amount buyer.amount / 100) =
        .ok totalSurplus) :
    ∃ next,
      matchRound profile intents sellers buyers state = .ok next ∧
        Before sellers buyers next
          (seller.fillBy (min seller.amount buyer.amount) :: sells)
          (buyer.fillBy (min seller.amount buyer.amount) :: buys)
          ⟨batch.intentMatches ++
              [⟨intentA.id, intentB.id, min seller.amount buyer.amount⟩],
            totalSurplus⟩ := by
  -- Neither side has less left than what is matched.
  have sReduced :
      sub profile 128 seller.amount (min seller.amount buyer.amount) = _ :=
    sub_of_le (min_le_left _ _)
  have bReduced :
      sub profile 128 buyer.amount (min seller.amount buyer.amount) = _ :=
    sub_of_le (min_le_right _ _)
  obtain ⟨sRemaining, sStored, selling⟩ :=
    before.selling.store (min seller.amount buyer.amount)
  obtain ⟨bRemaining, bStored, buying⟩ :=
    before.buying.store (min seller.amount buyer.amount)
  refine ⟨⟨state.sIdx, state.bIdx, sRemaining, bRemaining, _⟩, ?_, selling,
    buying, rfl⟩
  rw [matchRound, before.selling.index_eq.2, Checked.ok_bind,
    if_neg sellerRemains, before.buying.index_eq.2, Checked.ok_bind,
    if_neg buyerRemains, before.sameBatch]
  dsimp only
  rw [sReduced, Checked.ok_bind, sStored, Checked.ok_bind, bReduced,
    Checked.ok_bind, bStored, Checked.ok_bind,
    before.selling.index_eq.1, Checked.ok_bind, foundA, Checked.ok_bind,
    before.buying.index_eq.1, Checked.ok_bind, foundB, Checked.ok_bind,
    added]
  rfl

/-- The loop goes on after a round. -/
theorem matchLoop_round
    {next final : Matching}
    (before :
      Before sellers buyers state (seller :: sells) (buyer :: buys) batch)
    (round : matchRound profile intents sellers buyers state = .ok next)
    (ends :
      EndsWith
        (fun fuel => matchLoop profile intents sellers buyers fuel next)
        final) :
    EndsWith
      (fun fuel => matchLoop profile intents sellers buyers fuel state)
      final := by
  have holds := (goesOn_iff before).mpr
    ⟨List.cons_ne_nil _ _, List.cons_ne_nil _ _⟩
  refine whileLoop_round (congrArg Except.ok holds) ?_ ends
  rw [round]
  exact EndsWith.pure next

/-- The loop ends when a side has nothing left. -/
theorem matchLoop_done
    (before : Before sellers buyers state sells buys batch)
    (exhausted : sells = [] ∨ buys = []) :
    EndsWith
      (fun fuel => matchLoop profile intents sellers buyers fuel state)
      state := by
  have fails : goesOn sellers buyers state = false := by
    rw [← Bool.not_eq_true, goesOn_iff before, not_and_or, not_not, not_not]
    exact exhausted
  exact whileLoop_done (congrArg Except.ok fails)

end Rounds

/--
Whenever pairing off the offers that are left returns a batch, the loop over
indices ends with that batch.
-/
theorem matchLoop_ends
    {sellers buyers : List Nat}
    {sells buys : List (Offer Nat)}
    {batch solved : Batch}
    (returned : matchPair profile intents sells buys batch = .ok solved)
    {state : Matching}
    (before : Before sellers buyers state sells buys batch) :
    ∃ final,
      EndsWith
          (fun fuel => matchLoop profile intents sellers buyers fuel state)
          final ∧
        final.batch = solved := by
  induction sells, buys, batch using matchPair.induct generalizing state with
  | case1 seller sells buyer buys batch exhausted inductionHypothesis =>
      rw [matchPair, if_pos exhausted] at returned
      obtain ⟨round, advanced⟩ := matchRound_of_sold before exhausted
      obtain ⟨final, ends, isSolved⟩ := inductionHypothesis returned advanced
      exact ⟨final, matchLoop_round before round ends, isSolved⟩
  | case2 seller sells buyer buys batch remains exhausted
      inductionHypothesis =>
      rw [matchPair, if_neg remains, if_pos exhausted] at returned
      obtain ⟨round, advanced⟩ :=
        matchRound_of_bought before remains exhausted
      obtain ⟨final, ends, isSolved⟩ := inductionHypothesis returned advanced
      exact ⟨final, matchLoop_round before round ends, isSolved⟩
  | case3 seller sells buyer buys batch sellerRemains buyerRemains matched
      inductionHypothesis =>
      rw [matchPair, if_neg sellerRemains, if_neg buyerRemains] at returned
      obtain ⟨intentA, foundA, returned⟩ := Checked.bind_eq_ok.mp returned
      obtain ⟨intentB, foundB, returned⟩ := Checked.bind_eq_ok.mp returned
      obtain ⟨totalSurplus, added, returned⟩ := Checked.bind_eq_ok.mp returned
      obtain ⟨next, round, advanced⟩ :=
        matchRound_of_remaining before sellerRemains buyerRemains foundA
          foundB added
      obtain ⟨final, ends, isSolved⟩ :=
        inductionHypothesis intentA intentB totalSurplus returned advanced
      exact ⟨final, matchLoop_round before round ends, isSolved⟩
  | case4 buys batch =>
      simp only [matchPair, Except.ok.injEq] at returned
      exact ⟨state, matchLoop_done before (.inl rfl),
        before.sameBatch.trans returned⟩
  | case5 seller sells batch =>
      simp only [matchPair, Except.ok.injEq] at returned
      exact ⟨state, matchLoop_done before (.inr rfl),
        before.sameBatch.trans returned⟩

/-- The amounts of the offers that a side starts with. -/
theorem sellAmounts_of_remaining
    {positions : List Nat}
    {offers : List (Offer Nat)}
    (returned : remaining intents positions = .ok offers) :
    sellAmounts intents positions = .ok (offers.map Offer.amount) := by
  unfold remaining at returned
  unfold sellAmounts
  induction positions generalizing offers with
  | nil =>
      obtain rfl := Except.ok.inj returned
      rfl
  | cons position positions inductionHypothesis =>
      rw [List.mapM_cons] at returned ⊢
      obtain ⟨offer, first, returned⟩ := Checked.bind_eq_ok.mp returned
      obtain ⟨later, rest, returned⟩ := Checked.bind_eq_ok.mp returned
      obtain ⟨intent, found, isOffer⟩ := Checked.bind_eq_ok.mp first
      obtain rfl := Except.ok.inj isOffer
      obtain rfl := Except.ok.inj returned
      rw [found, Checked.ok_bind, inductionHypothesis rest]
      rfl

/-- A visit over indices ends with the batch that the visit over offers gives. -/
theorem solveKey_ends
    {key : TokenPair}
    {batch solved : Batch}
    (returned :
      (ofIntents intents).solveKey profile batch key = .ok solved) :
    EndsWith
      (fun fuel => solveKey (ofIntents intents) profile fuel batch key)
      solved := by
  have sellersBook := indexesPending_ofIntents intents key
  have buyersBook := indexesPending_ofIntents intents key.swap
  rw [pendingIntents_ofIntents] at sellersBook buyersBook
  unfold IntentSolver.solveKey at returned
  unfold solveKey
  rw [sellersBook, buyersBook, pendingIntents_ofIntents] at returned ⊢
  have sellRemaining := remaining_eq intents key
  have buyRemaining := remaining_eq intents key.swap
  have sellingStarts := Side.start (offersOf intents key)
  have buyingStarts := Side.start (offersOf intents key.swap)
  cases sellers : offersOf intents key with
  | nil =>
      simp only [sellers, bookEntry, Except.ok.injEq] at returned
      subst returned
      exact EndsWith.pure batch
  | cons seller laterSellers =>
      cases buyers : offersOf intents key.swap with
      | nil =>
          simp only [sellers, buyers, bookEntry, Except.ok.injEq]
            at returned
          subst returned
          exact EndsWith.pure batch
      | cons buyer laterBuyers =>
          rw [sellers, List.map_cons] at sellRemaining sellingStarts
          rw [buyers, List.map_cons] at buyRemaining buyingStarts
          simp only [sellers, buyers, bookEntry, sellRemaining,
            buyRemaining, Checked.ok_bind] at returned
          have starts :
              Before _ _ ⟨0, 0, _, _, batch⟩ (seller :: laterSellers)
                (buyer :: laterBuyers) batch :=
            ⟨sellingStarts, buyingStarts, rfl⟩
          obtain ⟨final, ends, rfl⟩ := matchLoop_ends returned starts
          exact EndsWith.lift_bind (sellAmounts_of_remaining sellRemaining)
            (EndsWith.lift_bind (sellAmounts_of_remaining buyRemaining)
              (ends.bind (EndsWith.pure _)))

/-- Whenever the loops over offers return a batch, so do those over indices. -/
theorem solveBatch_ends
    {pairs : List TokenPair}
    {solution : BatchSolution}
    (returned :
      (ofIntents intents).solveBatch profile pairs = .ok solution) :
    EndsWith (solveBatch (ofIntents intents) profile pairs) solution := by
  have visits :
      ∀ (pairs : List TokenPair) (batch solved : Batch),
        pairs.foldlM ((ofIntents intents).solveKey profile) batch =
            .ok solved →
          EndsWith
            (fun fuel =>
              pairs.foldlM (solveKey (ofIntents intents) profile fuel) batch)
            solved := by
    intro pairs
    induction pairs with
    | nil =>
        intro batch solved unchanged
        obtain rfl := Except.ok.inj unchanged
        exact EndsWith.pure batch
    | cons key pairs inductionHypothesis =>
        intro batch solved visited
        simp only [List.foldlM_cons] at visited ⊢
        obtain ⟨middle, first, later⟩ := Checked.bind_eq_ok.mp visited
        exact (solveKey_ends first).bind (inductionHypothesis _ _ later)
  obtain ⟨batch, visited, rest⟩ := Checked.bind_eq_ok.mp returned
  obtain rfl := Except.ok.inj rest
  exact (visits pairs ⟨[], 0⟩ batch visited).bind (EndsWith.pure _)

end IntentSolver.Indexed

/-- The surplus of some fills. -/
def surplusOf (fills : List (Fill Nat Nat)) : Nat :=
  (fills.map (fun fill => fill.amount / 100)).sum

theorem surplusOf_cons
    (fill : Fill Nat Nat)
    (fills : List (Fill Nat Nat)) :
    surplusOf (fill :: fills) = fill.amount / 100 + surplusOf fills := by
  simp [surplusOf]

/-- The matches of one visit to a key. -/
def keyMatches (intents : List Intent) (key : TokenPair) : List IntentMatch :=
  (keyFills intents key).map (toMatch intents)

namespace IntentSolver

variable {profile : Profile} {intents : List Intent}

/-- A surplus that fits is added exactly in either profile. -/
theorem foldlM_addSurplus
    {fills : List (Fill Nat Nat)}
    {total : Nat}
    (fits : total + surplusOf fills < 2 ^ 128) :
    fills.foldlM (addSurplus profile) total = .ok (total + surplusOf fills) := by
  induction fills generalizing total with
  | nil =>
      rfl
  | cons fill fills inductionHypothesis =>
      rw [surplusOf_cons, ← Nat.add_assoc] at fits ⊢
      rw [List.foldlM_cons, addSurplus,
        add_of_lt (Nat.lt_of_add_right_lt fits), Checked.ok_bind]
      exact inductionHypothesis fits

/-- A batch returns in either profile as long as its surplus fits. -/
theorem solveBatch_fits
    {pairs : List TokenPair}
    (fits : surplusOf (batchFills intents pairs) < 2 ^ 128) :
    ∃ solution,
      (ofIntents intents).solveBatch profile pairs = .ok solution ∧
        solution.totalSurplus = surplusOf (batchFills intents pairs) ∧
        solution.solverFee = solution.totalSurplus / 10 := by
  have added :
      (batchFills intents pairs).foldlM (addSurplus profile) 0 = _ :=
    foldlM_addSurplus (by rwa [Nat.zero_add])
  rw [Nat.zero_add] at added
  rw [solveBatch_eq, extend, added]
  exact ⟨_, rfl, rfl, rfl⟩

end IntentSolver

variable {intents : List Intent}

/-- A key is matched up to the smaller of what its two sides sell. -/
theorem matchedTotal_keyMatches (intents : List Intent) (key : TokenPair) :
    ((keyMatches intents key).map IntentMatch.matchedAmount).sum =
      min (sellTotal intents key) (sellTotal intents key.swap) := by
  have amounts :
      (keyMatches intents key).map IntentMatch.matchedAmount =
        (keyFills intents key).map Fill.amount := by
    simp [keyMatches, Function.comp_def, toMatch]
  rw [amounts, ← fillTotal, keyFills, fillTotal_pairOff, volume_offersOf,
    volume_offersOf]

/-- The matches of a key are between its intents and those of its reverse. -/
theorem intents_of_mem_keyMatches
    {key : TokenPair}
    {pairing : IntentMatch}
    (member : pairing ∈ keyMatches intents key) :
    ∃ seller ∈ intents, ∃ buyer ∈ intents,
      seller.pair = key ∧ buyer.pair = key.swap ∧
        pairing.intentA = seller.id ∧ pairing.intentB = buyer.id := by
  obtain ⟨fill, fillMember, rfl⟩ := List.mem_map.mp member
  obtain ⟨seller, buyer, foundSeller, foundBuyer, sellerPair, buyerPair⟩ :=
    intents_of_mem_keyFills fillMember
  exact ⟨seller, List.mem_of_getElem? foundSeller, buyer,
    List.mem_of_getElem? foundBuyer, sellerPair, buyerPair,
    by simp [toMatch, idAt, foundSeller], by simp [toMatch, idAt, foundBuyer]⟩

theorem batchFills_perm
    {pairs others : List TokenPair}
    (reordered : pairs.Perm others) :
    (batchFills intents pairs).Perm (batchFills intents others) :=
  reordered.flatMap_right _

theorem surplusOf_perm
    {fills others : List (Fill Nat Nat)}
    (reordered : fills.Perm others) :
    surplusOf fills = surplusOf others :=
  (reordered.map _).sum_eq

/--
A batch whose surplus fits ends in every order of the keys, without a panic in
either profile.  Its matches are those of the visits to the keys, whatever the
order, and so are its surplus and its fee.  The matches of a key are between
its intents and those of its reverse, up to the smaller of the two sides.
-/
theorem solveBatch_in_any_order
    (profile : Profile)
    (intents : List Intent)
    (fits : surplusOf (batchFills intents (bookKeys intents)) < 2 ^ 128) :
    (∀ pairs : List TokenPair,
      pairs.Perm (bookKeys intents) →
      ∃ solution,
        EndsWith
            (IntentSolver.Indexed.solveBatch
              (IntentSolver.ofIntents intents) profile pairs)
            solution ∧
          solution.intentMatches = pairs.flatMap (keyMatches intents) ∧
          solution.intentMatches.Perm
            ((bookKeys intents).flatMap (keyMatches intents)) ∧
          solution.totalSurplus =
            surplusOf (batchFills intents (bookKeys intents)) ∧
          solution.solverFee =
            surplusOf (batchFills intents (bookKeys intents)) / 10) ∧
    ∀ key : TokenPair,
      (∀ pairing ∈ keyMatches intents key,
        ∃ seller ∈ intents, ∃ buyer ∈ intents,
          seller.pair = key ∧ buyer.pair = key.swap ∧
            pairing.intentA = seller.id ∧ pairing.intentB = buyer.id) ∧
      ((keyMatches intents key).map IntentMatch.matchedAmount).sum =
        min (sellTotal intents key) (sellTotal intents key.swap) := by
  refine ⟨?_, fun key =>
    ⟨fun _ => intents_of_mem_keyMatches, matchedTotal_keyMatches intents key⟩⟩
  intro pairs visited
  have sameSurplus := surplusOf_perm (@batchFills_perm intents _ _ visited)
  obtain ⟨solution, returned, surplus, fee⟩ :=
    IntentSolver.solveBatch_fits (sameSurplus.trans_lt fits)
  have matched :
      solution.intentMatches = pairs.flatMap (keyMatches intents) := by
    rw [IntentSolver.solveBatch_matches returned, batchFills,
      List.map_flatMap]
    rfl
  refine ⟨solution, IntentSolver.Indexed.solveBatch_ends returned, matched,
    matched ▸ visited.flatMap_right _, surplus.trans sameSurplus, ?_⟩
  rw [fee, surplus, sameSurplus]

/-- Alice sells 1000 of A for B, and two others sell 300 and 400 of B for A. -/
def aliceAndTwoOthers : List Intent :=
  [plainIntent 1 0xAA 0xBB 1000, plainIntent 2 0xBB 0xAA 300,
    plainIntent 3 0xBB 0xAA 400]

/-- The surplus of 7 under either key is the same in the other order. -/
theorem surplus_of_alice_in_reverse :
    ∃ solution,
      EndsWith
          (IntentSolver.Indexed.solveBatch
            (IntentSolver.ofIntents aliceAndTwoOthers) .debug
            (bookKeys aliceAndTwoOthers).reverse)
          solution ∧
        solution.totalSurplus = 14 ∧ solution.solverFee = 1 := by
  have surplus :
      surplusOf (batchFills aliceAndTwoOthers (bookKeys aliceAndTwoOthers)) =
        14 := by
    decide +kernel
  obtain ⟨solution, ends, -, -, total, fee⟩ :=
    (solveBatch_in_any_order .debug aliceAndTwoOthers
      (by rw [surplus]; norm_num)).1 _ (List.reverse_perm _)
  exact ⟨solution, ends, total.trans surplus, by rw [fee, surplus]⟩

end YieldDaemon
