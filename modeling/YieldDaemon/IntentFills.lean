import YieldDaemon.IntentSolver

namespace YieldDaemon

open CheckedArithmetic TwoSidedMatching

/-!
# Fills of a batch

A batch pairs off the two directions of every token pair.  The loop over the
keys of the order book meets each pair of opposite keys twice, and the
remaining amounts start afresh each time, so whatever an intent is filled by
under its own key it is filled by once more under the reverse key.
-/

/-- The pending intents of a pair as offers, labelled by their position. -/
def offersOf (intents : List Intent) (pair : TokenPair) : List (Offer Nat) :=
  (intents.zipIdx.filter (fun entry => entry.1.pair = pair)).map
    (fun entry => ⟨entry.2, entry.1.sellAmount⟩)

/-- The total that the intents of a pair sell. -/
def sellTotal (intents : List Intent) (pair : TokenPair) : Nat :=
  ((intents.filter (fun intent => intent.pair = pair)).map
    Intent.sellAmount).sum

/-- The fills of one visit to a key, between positions of intents. -/
def keyFills (intents : List Intent) (key : TokenPair) :
    List (Fill Nat Nat) :=
  pairOff (offersOf intents key) (offersOf intents key.swap)

/-- The fills of all visits in turn. -/
def batchFills (intents : List Intent) (pairs : List TokenPair) :
    List (Fill Nat Nat) :=
  pairs.flatMap (keyFills intents)

/-- The identifier of a pending intent. -/
def idAt (intents : List Intent) (position : Nat) : Key :=
  (intents[position]?.map Intent.id).getD (Vector.replicate 32 0)

/-- A fill under the identifiers of its two intents. -/
def toMatch (intents : List Intent) (fill : Fill Nat Nat) : IntentMatch :=
  ⟨idAt intents fill.left, idAt intents fill.right, fill.amount⟩

section Offers

variable {intents : List Intent} {pair : TokenPair}

theorem mem_offersOf {offer : Offer Nat} :
    offer ∈ offersOf intents pair ↔
      ∃ intent,
        intents[offer.label]? = some intent ∧
          intent.pair = pair ∧ intent.sellAmount = offer.amount := by
  rcases offer with ⟨label, amount⟩
  simp only [offersOf, List.mem_map, List.mem_filter, decide_eq_true_eq,
    List.mem_zipIdx_iff_getElem?, Prod.exists, Offer.mk.injEq]
  constructor
  · rintro ⟨intent, position, ⟨found, samePair⟩, rfl, rfl⟩
    exact ⟨intent, found, samePair, rfl⟩
  · rintro ⟨intent, found, samePair, rfl⟩
    exact ⟨intent, label, ⟨found, samePair⟩, rfl, rfl⟩

/-- A position carries offers only of the pair of its intent. -/
theorem pair_of_label_mem
    {position : Nat}
    (member : position ∈ (offersOf intents pair).map Offer.label) :
    ∃ intent, intents[position]? = some intent ∧ intent.pair = pair := by
  obtain ⟨offer, offerMember, rfl⟩ := List.mem_map.mp member
  obtain ⟨intent, found, samePair, -⟩ := mem_offersOf.mp offerMember
  exact ⟨intent, found, samePair⟩

theorem volume_offersOf :
    volume (offersOf intents pair) = sellTotal intents pair := by
  have amounts :
      ∀ (intents : List Intent) (start : Nat),
        (((intents.zipIdx start).filter
            (fun entry => entry.1.pair = pair)).map
              (fun entry => entry.1.sellAmount)).sum =
          sellTotal intents pair := by
    intro intents
    induction intents with
    | nil =>
        intro start
        rfl
    | cons intent intents inductionHypothesis =>
        intro start
        by_cases samePair : intent.pair = pair
        · simpa [sellTotal, samePair] using inductionHypothesis (start + 1)
        · simpa [sellTotal, samePair] using inductionHypothesis (start + 1)
  simpa [volume, offersOf, Function.comp_def] using amounts intents 0

/-- An added intent is the last offer of its pair. -/
theorem offersOf_concat (intents : List Intent) (intent : Intent) :
    offersOf (intents ++ [intent]) pair =
      offersOf intents pair ++
        if intent.pair = pair then
          [⟨intents.length, intent.sellAmount⟩]
        else
          [] := by
  by_cases samePair : intent.pair = pair <;>
    simp [offersOf, List.zipIdx_append, samePair]

/-- An intent offers after the earlier ones of its pair. -/
theorem offersOf_split
    (before after : List Intent)
    (intent : Intent) :
    ∃ later,
      offersOf (before ++ intent :: after) intent.pair =
          offersOf before intent.pair ++
            ⟨before.length, intent.sellAmount⟩ :: later ∧
        before.length ∉
          (offersOf before intent.pair).map Offer.label ∧
        before.length ∉ later.map Offer.label := by
  refine ⟨((after.zipIdx (before.length + 1)).filter
    (fun entry => entry.1.pair = intent.pair)).map
      (fun entry => ⟨entry.2, entry.1.sellAmount⟩), ?_, ?_, ?_⟩
  · simp [offersOf, List.zipIdx_append]
  · intro member
    obtain ⟨other, found, -⟩ := pair_of_label_mem member
    simp at found
  · intro member
    obtain ⟨offer, offerMember, label⟩ := List.mem_map.mp member
    obtain ⟨entry, entryMember, rfl⟩ := List.mem_map.mp offerMember
    have later := List.le_snd_of_mem_zipIdx (List.mem_filter.mp entryMember).1
    have here : entry.2 = before.length := label
    omega

end Offers

namespace IntentSolver

/-- The order-book entry of some offers; a pair without offers has none. -/
def bookEntry (offers : List (Offer Nat)) : Option (List Nat) :=
  match offers with
  | [] => none
  | offer :: later => some (offer.label :: later.map Offer.label)

@[simp] theorem bookEntry_getD (offers : List (Offer Nat)) :
    (bookEntry offers).getD [] = offers.map Offer.label := by
  cases offers <;> rfl

@[simp] theorem bookEntry_concat
    (offers : List (Offer Nat))
    (offer : Offer Nat) :
    bookEntry (offers ++ [offer]) =
      some (offers.map Offer.label ++ [offer.label]) := by
  cases offers <;> simp [bookEntry]

/-- The order book lists the positions of the pending intents of each pair. -/
def IndexesPending (solver : IntentSolver) : Prop :=
  ∀ pair,
    solver.orderBook.lookup pair =
      bookEntry (offersOf solver.pendingIntents pair)

/-- Adding an intent keeps the order book in step with the pending intents. -/
theorem indexesPending_addIntent
    {solver : IntentSolver}
    (indexes : solver.IndexesPending)
    (intent : Intent) :
    (solver.addIntent intent).IndexesPending := by
  intro pair
  simp only [addIntent]
  by_cases samePair : intent.pair = pair
  · subst pair
    rw [AList.lookup_insert, offersOf_concat, if_pos rfl, bookEntry_concat,
      indexes, bookEntry_getD]
  · rw [AList.lookup_insert_ne (Ne.symm samePair), offersOf_concat,
      if_neg samePair, List.append_nil]
    exact indexes pair

theorem pendingIntents_ofIntents (intents : List Intent) :
    (ofIntents intents).pendingIntents = intents := by
  induction intents using List.reverseRecOn with
  | nil =>
      rfl
  | append_singleton intents intent inductionHypothesis =>
      unfold ofIntents at inductionHypothesis ⊢
      rw [List.foldl_append, List.foldl_cons, List.foldl_nil, addIntent,
        inductionHypothesis]

theorem indexesPending_ofIntents (intents : List Intent) :
    (ofIntents intents).IndexesPending := by
  induction intents using List.reverseRecOn with
  | nil =>
      intro pair
      rfl
  | append_singleton intents intent inductionHypothesis =>
      unfold ofIntents at inductionHypothesis ⊢
      rw [List.foldl_append, List.foldl_cons, List.foldl_nil]
      exact indexesPending_addIntent inductionHypothesis intent

/-- The order book has exactly the pairs that some pending intent has. -/
theorem mem_orderBook_ofIntents
    (intents : List Intent)
    (pair : TokenPair) :
    pair ∈ (ofIntents intents).orderBook ↔ offersOf intents pair ≠ [] := by
  have lookup := indexesPending_ofIntents intents pair
  rw [pendingIntents_ofIntents] at lookup
  rw [← AList.lookup_isSome, lookup]
  cases offersOf intents pair <;> simp [bookEntry]

/-! Matches are fills. -/

variable {profile : Profile} {intents : List Intent}

/-- The remaining amounts of a pair start out as what its intents sell. -/
theorem remaining_eq (intents : List Intent) (pair : TokenPair) :
    remaining intents ((offersOf intents pair).map Offer.label) =
      .ok (offersOf intents pair) := by
  have each :
      ∀ offers : List (Offer Nat),
        (∀ offer ∈ offers, ∃ intent,
          intents[offer.label]? = some intent ∧
            intent.sellAmount = offer.amount) →
        remaining intents (offers.map Offer.label) = .ok offers := by
    intro offers
    induction offers with
    | nil =>
        intro _
        rfl
    | cons offer offers inductionHypothesis =>
        intro found
        obtain ⟨intent, here, amount⟩ := found offer List.mem_cons_self
        have rest := inductionHypothesis
          (fun other member => found other (List.mem_cons_of_mem _ member))
        unfold remaining at rest ⊢
        rw [List.map_cons, List.mapM_cons, rest, index_eq_ok.mpr here]
        simp [amount]
  refine each _ ?_
  intro offer member
  obtain ⟨intent, found, -, amount⟩ := mem_offersOf.mp member
  exact ⟨intent, found, amount⟩

theorem idAt_of_index
    {position : Nat}
    {intent : Intent}
    (found : index intents position = .ok intent) :
    idAt intents position = intent.id := by
  simp [idAt, index_eq_ok.mp found]

theorem label_lt_of_mem
    {pair : TokenPair}
    {position : Nat}
    (member : position ∈ (offersOf intents pair).map Offer.label) :
    position < intents.length := by
  obtain ⟨intent, found, -⟩ := pair_of_label_mem member
  exact (List.getElem?_eq_some_iff.mp found).1

/-- Add the surplus of a fill. -/
def addSurplus
    (profile : Profile)
    (total : Nat)
    (fill : Fill Nat Nat) : Checked Nat :=
  add profile 128 total (fill.amount / 100)

/-- A batch with some more fills, whose surplus is added one after the other. -/
def extend
    (profile : Profile)
    (intents : List Intent)
    (batch : Batch)
    (fills : List (Fill Nat Nat)) : Checked Batch := do
  let totalSurplus ← fills.foldlM (addSurplus profile) batch.totalSurplus
  return ⟨batch.intentMatches ++ fills.map (toMatch intents), totalSurplus⟩

@[simp] theorem extend_nil (batch : Batch) :
    extend profile intents batch [] = .ok batch := by
  simp [extend]

theorem extend_cons
    (batch : Batch)
    (fill : Fill Nat Nat)
    (fills : List (Fill Nat Nat)) :
    extend profile intents batch (fill :: fills) =
      addSurplus profile batch.totalSurplus fill >>= fun totalSurplus =>
        extend profile intents
          ⟨batch.intentMatches ++ [toMatch intents fill], totalSurplus⟩
          fills := by
  simp [extend]

/-- Extending a batch in two parts. -/
theorem extend_append
    (batch : Batch)
    (first second : List (Fill Nat Nat)) :
    extend profile intents batch (first ++ second) =
      extend profile intents batch first >>= fun middle =>
        extend profile intents middle second := by
  simp [extend]

/-- The loop over two lists of intents extends the batch by their fills. -/
theorem matchPair_eq
    {sellers buyers : List (Offer Nat)}
    {batch : Batch}
    (sellersFound :
      ∀ position ∈ sellers.map Offer.label, position < intents.length)
    (buyersFound :
      ∀ position ∈ buyers.map Offer.label, position < intents.length) :
    matchPair profile intents sellers buyers batch =
      extend profile intents batch (pairOff sellers buyers) := by
  induction sellers, buyers, batch using matchPair.induct with
  | case1 seller sellers buyer buyers batch exhausted inductionHypothesis =>
      rw [matchPair, if_pos exhausted, pairOff_of_left_exhausted exhausted]
      exact inductionHypothesis
        (fun position member =>
          sellersFound position (List.mem_cons_of_mem _ member))
        buyersFound
  | case2 seller sellers buyer buyers batch remains exhausted
      inductionHypothesis =>
      rw [matchPair, if_neg remains, if_pos exhausted,
        pairOff_of_right_exhausted exhausted]
      exact inductionHypothesis sellersFound
        (fun position member =>
          buyersFound position (List.mem_cons_of_mem _ member))
  | case3 seller sellers buyer buyers batch sellerRemains buyerRemains
      matched inductionHypothesis =>
      obtain ⟨intentA, foundA⟩ :
          ∃ intentA, index intents seller.label = .ok intentA :=
        ⟨_, index_of_lt (sellersFound _ List.mem_cons_self)⟩
      obtain ⟨intentB, foundB⟩ :
          ∃ intentB, index intents buyer.label = .ok intentB :=
        ⟨_, index_of_lt (buyersFound _ List.mem_cons_self)⟩
      have first :
          toMatch intents ⟨seller.label, buyer.label, matched⟩ =
            ⟨intentA.id, intentB.id, matched⟩ := by
        simp [toMatch, idAt_of_index foundA, idAt_of_index foundB]
      have later (totalSurplus : Nat) :=
        inductionHypothesis intentA intentB totalSurplus sellersFound
          buyersFound
      rw [matchPair, if_neg sellerRemains, if_neg buyerRemains, foundA,
        foundB, pairOff_of_remaining sellerRemains buyerRemains, extend_cons,
        first]
      exact congrArg (Except.bind _) (funext later)
  | case4 buyers batch =>
      simp [matchPair]
  | case5 seller sellers batch =>
      simp [matchPair]

/-- A visit to a key extends the batch by the fills of that key. -/
theorem solveKey_eq
    (profile : Profile)
    (intents : List Intent)
    (batch : Batch)
    (key : TokenPair) :
    (ofIntents intents).solveKey profile batch key =
      extend profile intents batch (keyFills intents key) := by
  have sellersBook := indexesPending_ofIntents intents key
  have buyersBook := indexesPending_ofIntents intents key.swap
  rw [pendingIntents_ofIntents] at sellersBook buyersBook
  unfold solveKey keyFills
  rw [sellersBook, buyersBook, pendingIntents_ofIntents]
  have sellRemaining := remaining_eq intents key
  have buyRemaining := remaining_eq intents key.swap
  have pairedOff :=
    @matchPair_eq profile intents (offersOf intents key)
      (offersOf intents key.swap) batch (fun _ => label_lt_of_mem)
      (fun _ => label_lt_of_mem)
  cases sellers : offersOf intents key with
  | nil =>
      simp [bookEntry]
  | cons seller laterSellers =>
      cases buyers : offersOf intents key.swap with
      | nil =>
          simp [bookEntry]
      | cons buyer laterBuyers =>
          rw [sellers, buyers] at pairedOff
          rw [sellers, List.map_cons] at sellRemaining
          rw [buyers, List.map_cons] at buyRemaining
          simp only [bookEntry, sellRemaining, buyRemaining,
            Checked.ok_bind, pairedOff]

/-- A batch is extended by the fills of all visits. -/
theorem solveBatch_eq
    (profile : Profile)
    (intents : List Intent)
    (pairs : List TokenPair) :
    (ofIntents intents).solveBatch profile pairs =
      extend profile intents ⟨[], 0⟩ (batchFills intents pairs) >>=
        fun batch =>
          .ok ⟨batch.intentMatches, [], batch.totalSurplus,
            batch.totalSurplus / 10⟩ := by
  have visits (batch : Batch) :
      pairs.foldlM ((ofIntents intents).solveKey profile) batch =
        extend profile intents batch (batchFills intents pairs) := by
    induction pairs generalizing batch with
    | nil =>
        exact (extend_nil batch).symm
    | cons key pairs inductionHypothesis =>
        rw [List.foldlM_cons, solveKey_eq, batchFills, List.flatMap_cons,
          extend_append]
        exact bind_congr inductionHypothesis
  rw [solveBatch, visits]
  rfl

/-- The matches of a batch are its fills under the intents' identifiers. -/
theorem solveBatch_matches
    {pairs : List TokenPair}
    {solution : BatchSolution}
    (returned :
      (ofIntents intents).solveBatch profile pairs = .ok solution) :
    solution.intentMatches =
      (batchFills intents pairs).map (toMatch intents) := by
  rw [solveBatch_eq] at returned
  obtain ⟨batch, extended, returned⟩ := Checked.bind_eq_ok.mp returned
  obtain ⟨totalSurplus, -, isBatch⟩ := Checked.bind_eq_ok.mp extended
  obtain rfl := Except.ok.inj returned
  obtain rfl := Except.ok.inj isBatch
  rfl

/-- In a release build a batch always returns. -/
theorem solveBatch_returns (intents : List Intent) (pairs : List TokenPair) :
    ∃ solution,
      (ofIntents intents).solveBatch .release pairs = .ok solution := by
  obtain ⟨totalSurplus, added⟩ :=
    @Checked.foldlM_returns _ _ (addSurplus .release)
      (batchFills intents pairs)
      (fun fill _ total => add_release_returns 128 total (fill.amount / 100))
      0
  rw [solveBatch_eq, extend, added]
  exact ⟨_, rfl⟩

end IntentSolver

/-! How far an intent is filled. -/

section Filled

variable {intents before after : List Intent} {intent : Intent}

/-- Only the own key of an intent fills it as a seller. -/
theorem leftFilled_keyFills_of_ne
    {position : Nat}
    {key : TokenPair}
    (found : intents[position]? = some intent)
    (other : key ≠ intent.pair) :
    leftFilled position (keyFills intents key) = 0 := by
  rw [keyFills, leftFilled_pairOff]
  refine offered_allocate_of_not_mem ?_ _
  intro member
  obtain ⟨same, foundSame, samePair⟩ := pair_of_label_mem member
  obtain rfl := Option.some.inj (found.symm.trans foundSame)
  exact other samePair.symm

/-- Only the reverse key of an intent fills it as a buyer. -/
theorem rightFilled_keyFills_of_ne
    {position : Nat}
    {key : TokenPair}
    (found : intents[position]? = some intent)
    (other : key ≠ intent.pair.swap) :
    rightFilled position (keyFills intents key) = 0 := by
  rw [keyFills, rightFilled_pairOff]
  refine offered_allocate_of_not_mem ?_ _
  intro member
  obtain ⟨same, foundSame, samePair⟩ := pair_of_label_mem member
  obtain rfl := Option.some.inj (found.symm.trans foundSame)
  exact other (by rw [samePair, Prod.swap_swap])

/-- What an intent is filled by under either of its two keys. -/
def share (intents before : List Intent) (intent : Intent) : Nat :=
  min intent.sellAmount
    (sellTotal intents intent.pair.swap - sellTotal before intent.pair)

theorem leftFilled_keyFills
    (split : intents = before ++ intent :: after) :
    leftFilled before.length (keyFills intents intent.pair) =
      share intents before intent := by
  obtain ⟨later, offers, notBefore, notLater⟩ :=
    offersOf_split before after intent
  rw [← split] at offers
  rw [keyFills, leftFilled_pairOff, volume_offersOf, offers]
  refine (offered_allocate_of_unique ⟨before.length, intent.sellAmount⟩
    notBefore notLater _).trans ?_
  rw [volume_offersOf, share]

theorem rightFilled_keyFills
    (split : intents = before ++ intent :: after) :
    rightFilled before.length (keyFills intents intent.pair.swap) =
      share intents before intent := by
  rw [keyFills, Prod.swap_swap, pairOff_swap, rightFilled_swap]
  exact leftFilled_keyFills split

variable {pairs : List TokenPair}

/-- The keys of the order book, each visited once. -/
structure VisitsBook (intents : List Intent) (pairs : List TokenPair) :
    Prop where
  once : pairs.Nodup
  complete : ∀ pair, pair ∈ pairs ↔ offersOf intents pair ≠ []

theorem visitsBook_of_perm
    (visited :
      pairs.Perm (IntentSolver.ofIntents intents).orderBook.keys) :
    VisitsBook intents pairs where
  once := visited.nodup_iff.mpr (AList.keys_nodup _)
  complete pair :=
    visited.mem_iff.trans
      (IntentSolver.mem_orderBook_ofIntents intents pair)

/-- A sum over distinct elements of which only one contributes. -/
theorem sum_eq_single_of_nodup
    {Element : Type}
    [DecidableEq Element]
    {elements : List Element}
    {amounts : Element → Nat}
    {element : Element}
    (once : elements.Nodup)
    (others : ∀ other, other ≠ element → amounts other = 0)
    (absent : element ∉ elements → amounts element = 0) :
    (elements.map amounts).sum = amounts element := by
  rw [List.sum_map_eq_nsmul_single element amounts
    (fun other different _ => others other different), nsmul_eq_mul]
  by_cases member : element ∈ elements
  · rw [List.count_eq_one_of_mem once member, Nat.cast_one, one_mul]
  · rw [absent member, mul_zero]

/-- A sum over the visits that only one key contributes to. -/
theorem VisitsBook.sum_eq
    (visits : VisitsBook intents pairs)
    {amounts : TokenPair → Nat}
    {key : TokenPair}
    (others : ∀ other, other ≠ key → amounts other = 0)
    (unvisited : offersOf intents key = [] → amounts key = 0) :
    (pairs.map amounts).sum = amounts key := by
  refine sum_eq_single_of_nodup visits.once others ?_
  intro absent
  exact unvisited
    (not_not.mp (fun some => absent ((visits.complete key).mpr some)))

/-- Without intents of a pair there are no fills of its key. -/
theorem keyFills_of_nil
    {key : TokenPair}
    (nothing : offersOf intents key = []) :
    keyFills intents key = [] := by
  rw [keyFills, nothing, nil_pairOff]

theorem leftFilled_batchFills
    (visits : VisitsBook intents pairs)
    (split : intents = before ++ intent :: after) :
    leftFilled before.length (batchFills intents pairs) =
      share intents before intent := by
  have found : intents[before.length]? = some intent := by
    simp [split]
  rw [batchFills, leftFilled_flatMap,
    visits.sum_eq
      (fun other different =>
        leftFilled_keyFills_of_ne found different)
      (fun nothing => by rw [keyFills_of_nil nothing]; rfl),
    leftFilled_keyFills split]

theorem rightFilled_batchFills
    (visits : VisitsBook intents pairs)
    (split : intents = before ++ intent :: after) :
    rightFilled before.length (batchFills intents pairs) =
      share intents before intent := by
  have found : intents[before.length]? = some intent := by
    simp [split]
  rw [batchFills, rightFilled_flatMap,
    visits.sum_eq
      (fun other different =>
        rightFilled_keyFills_of_ne found different)
      (fun nothing => by rw [keyFills_of_nil nothing]; rfl),
    rightFilled_keyFills split]

/-- Both positions of a fill hold intents, of the key and of its reverse. -/
theorem intents_of_mem_keyFills
    {key : TokenPair}
    {fill : Fill Nat Nat}
    (member : fill ∈ keyFills intents key) :
    ∃ seller buyer,
      intents[fill.left]? = some seller ∧
        intents[fill.right]? = some buyer ∧
        seller.pair = key ∧ buyer.pair = key.swap := by
  obtain ⟨leftMember, rightMember⟩ := labels_of_mem_pairOff member
  obtain ⟨seller, foundSeller, sellerPair⟩ := pair_of_label_mem leftMember
  obtain ⟨buyer, foundBuyer, buyerPair⟩ := pair_of_label_mem rightMember
  exact ⟨seller, buyer, foundSeller, foundBuyer, sellerPair, buyerPair⟩

theorem intents_of_mem_batchFills
    {fill : Fill Nat Nat}
    (member : fill ∈ batchFills intents pairs) :
    ∃ seller buyer,
      intents[fill.left]? = some seller ∧
        intents[fill.right]? = some buyer ∧
        buyer.pair = seller.pair.swap := by
  obtain ⟨key, -, keyMember⟩ := List.mem_flatMap.mp member
  obtain ⟨seller, buyer, foundSeller, foundBuyer, rfl, buyerPair⟩ :=
    intents_of_mem_keyFills keyMember
  exact ⟨seller, buyer, foundSeller, foundBuyer, buyerPair⟩

/-- No other pending intent has the identifier of this one. -/
def DistinctId (before : List Intent) (intent : Intent)
    (after : List Intent) : Prop :=
  ∀ other ∈ before ++ after, other.id ≠ intent.id

instance (before : List Intent) (intent : Intent) (after : List Intent) :
    Decidable (DistinctId before intent after) :=
  inferInstanceAs
    (Decidable (∀ other ∈ before ++ after, other.id ≠ intent.id))

/-- A distinct identifier is found at one position only. -/
theorem idAt_eq_iff
    (split : intents = before ++ intent :: after)
    (distinct : DistinctId before intent after)
    {position : Nat}
    {other : Intent}
    (found : intents[position]? = some other) :
    idAt intents position = intent.id ↔ position = before.length := by
  have identifier : idAt intents position = other.id := by
    simp [idAt, found]
  rw [identifier]
  rw [split] at found
  rcases lt_trichotomy position before.length with earlier | rfl | later
  · rw [List.getElem?_append_left earlier] at found
    have member : other ∈ before ++ after :=
      List.mem_append_left after (List.mem_of_getElem? found)
    simp [distinct other member, earlier.ne]
  · rw [List.getElem?_append_right (Nat.le_refl _), Nat.sub_self] at found
    obtain rfl := Option.some.inj found
    simp
  · obtain ⟨steps, rfl⟩ := Nat.exists_eq_add_of_lt later
    rw [List.getElem?_append_right (by omega)] at found
    have past : before.length + steps + 1 - before.length = steps + 1 := by
      omega
    rw [past, List.getElem?_cons_succ] at found
    have member : other ∈ before ++ after :=
      List.mem_append_right before (List.mem_of_getElem? found)
    simp [distinct other member, later.ne']

/-- An intent with a distinct identifier is filled at its own position. -/
theorem filled_eq_touched
    {profile : Profile}
    {solution : BatchSolution}
    (returned :
      (IntentSolver.ofIntents intents).solveBatch profile pairs =
        .ok solution)
    (split : intents = before ++ intent :: after)
    (distinct : DistinctId before intent after) :
    solution.filled intent.id =
      touched before.length (batchFills intents pairs) := by
  rw [BatchSolution.filled, IntentSolver.solveBatch_matches returned,
    List.filter_map, List.map_map, touched]
  have sameFills :
      (batchFills intents pairs).filter
          ((fun pairing : IntentMatch =>
              decide (pairing.intentA = intent.id ∨
                pairing.intentB = intent.id)) ∘ toMatch intents) =
        (batchFills intents pairs).filter
          (fun fill => decide (fill.left = before.length ∨
            fill.right = before.length)) := by
    refine List.filter_congr ?_
    intro fill member
    obtain ⟨seller, buyer, foundSeller, foundBuyer, -⟩ :=
      intents_of_mem_batchFills member
    simp only [Function.comp_apply, toMatch,
      idAt_eq_iff split distinct foundSeller,
      idAt_eq_iff split distinct foundBuyer]
  rw [sameFills]
  rfl

/-- No intent is filled beyond what it sells, and none is paired with itself. -/
def NeverOverfills
    (intents : List Intent)
    (pairs : List TokenPair)
    (solution : BatchSolution) : Prop :=
  (∀ before intent after,
    intents = before ++ intent :: after →
    DistinctId before intent after →
    solution.filled intent.id ≤ intent.sellAmount) ∧
  ∀ fill ∈ batchFills intents pairs, fill.left ≠ fill.right

/--
An intent that sells something sells at least twice what the reverse pair
offers beyond the earlier intents of its own pair.
-/
def TakenAtMostHalf (intents before : List Intent) (intent : Intent) : Prop :=
  intent.sellAmount = 0 ∨
    2 * (sellTotal intents intent.pair.swap -
        sellTotal before intent.pair) ≤
      intent.sellAmount

theorem two_share_le_iff :
    2 * share intents before intent ≤ intent.sellAmount ↔
      TakenAtMostHalf intents before intent := by
  unfold share TakenAtMostHalf
  omega

/-- An intent of two different tokens fills itself in no batch. -/
theorem touched_batchFills
    (visits : VisitsBook intents pairs)
    (split : intents = before ++ intent :: after)
    (tokensDiffer : intent.sellToken ≠ intent.buyToken) :
    touched before.length (batchFills intents pairs) =
      2 * share intents before intent := by
  rw [touched_eq, leftFilled_batchFills visits split,
    rightFilled_batchFills visits split, two_mul]
  rintro fill member ⟨onLeft, onRight⟩
  obtain ⟨seller, buyer, foundSeller, foundBuyer, reversed⟩ :=
    intents_of_mem_batchFills member
  have here : intents[before.length]? = some intent := by
    simp [split]
  rw [onLeft, here] at foundSeller
  rw [onRight, here] at foundBuyer
  obtain rfl := Option.some.inj foundSeller
  obtain rfl := Option.some.inj foundBuyer
  exact tokensDiffer (congrArg Prod.fst reversed)

/-- A fill of an intent with itself is a positive offer of one token for itself. -/
theorem no_selfFill_iff
    (visits : VisitsBook intents pairs) :
    (∀ fill ∈ batchFills intents pairs, fill.left ≠ fill.right) ↔
      ∀ intent ∈ intents,
        intent.sellToken = intent.buyToken → intent.sellAmount = 0 := by
  constructor
  · intro noSelfFill intent member sameToken
    by_contra positive
    obtain ⟨position, found⟩ := List.mem_iff_getElem?.mp member
    have offer :
        (⟨position, intent.sellAmount⟩ : Offer Nat) ∈
          offersOf intents intent.pair :=
      mem_offersOf.mpr ⟨intent, found, rfl, rfl⟩
    have symmetric : intent.pair.swap = intent.pair :=
      Prod.ext sameToken.symm sameToken
    have filled :
        (⟨position, position, intent.sellAmount⟩ : Fill Nat Nat) ∈
          keyFills intents intent.pair := by
      rw [keyFills, symmetric, pairOff_self]
      exact List.mem_map.mpr
        ⟨_, List.mem_filter.mpr ⟨offer, by simpa using positive⟩, rfl⟩
    have visited : intent.pair ∈ pairs :=
      (visits.complete intent.pair).mpr (List.ne_nil_of_mem offer)
    exact noSelfFill _
      (List.mem_flatMap.mpr ⟨intent.pair, visited, filled⟩) rfl
  · intro nothing fill member selfFill
    obtain ⟨seller, buyer, foundSeller, foundBuyer, reversed⟩ :=
      intents_of_mem_batchFills member
    rw [← selfFill, foundSeller] at foundBuyer
    obtain rfl := Option.some.inj foundBuyer
    have sameToken : seller.sellToken = seller.buyToken :=
      congrArg Prod.fst reversed
    obtain ⟨key, -, keyMember⟩ := List.mem_flatMap.mp member
    obtain ⟨leftMember, -⟩ := labels_of_mem_pairOff keyMember
    obtain ⟨same, foundSame, samePair⟩ := pair_of_label_mem leftMember
    obtain rfl := Option.some.inj (foundSeller.symm.trans foundSame)
    have symmetric : key.swap = key := by
      rw [← samePair]
      exact Prod.ext sameToken.symm sameToken
    rw [keyFills, symmetric, pairOff_self] at keyMember
    obtain ⟨offer, offerMember, rfl⟩ := List.mem_map.mp keyMember
    obtain ⟨offerHere, positive⟩ := List.mem_filter.mp offerMember
    obtain ⟨again, foundAgain, -, amount⟩ := mem_offersOf.mp offerHere
    obtain rfl := Option.some.inj (foundSeller.symm.trans foundAgain)
    have zero : offer.amount = 0 :=
      amount ▸ nothing seller (List.mem_of_getElem? foundSeller) sameToken
    simp [zero] at positive

/--
A batch fills no intent beyond what it sells, and pairs none with itself,
exactly when each intent with a distinct identifier and two different tokens is
taken at most half, and no intent sells a token for itself.
-/
theorem solveBatch_never_overfills_iff
    {profile : Profile}
    {solution : BatchSolution}
    (visited :
      pairs.Perm (IntentSolver.ofIntents intents).orderBook.keys)
    (returned :
      (IntentSolver.ofIntents intents).solveBatch profile pairs =
        .ok solution) :
    solution.intentMatches =
        (batchFills intents pairs).map (toMatch intents) ∧
      (NeverOverfills intents pairs solution ↔
        (∀ before intent after,
          intents = before ++ intent :: after →
          DistinctId before intent after →
          intent.sellToken ≠ intent.buyToken →
          TakenAtMostHalf intents before intent) ∧
        ∀ intent ∈ intents,
          intent.sellToken = intent.buyToken → intent.sellAmount = 0) := by
  have visits := visitsBook_of_perm visited
  refine ⟨IntentSolver.solveBatch_matches returned, ?_⟩
  unfold NeverOverfills
  rw [no_selfFill_iff visits, and_congr_left_iff]
  intro noSelfOffer
  constructor
  · intro bounded before intent after split distinct tokensDiffer
    have filled := bounded before intent after split distinct
    rw [filled_eq_touched returned split distinct,
      touched_batchFills visits split tokensDiffer] at filled
    exact two_share_le_iff.mp filled
  · intro half before intent after split distinct
    rw [filled_eq_touched returned split distinct]
    by_cases sameToken : intent.sellToken = intent.buyToken
    · have member : intent ∈ intents := by
        simp [split]
      have nothing := noSelfOffer intent member sameToken
      have noShare : share intents before intent = 0 := by
        rw [share, nothing, Nat.zero_min]
      have bound :=
        touched_le before.length (batchFills intents pairs)
      rw [leftFilled_batchFills visits split,
        rightFilled_batchFills visits split, noShare] at bound
      omega
    · rw [touched_batchFills visits split sameToken]
      exact two_share_le_iff.mpr
        (half before intent after split distinct sameToken)

end Filled

/-- An intent whose tokens and identifier repeat one byte each. -/
def plainIntent
    (id sellToken buyToken : UInt8)
    (sellAmount : Nat) : Intent :=
  ⟨Vector.replicate 32 id, Vector.replicate 32 sellToken,
    Vector.replicate 32 buyToken, sellAmount⟩

/-- Alice sells 100 of A for B, and Bob sells 80 of B for A. -/
def aliceAndBob : List Intent :=
  [plainIntent 1 0xAA 0xBB 100, plainIntent 2 0xBB 0xAA 80]

/-- The keys of an order book in the order in which the book holds them. -/
def bookKeys (intents : List Intent) : List TokenPair :=
  (IntentSolver.ofIntents intents).orderBook.keys

/-- Bob's 80 are matched under both keys, so he is filled by 160. -/
theorem bob_is_filled_twice :
    ∃ solution,
      (IntentSolver.ofIntents aliceAndBob).solveBatch .debug
          (bookKeys aliceAndBob) = .ok solution ∧
        solution.filled (Vector.replicate 32 2) = 160 ∧
        ¬ NeverOverfills aliceAndBob (bookKeys aliceAndBob) solution := by
  refine ⟨⟨[⟨Vector.replicate 32 2, Vector.replicate 32 1, 80⟩,
    ⟨Vector.replicate 32 1, Vector.replicate 32 2, 80⟩], [], 0, 0⟩,
    by decide +kernel, by decide +kernel, ?_⟩
  rintro ⟨bounded, -⟩
  have bob :=
    bounded [plainIntent 1 0xAA 0xBB 100] (plainIntent 2 0xBB 0xAA 80) []
      rfl (by decide +kernel)
  exact absurd bob (by decide +kernel)

/-- Alice sells 100 of A for B, and one identifier sells 25 of B twice. -/
def aliceAndRepeatedBob : List Intent :=
  [plainIntent 1 0xAA 0xBB 100, plainIntent 2 0xBB 0xAA 25,
    plainIntent 2 0xBB 0xAA 25]

/-- What the two of them get: 50 are matched under each key. -/
def aliceAndBobFills : BatchSolution :=
  ⟨[⟨Vector.replicate 32 2, Vector.replicate 32 1, 25⟩,
      ⟨Vector.replicate 32 2, Vector.replicate 32 1, 25⟩,
      ⟨Vector.replicate 32 1, Vector.replicate 32 2, 25⟩,
      ⟨Vector.replicate 32 1, Vector.replicate 32 2, 25⟩],
    [], 0, 0⟩

/-- Alice's 100 are met by 50 under each key. -/
theorem alice_is_filled_within :
    (IntentSolver.ofIntents aliceAndRepeatedBob).solveBatch .debug
          (bookKeys aliceAndRepeatedBob) =
        .ok aliceAndBobFills ∧
      NeverOverfills aliceAndRepeatedBob (bookKeys aliceAndRepeatedBob)
        aliceAndBobFills := by
  have returned :
      (IntentSolver.ofIntents aliceAndRepeatedBob).solveBatch .debug
          (bookKeys aliceAndRepeatedBob) =
        .ok aliceAndBobFills := by
    decide +kernel
  refine ⟨returned, (solveBatch_never_overfills_iff (List.Perm.refl _)
    returned).2.mpr ⟨?_, by decide +kernel⟩⟩
  intro before intent after split distinct _
  rcases before with _ | ⟨first, _ | ⟨second, _ | ⟨third, before⟩⟩⟩
  · obtain ⟨rfl, -⟩ := List.cons.inj split
    exact .inr (by decide +kernel)
  · -- The identifier of the first repeated intent is not distinct.
    obtain ⟨rfl, rest⟩ := List.cons.inj split
    obtain ⟨rfl, rfl⟩ := List.cons.inj rest
    exact absurd distinct (by decide +kernel)
  · obtain ⟨rfl, rest⟩ := List.cons.inj split
    obtain ⟨rfl, last⟩ := List.cons.inj rest
    obtain ⟨rfl, rfl⟩ := List.cons.inj last
    exact absurd distinct (by decide +kernel)
  · simp [aliceAndRepeatedBob] at split

end YieldDaemon
