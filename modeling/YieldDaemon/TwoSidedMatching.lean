import Mathlib.Tactic

namespace TwoSidedMatching

/-!
# Greedy matching of two lists of offers

Two lists of offers are paired off in order: the first offers of both sides
fill each other by the smaller of their amounts, and an exhausted offer is
dropped.  Laid end to end, the offers of a side cover an interval that starts
at zero, and an offer is filled by as much of its part as the other side
covers.
-/

variable {Left Right Label : Type}

/-- What is left of an offer. -/
structure Offer (Label : Type) where
  label : Label
  amount : Nat

/-- An amount that two offers fill each other by. -/
structure Fill (Left Right : Type) where
  left : Left
  right : Right
  amount : Nat

/-- The total amount of a list of offers. -/
def volume (offers : List (Offer Label)) : Nat :=
  (offers.map Offer.amount).sum

@[simp] theorem volume_nil : volume ([] : List (Offer Label)) = 0 :=
  rfl

@[simp] theorem volume_cons
    (offer : Offer Label)
    (offers : List (Offer Label)) :
    volume (offer :: offers) = offer.amount + volume offers := by
  simp [volume]

@[simp] theorem volume_append (first second : List (Offer Label)) :
    volume (first ++ second) = volume first + volume second := by
  simp [volume]

/-- Reduce an offer by an amount that it was filled by. -/
def Offer.fillBy (offer : Offer Label) (amount : Nat) : Offer Label :=
  { offer with amount := offer.amount - amount }

/-- Pair off two lists of offers, first against first. -/
def pairOff : List (Offer Left) → List (Offer Right) →
    List (Fill Left Right)
  | left :: lefts, right :: rights =>
    if left.amount = 0 then
      pairOff lefts (right :: rights)
    else if right.amount = 0 then
      pairOff (left :: lefts) rights
    else
      let matched := min left.amount right.amount
      ⟨left.label, right.label, matched⟩ ::
        pairOff (left.fillBy matched :: lefts)
          (right.fillBy matched :: rights)
  | [], _ => []
  | _ :: _, [] => []
termination_by lefts rights =>
  lefts.length + rights.length + volume lefts + volume rights
decreasing_by
  all_goals
    simp only [List.length_cons, volume_cons, Offer.fillBy]
    omega

@[simp] theorem pairOff_nil (offers : List (Offer Left)) :
    pairOff offers ([] : List (Offer Right)) = [] := by
  cases offers <;> simp [pairOff]

@[simp] theorem nil_pairOff (offers : List (Offer Right)) :
    pairOff ([] : List (Offer Left)) offers = [] := by
  simp [pairOff]

/-- An exhausted offer at the head of the left side is dropped. -/
theorem pairOff_of_left_exhausted
    {left : Offer Left}
    (exhausted : left.amount = 0)
    (lefts : List (Offer Left))
    (rights : List (Offer Right)) :
    pairOff (left :: lefts) rights = pairOff lefts rights := by
  cases rights with
  | nil =>
      simp
  | cons right rights =>
      rw [pairOff, if_pos exhausted]

/-- An exhausted offer at the head of the right side is dropped. -/
theorem pairOff_of_right_exhausted
    {right : Offer Right}
    (exhausted : right.amount = 0)
    (lefts : List (Offer Left))
    (rights : List (Offer Right)) :
    pairOff lefts (right :: rights) = pairOff lefts rights := by
  induction lefts with
  | nil =>
      simp
  | cons left lefts inductionHypothesis =>
      by_cases leftExhausted : left.amount = 0
      · rw [pairOff_of_left_exhausted leftExhausted, inductionHypothesis,
          pairOff_of_left_exhausted leftExhausted]
      · rw [pairOff, if_neg leftExhausted, if_pos exhausted]

/-- Two offers with something left fill each other by the smaller amount. -/
theorem pairOff_of_remaining
    {left : Offer Left}
    {right : Offer Right}
    (leftRemains : left.amount ≠ 0)
    (rightRemains : right.amount ≠ 0)
    (lefts : List (Offer Left))
    (rights : List (Offer Right)) :
    pairOff (left :: lefts) (right :: rights) =
      ⟨left.label, right.label, min left.amount right.amount⟩ ::
        pairOff (left.fillBy (min left.amount right.amount) :: lefts)
          (right.fillBy (min left.amount right.amount) :: rights) := by
  rw [pairOff, if_neg leftRemains, if_neg rightRemains]

/-- The two sides of a fill exchanged. -/
def Fill.swap (fill : Fill Left Right) : Fill Right Left :=
  ⟨fill.right, fill.left, fill.amount⟩

/-- Pairing off does not distinguish its two sides. -/
theorem pairOff_swap
    (lefts : List (Offer Left))
    (rights : List (Offer Right)) :
    pairOff rights lefts = (pairOff lefts rights).map Fill.swap := by
  induction lefts, rights using pairOff.induct with
  | case1 left lefts right rights exhausted inductionHypothesis =>
      rw [pairOff_of_right_exhausted exhausted,
        pairOff_of_left_exhausted exhausted, inductionHypothesis]
  | case2 left lefts right rights remains exhausted inductionHypothesis =>
      rw [pairOff_of_left_exhausted exhausted,
        pairOff_of_right_exhausted exhausted, inductionHypothesis]
  | case3 left lefts right rights leftRemains rightRemains matched
      inductionHypothesis =>
      rw [pairOff_of_remaining rightRemains leftRemains,
        pairOff_of_remaining leftRemains rightRemains,
        min_comm right.amount left.amount, List.map_cons,
        ← inductionHypothesis]
      rfl
  | case4 rights =>
      simp
  | case5 left lefts =>
      simp

/-- A list paired off with itself fills every offer by its own copy. -/
theorem pairOff_self (offers : List (Offer Label)) :
    pairOff offers offers =
      (offers.filter (fun offer => offer.amount ≠ 0)).map
        (fun offer => ⟨offer.label, offer.label, offer.amount⟩) := by
  induction offers with
  | nil =>
      simp
  | cons offer offers inductionHypothesis =>
      by_cases exhausted : offer.amount = 0
      · rw [pairOff_of_left_exhausted exhausted,
          pairOff_of_right_exhausted exhausted, inductionHypothesis]
        simp [exhausted]
      · have filled :
            (offer.fillBy offer.amount).amount = 0 :=
          Nat.sub_self offer.amount
        rw [pairOff_of_remaining exhausted exhausted, min_self,
          pairOff_of_left_exhausted filled,
          pairOff_of_right_exhausted filled, inductionHypothesis]
        simp [exhausted]

/-- The two sides of a fill stand in the lists that were paired off. -/
theorem labels_of_mem_pairOff
    {lefts : List (Offer Left)}
    {rights : List (Offer Right)}
    {fill : Fill Left Right}
    (member : fill ∈ pairOff lefts rights) :
    fill.left ∈ lefts.map Offer.label ∧
      fill.right ∈ rights.map Offer.label := by
  induction lefts, rights using pairOff.induct with
  | case1 left lefts right rights exhausted inductionHypothesis =>
      rw [pairOff_of_left_exhausted exhausted] at member
      obtain ⟨leftMember, rightMember⟩ := inductionHypothesis member
      exact ⟨List.mem_cons_of_mem _ leftMember, rightMember⟩
  | case2 left lefts right rights remains exhausted inductionHypothesis =>
      rw [pairOff_of_right_exhausted exhausted] at member
      obtain ⟨leftMember, rightMember⟩ := inductionHypothesis member
      exact ⟨leftMember, List.mem_cons_of_mem _ rightMember⟩
  | case3 left lefts right rights leftRemains rightRemains matched
      inductionHypothesis =>
      rw [pairOff_of_remaining leftRemains rightRemains] at member
      rcases List.mem_cons.mp member with rfl | later
      · exact ⟨List.mem_cons_self, List.mem_cons_self⟩
      · exact inductionHypothesis later
  | case4 rights =>
      simp at member
  | case5 left lefts =>
      simp at member

/-- The total amount of a list of fills. -/
def fillTotal (fills : List (Fill Left Right)) : Nat :=
  (fills.map Fill.amount).sum

/-- Pairing off goes on until the smaller side is exhausted. -/
theorem fillTotal_pairOff
    (lefts : List (Offer Left))
    (rights : List (Offer Right)) :
    fillTotal (pairOff lefts rights) = min (volume lefts) (volume rights) := by
  induction lefts, rights using pairOff.induct with
  | case1 left lefts right rights exhausted inductionHypothesis =>
      rw [pairOff_of_left_exhausted exhausted, inductionHypothesis,
        volume_cons left, exhausted, Nat.zero_add]
  | case2 left lefts right rights remains exhausted inductionHypothesis =>
      rw [pairOff_of_right_exhausted exhausted, inductionHypothesis,
        volume_cons right, exhausted, Nat.zero_add]
  | case3 left lefts right rights leftRemains rightRemains matched
      inductionHypothesis =>
      -- Both volumes are reduced by what was matched.
      have partOfLeft : matched ≤ left.amount := min_le_left _ _
      have partOfRight : matched ≤ right.amount := min_le_right _ _
      rw [fillTotal, pairOff_of_remaining leftRemains rightRemains,
        List.map_cons, List.sum_cons, ← fillTotal, inductionHypothesis]
      simp only [volume_cons, Offer.fillBy]
      omega
  | case4 rights =>
      simp [fillTotal]
  | case5 left lefts =>
      simp [fillTotal]

/-- Serve a list of offers in order out of a capacity. -/
def allocate : List (Offer Label) → Nat → List (Offer Label)
  | [], _ => []
  | offer :: offers, capacity =>
    { offer with amount := min offer.amount capacity } ::
      allocate offers (capacity - offer.amount)

@[simp] theorem allocate_append
    (first second : List (Offer Label))
    (capacity : Nat) :
    allocate (first ++ second) capacity =
      allocate first capacity ++
        allocate second (capacity - volume first) := by
  induction first generalizing capacity with
  | nil =>
      simp [allocate]
  | cons offer offers inductionHypothesis =>
      simp [allocate, inductionHypothesis, Nat.sub_sub]

section Totals

variable [DecidableEq Label]

/-- The total amount that offers with a label ask for. -/
def offered (label : Label) (offers : List (Offer Label)) : Nat :=
  ((offers.filter (fun offer => offer.label = label)).map
    Offer.amount).sum

theorem offered_cons
    (label : Label)
    (offer : Offer Label)
    (offers : List (Offer Label)) :
    offered label (offer :: offers) =
      (if offer.label = label then offer.amount else 0) +
        offered label offers := by
  by_cases same : offer.label = label <;> simp [offered, same]

/-- Offers that do not carry a label ask for nothing under it. -/
theorem offered_allocate_of_not_mem
    {label : Label}
    {offers : List (Offer Label)}
    (absent : label ∉ offers.map Offer.label)
    (capacity : Nat) :
    offered label (allocate offers capacity) = 0 := by
  induction offers generalizing capacity with
  | nil =>
      rfl
  | cons offer offers inductionHypothesis =>
      rw [List.map_cons, List.mem_cons, not_or] at absent
      rw [allocate, offered_cons, if_neg (Ne.symm absent.1),
        inductionHypothesis absent.2]

/-- Nothing is served out of an empty capacity. -/
theorem offered_allocate_zero
    (label : Label)
    (offers : List (Offer Label)) :
    offered label (allocate offers 0) = 0 := by
  induction offers with
  | nil =>
      rfl
  | cons offer offers inductionHypothesis =>
      simp [allocate, offered_cons, inductionHypothesis]

/-- The only offer of its label is served after those that come before it. -/
theorem offered_allocate_of_unique
    {before after : List (Offer Label)}
    (offer : Offer Label)
    (notBefore : offer.label ∉ before.map Offer.label)
    (notAfter : offer.label ∉ after.map Offer.label)
    (capacity : Nat) :
    offered offer.label (allocate (before ++ offer :: after) capacity) =
      min offer.amount (capacity - volume before) := by
  have nothingBefore := offered_allocate_of_not_mem notBefore capacity
  have nothingAfter :=
    offered_allocate_of_not_mem notAfter
      (capacity - volume before - offer.amount)
  rw [allocate_append, allocate]
  simp only [offered, List.filter_append, List.map_append,
    List.sum_append] at nothingBefore nothingAfter ⊢
  simp [nothingBefore, nothingAfter]

/-- An offer that was filled by a part is served the rest of its share. -/
theorem offered_allocate_fillBy
    (label : Label)
    (offer : Offer Label)
    (offers : List (Offer Label))
    {matched capacity : Nat}
    (partOfOffer : matched ≤ offer.amount)
    (partOfCapacity : matched ≤ capacity) :
    offered label (allocate (offer :: offers) capacity) =
      (if offer.label = label then matched else 0) +
        offered label
          (allocate (offer.fillBy matched :: offers)
            (capacity - matched)) := by
  have rest :
      capacity - matched - (offer.amount - matched) =
        capacity - offer.amount := by
    omega
  have share :
      min offer.amount capacity =
        matched + min (offer.amount - matched) (capacity - matched) := by
    omega
  simp only [allocate, offered_cons, Offer.fillBy, rest, share]
  split_ifs <;> omega

/-- The total amount by which offers with a label are filled on the left. -/
def leftFilled (label : Label) (fills : List (Fill Label Right)) : Nat :=
  ((fills.filter (fun fill => fill.left = label)).map Fill.amount).sum

/-- The total amount by which offers with a label are filled on the right. -/
def rightFilled (label : Label) (fills : List (Fill Left Label)) : Nat :=
  ((fills.filter (fun fill => fill.right = label)).map Fill.amount).sum

theorem leftFilled_cons
    (label : Label)
    (fill : Fill Label Right)
    (fills : List (Fill Label Right)) :
    leftFilled label (fill :: fills) =
      (if fill.left = label then fill.amount else 0) +
        leftFilled label fills := by
  by_cases same : fill.left = label <;> simp [leftFilled, same]

theorem rightFilled_cons
    (label : Label)
    (fill : Fill Left Label)
    (fills : List (Fill Left Label)) :
    rightFilled label (fill :: fills) =
      (if fill.right = label then fill.amount else 0) +
        rightFilled label fills := by
  by_cases same : fill.right = label <;> simp [rightFilled, same]

/-- An offer is filled on the left once it stands in a positive fill. -/
theorem leftFilled_pos_iff
    {label : Label}
    {fills : List (Fill Label Right)} :
    0 < leftFilled label fills ↔
      ∃ fill ∈ fills, fill.left = label ∧ 0 < fill.amount := by
  induction fills with
  | nil =>
      simp [leftFilled]
  | cons fill fills inductionHypothesis =>
      rw [leftFilled_cons, Nat.add_pos_iff_pos_or_pos, inductionHypothesis,
        List.exists_mem_cons_iff]
      by_cases same : fill.left = label <;> simp [same]

theorem rightFilled_swap
    (label : Label)
    (fills : List (Fill Label Right)) :
    rightFilled label (fills.map Fill.swap) = leftFilled label fills := by
  simp only [rightFilled, leftFilled, List.filter_map, List.map_map]
  rfl

theorem leftFilled_swap
    (label : Label)
    (fills : List (Fill Left Label)) :
    leftFilled label (fills.map Fill.swap) = rightFilled label fills := by
  simp only [rightFilled, leftFilled, List.filter_map, List.map_map]
  rfl

/-- An offer is filled on the right once it stands in a positive fill. -/
theorem rightFilled_pos_iff
    {label : Label}
    {fills : List (Fill Left Label)} :
    0 < rightFilled label fills ↔
      ∃ fill ∈ fills, fill.right = label ∧ 0 < fill.amount := by
  rw [← leftFilled_swap, leftFilled_pos_iff]
  simp [Fill.swap]

/-- The left offers are served in order out of what the right side offers. -/
theorem leftFilled_pairOff
    (label : Label)
    (lefts : List (Offer Label))
    (rights : List (Offer Right)) :
    leftFilled label (pairOff lefts rights) =
      offered label (allocate lefts (volume rights)) := by
  induction lefts, rights using pairOff.induct with
  | case1 left lefts right rights exhausted inductionHypothesis =>
      rw [pairOff_of_left_exhausted exhausted, inductionHypothesis]
      simp [allocate, offered_cons, exhausted]
  | case2 left lefts right rights remains exhausted inductionHypothesis =>
      rw [pairOff_of_right_exhausted exhausted, inductionHypothesis,
        volume_cons, exhausted, Nat.zero_add]
  | case3 left lefts right rights leftRemains rightRemains matched
      inductionHypothesis =>
      have partOfCapacity : matched ≤ volume (right :: rights) := by
        rw [volume_cons]
        exact (min_le_right _ _).trans (Nat.le_add_right _ _)
      have reduced :
          volume (right.fillBy matched :: rights) =
            volume (right :: rights) - matched := by
        have partOfRight : matched ≤ right.amount := min_le_right _ _
        simp only [volume_cons, Offer.fillBy]
        omega
      rw [pairOff_of_remaining leftRemains rightRemains, leftFilled_cons,
        inductionHypothesis, reduced]
      exact (offered_allocate_fillBy label left lefts (min_le_left _ _)
        partOfCapacity).symm
  | case4 rights =>
      simp [leftFilled, offered, allocate]
  | case5 left lefts =>
      rw [pairOff_nil, volume_nil, offered_allocate_zero]
      rfl

/-- The right offers are served in order out of what the left side offers. -/
theorem rightFilled_pairOff
    (label : Label)
    (lefts : List (Offer Left))
    (rights : List (Offer Label)) :
    rightFilled label (pairOff lefts rights) =
      offered label (allocate rights (volume lefts)) := by
  rw [pairOff_swap rights lefts, rightFilled_swap, leftFilled_pairOff]

/-- Fills from several sources add up on the left. -/
theorem leftFilled_flatMap
    {Source : Type}
    (label : Label)
    (fills : Source → List (Fill Label Right))
    (sources : List Source) :
    leftFilled label (sources.flatMap fills) =
      (sources.map (fun source => leftFilled label (fills source))).sum := by
  induction sources with
  | nil =>
      rfl
  | cons source sources inductionHypothesis =>
      simp only [leftFilled] at inductionHypothesis ⊢
      simp [inductionHypothesis]

/-- Fills from several sources add up on the right. -/
theorem rightFilled_flatMap
    {Source : Type}
    (label : Label)
    (fills : Source → List (Fill Left Label))
    (sources : List Source) :
    rightFilled label (sources.flatMap fills) =
      (sources.map (fun source => rightFilled label (fills source))).sum := by
  induction sources with
  | nil =>
      rfl
  | cons source sources inductionHypothesis =>
      simp only [rightFilled] at inductionHypothesis ⊢
      simp [inductionHypothesis]

/-- The total amount of the fills that a label stands on either side of. -/
def touched (label : Label) (fills : List (Fill Label Label)) : Nat :=
  ((fills.filter
    (fun fill => fill.left = label ∨ fill.right = label)).map
      Fill.amount).sum

theorem touched_cons
    (label : Label)
    (fill : Fill Label Label)
    (fills : List (Fill Label Label)) :
    touched label (fill :: fills) =
      (if fill.left = label ∨ fill.right = label then fill.amount else 0) +
        touched label fills := by
  simp only [touched, List.filter_cons, decide_eq_true_eq]
  split_ifs <;> simp

/-- A label that never fills itself is touched once on each side. -/
theorem touched_eq
    {label : Label}
    {fills : List (Fill Label Label)}
    (noSelfFill :
      ∀ fill ∈ fills, ¬ (fill.left = label ∧ fill.right = label)) :
    touched label fills =
      leftFilled label fills + rightFilled label fills := by
  induction fills with
  | nil =>
      rfl
  | cons fill fills inductionHypothesis =>
      have rest := inductionHypothesis
        (fun other member => noSelfFill other (List.mem_cons_of_mem _ member))
      have first := noSelfFill fill List.mem_cons_self
      rw [touched_cons, leftFilled_cons, rightFilled_cons, rest]
      by_cases onLeft : fill.left = label
      · have notRight : ¬ fill.right = label := fun onRight =>
          first ⟨onLeft, onRight⟩
        rw [if_pos (.inl onLeft), if_pos onLeft, if_neg notRight]
        omega
      · by_cases onRight : fill.right = label
        · rw [if_pos (.inr onRight), if_neg onLeft, if_pos onRight]
          omega
        · rw [if_neg (not_or.mpr ⟨onLeft, onRight⟩), if_neg onLeft,
            if_neg onRight]
          omega

/-- A label is touched by no more than it is filled on both sides. -/
theorem touched_le
    (label : Label)
    (fills : List (Fill Label Label)) :
    touched label fills ≤
      leftFilled label fills + rightFilled label fills := by
  induction fills with
  | nil =>
      exact Nat.le_refl 0
  | cons fill fills inductionHypothesis =>
      rw [touched_cons, leftFilled_cons, rightFilled_cons]
      rcases Decidable.em (fill.left = label) with onLeft | notLeft
      · rw [if_pos (.inl onLeft), if_pos onLeft]
        omega
      · rcases Decidable.em (fill.right = label) with onRight | notRight
        · rw [if_pos (.inr onRight), if_pos onRight]
          omega
        · rw [if_neg (not_or.mpr ⟨notLeft, notRight⟩)]
          omega

end Totals

end TwoSidedMatching
