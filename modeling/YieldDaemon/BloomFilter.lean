import Mathlib.Data.Set.Lattice

namespace BloomFilter

/-!
# Filters without false negatives

An item has some positions.  Adding it marks all of them, and a filter may
contain it when all of them are marked.  Marks are never taken back, so a filter
may contain all items that were added, and whatever it may contain it may
contain later.
-/

variable
  {Item Position : Type}
  (positions : Item → List Position)

/-- Mark the positions of an item. -/
def add (marked : Set Position) (item : Item) : Set Position :=
  marked ∪ {position | position ∈ positions item}

/-- All positions of an item are marked. -/
def MayContain (marked : Set Position) (item : Item) : Prop :=
  ∀ position ∈ positions item, position ∈ marked

variable
  {positions : Item → List Position}
  {marked more : Set Position}
  {item : Item}
  {items : List Item}

/-- The positions of an item may be marked one after the other. -/
theorem foldl_mark (marked : Set Position) (item : Item) :
    (positions item).foldl (fun marked position => marked ∪ {position})
        marked =
      add positions marked item := by
  rw [add]
  induction positions item generalizing marked with
  | nil =>
      ext position
      simp
  | cons first rest inductionHypothesis =>
      ext position
      rw [List.foldl_cons, inductionHypothesis, Set.union_assoc]
      simp only [Set.mem_union, Set.mem_singleton_iff, Set.mem_ofPred_eq,
        List.mem_cons]

/-- With more marks a filter may contain more. -/
theorem MayContain.mono
    (contains : MayContain positions marked item)
    (subset : marked ⊆ more) :
    MayContain positions more item :=
  fun position member => subset (contains position member)

theorem subset_add : marked ⊆ add positions marked item :=
  Set.subset_union_left

/-- A filter may contain an item that is added. -/
theorem mayContain_add : MayContain positions (add positions marked item) item :=
  fun _ member => Set.mem_union_right marked member

/-- No mark is lost when items are added. -/
theorem subset_foldl_add : marked ⊆ items.foldl (add positions) marked := by
  induction items generalizing marked with
  | nil =>
      exact subset_rfl
  | cons first items inductionHypothesis =>
      exact subset_add.trans inductionHypothesis

/-- A filter may contain every item that was added at some point. -/
theorem mayContain_foldl_add
    (member : item ∈ items) :
    MayContain positions (items.foldl (add positions) marked) item := by
  induction items generalizing marked with
  | nil =>
      exact absurd member List.not_mem_nil
  | cons first items inductionHypothesis =>
      rcases List.mem_cons.mp member with rfl | later
      · exact mayContain_add.mono subset_foldl_add
      · exact inductionHypothesis later

end BloomFilter
