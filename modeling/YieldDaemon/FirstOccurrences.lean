import Mathlib.Tactic

namespace FirstOccurrences

/-!
# Keeping the first item of every key

A list is scanned once, and an item is kept if no kept item has its key.  The
kept items are then the first occurrences of their keys, in order, and a
relation holds between all of them exactly if it holds between all first
occurrences of the list.
-/

variable {Item Key : Type} (key : Item → Key)

/-- No item of a list has the key of this one. -/
def Fresh (earlier : List Item) (item : Item) : Prop :=
  ∀ other ∈ earlier, key other ≠ key item

/-- The item is the first of its key at some position of a list. -/
def IsFirst (items : List Item) (item : Item) : Prop :=
  ∃ before after, items = before ++ item :: after ∧ Fresh key before item

/-- Two items are the first ones of their keys, at two positions of a list. -/
def AreFirst (items : List Item) (first second : Item) : Prop :=
  ∃ before between after,
    items = before ++ first :: (between ++ second :: after) ∧
      Fresh key before first ∧
      Fresh key (before ++ first :: between) second

variable {key} {items : List Item} {item first second last : Item}

/-- A first item of a longer list is one of the list or the last item. -/
theorem isFirst_concat :
    IsFirst key (items ++ [last]) item ↔
      IsFirst key items item ∨ item = last ∧ Fresh key items last := by
  constructor
  · rintro ⟨before, after, shape, fresh⟩
    rcases List.eq_nil_or_concat after with rfl | ⟨rest, other, rfl⟩
    · obtain ⟨rfl, same⟩ := List.append_inj' shape rfl
      obtain rfl := List.singleton_inj.mp same
      exact .inr ⟨rfl, fresh⟩
    · rw [List.concat_eq_append, ← List.cons_append, ← List.append_assoc]
        at shape
      obtain ⟨rfl, -⟩ := List.append_inj' shape rfl
      exact .inl ⟨before, rest, rfl, fresh⟩
  · rintro (⟨before, after, rfl, fresh⟩ | ⟨rfl, fresh⟩)
    · exact ⟨before, after ++ [last], by simp, fresh⟩
    · exact ⟨items, [], rfl, fresh⟩

/-- Two first items of a longer list, likewise. -/
theorem areFirst_concat :
    AreFirst key (items ++ [last]) first second ↔
      AreFirst key items first second ∨
        IsFirst key items first ∧ second = last ∧ Fresh key items last := by
  constructor
  · rintro ⟨before, between, after, shape, firstFresh, secondFresh⟩
    rcases List.eq_nil_or_concat after with rfl | ⟨rest, other, rfl⟩
    · rw [← List.cons_append, ← List.append_assoc] at shape
      obtain ⟨rfl, same⟩ := List.append_inj' shape rfl
      obtain rfl := List.singleton_inj.mp same
      exact .inr ⟨⟨before, between, rfl, firstFresh⟩, rfl, secondFresh⟩
    · rw [List.concat_eq_append, ← List.cons_append, ← List.append_assoc,
        ← List.cons_append, ← List.append_assoc] at shape
      obtain ⟨rfl, -⟩ := List.append_inj' shape rfl
      exact .inl ⟨before, between, rest, by simp, firstFresh, secondFresh⟩
  · rintro (⟨before, between, after, rfl, firstFresh, secondFresh⟩ |
      ⟨⟨before, between, rfl, firstFresh⟩, rfl, secondFresh⟩)
    · exact ⟨before, between, after ++ [last], by simp, firstFresh,
        secondFresh⟩
    · exact ⟨before, between, [], by simp, firstFresh, secondFresh⟩

section Scans

variable [DecidableEq Key]

/-- Keep an item unless a kept one has its key. -/
def keepFirst (key : Item → Key) (kept : List Item) (item : Item) : List Item :=
  if kept.any (fun other => key other = key item) then
    kept
  else
    kept ++ [item]

/-- The items that a scan keeps. -/
def firsts (key : Item → Key) (items : List Item) : List Item :=
  items.foldl (keepFirst key) []

theorem firsts_concat (key : Item → Key) (items : List Item) (last : Item) :
    firsts key (items ++ [last]) = keepFirst key (firsts key items) last := by
  rw [firsts, List.foldl_append]
  rfl

/-- A key is kept exactly if some item has it. -/
theorem key_mem_firsts (wanted : Key) :
    (∃ kept ∈ firsts key items, key kept = wanted) ↔
      ∃ item ∈ items, key item = wanted := by
  induction items using List.reverseRecOn with
  | nil =>
      simp [firsts]
  | append_singleton items last inductionHypothesis =>
      rw [firsts_concat, keepFirst]
      split
      · next known =>
          simp only [List.any_eq_true, decide_eq_true_eq] at known
          rw [inductionHypothesis]
          constructor
          · rintro ⟨item, member, has⟩
            exact ⟨item, List.mem_append_left _ member, has⟩
          · rintro ⟨item, member, has⟩
            rcases List.mem_append.mp member with earlier | isLast
            · exact ⟨item, earlier, has⟩
            · obtain rfl := List.mem_singleton.mp isLast
              obtain ⟨kept, isKept, same⟩ := known
              exact inductionHypothesis.mp ⟨kept, isKept, same.trans has⟩
      · simp only [List.mem_append, or_and_right, exists_or,
          inductionHypothesis]

/-- An item is dropped if an earlier one has its key. -/
theorem firsts_concat_of_known (known : ¬ Fresh key items last) :
    firsts key (items ++ [last]) = firsts key items := by
  have isKept : ∃ kept ∈ firsts key items, key kept = key last := by
    rw [key_mem_firsts]
    simpa [Fresh] using known
  rw [firsts_concat]
  exact if_pos (by simpa using isKept)

/-- A fresh item is kept. -/
theorem firsts_concat_of_fresh (fresh : Fresh key items last) :
    firsts key (items ++ [last]) = firsts key items ++ [last] := by
  have notKept : ¬ ∃ kept ∈ firsts key items, key kept = key last := by
    rw [key_mem_firsts]
    simpa [Fresh] using fresh
  rw [firsts_concat]
  exact if_neg (by simpa using notKept)

/-- The first items of their keys are kept, and no others. -/
theorem mem_firsts : item ∈ firsts key items ↔ IsFirst key items item := by
  induction items using List.reverseRecOn with
  | nil =>
      simp [firsts, IsFirst]
  | append_singleton items last inductionHypothesis =>
      rw [isFirst_concat, ← inductionHypothesis]
      by_cases fresh : Fresh key items last
      · rw [firsts_concat_of_fresh fresh, List.mem_append,
          List.mem_singleton, and_iff_left fresh]
      · rw [firsts_concat_of_known fresh, or_iff_left (fun both =>
          fresh both.2)]

/-- Every kept item is an item of the list. -/
theorem mem_of_mem_firsts (kept : item ∈ firsts key items) : item ∈ items := by
  obtain ⟨before, after, rfl, -⟩ := mem_firsts.mp kept
  exact List.mem_append_right before List.mem_cons_self

/-- All pairs of kept items are related exactly if all first items are. -/
theorem pairwise_firsts (related : Item → Item → Prop) :
    (firsts key items).Pairwise related ↔
      ∀ first second, AreFirst key items first second → related first second := by
  induction items using List.reverseRecOn with
  | nil =>
      simp [firsts, AreFirst]
  | append_singleton items last inductionHypothesis =>
      simp only [areFirst_concat]
      by_cases fresh : Fresh key items last
      · rw [firsts_concat_of_fresh fresh, List.pairwise_append,
          inductionHypothesis]
        constructor
        · rintro ⟨earlier, -, withLast⟩ first second
            (among | ⟨isFirst, rfl, -⟩)
          · exact earlier first second among
          · exact withLast first (mem_firsts.mpr isFirst) second
              List.mem_cons_self
        · intro all
          refine ⟨fun first second among => all first second (.inl among),
            List.pairwise_singleton _ _, ?_⟩
          intro first member second isLast
          obtain rfl := List.mem_singleton.mp isLast
          exact all first second (.inr ⟨mem_firsts.mp member, rfl, fresh⟩)
      · rw [firsts_concat_of_known fresh, inductionHypothesis]
        constructor
        · rintro earlier first second (among | ⟨-, -, isFresh⟩)
          · exact earlier first second among
          · exact absurd isFresh fresh
        · exact fun all first second among => all first second (.inl among)

end Scans

end FirstOccurrences
