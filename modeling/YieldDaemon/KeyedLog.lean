import Mathlib.Data.List.Nodup

namespace KeyedLog

/-!
# The latest entry of a key

A log of entries with keys, where a later entry replaces an earlier one of the
same key.  An entry that no later one replaces is the latest of its key; an
entry that is replaced stands before the latest of its key.
-/

variable
  {Entry Key : Type}
  (key : Entry → Key)

/-- The keys of the entries, each as often as its entry is indexed. -/
def listed (times : Entry → Nat) (log : List Entry) : List Key :=
  log.flatMap (fun entry => List.replicate (times entry) (key entry))

variable
  {key}
  {times : Entry → Nat}
  {relevant : Entry → Prop}
  {log : List Entry}
  {entry later last : Entry}
  {id : Key}

theorem mem_listed :
    id ∈ listed key times log ↔
      ∃ entry ∈ log, 0 < times entry ∧ key entry = id := by
  simp only [listed, List.mem_flatMap, List.mem_replicate, ne_eq,
    Nat.pos_iff_ne_zero, eq_comm]

/-- A key is listed once when each of its entries but one is not indexed. -/
theorem listed_nodup_iff :
    (listed key times log).Nodup ↔
      (∀ entry ∈ log, times entry ≤ 1) ∧
        log.Pairwise
          (fun entry later =>
            0 < times entry → 0 < times later → key later ≠ key entry) := by
  rw [listed, List.nodup_flatMap]
  simp only [List.nodup_replicate]
  apply and_congr_right
  intro _
  apply List.Pairwise.iff
  intro entry later
  simp only [Function.onFun, List.disjoint_left, List.mem_replicate,
    Nat.pos_iff_ne_zero]
  constructor
  · intro disjoint indexed indexedLater same
    exact disjoint ⟨indexed, rfl⟩ ⟨indexedLater, same.symm⟩
  · rintro apart value ⟨indexed, rfl⟩ ⟨indexedLater, same⟩
    exact apart indexed indexedLater same.symm

variable [DecidableEq Key]

/-- The last entry of the log with the given key. -/
def latest (key : Entry → Key) : List Entry → Key → Option Entry
  | [], _ => none
  | entry :: later, id =>
      (latest key later id).or (if key entry = id then some entry else none)

theorem latest_cons :
    latest key (entry :: log) id =
      (latest key log id).or (if key entry = id then some entry else none) :=
  rfl

/-- The next entry becomes the latest of its key. -/
theorem latest_concat :
    latest key (log ++ [entry]) id =
      if key entry = id then some entry else latest key log id := by
  induction log with
  | nil =>
      rfl
  | cons first rest inductionHypothesis =>
      rw [List.cons_append, latest_cons, inductionHypothesis, latest_cons]
      split
      · rfl
      · rfl

theorem latest_mem (isLatest : latest key log id = some last) :
    last ∈ log ∧ key last = id := by
  induction log with
  | nil =>
      exact absurd isLatest nofun
  | cons first rest inductionHypothesis =>
      rw [latest_cons, Option.or_eq_some_iff] at isLatest
      rcases isLatest with inRest | ⟨-, isFirst⟩
      · obtain ⟨member, same⟩ := inductionHypothesis inRest
        exact ⟨List.mem_cons_of_mem first member, same⟩
      · rw [Option.ite_none_right_eq_some] at isFirst
        obtain ⟨same, isLast⟩ := isFirst
        obtain rfl := Option.some.inj isLast
        exact ⟨List.mem_cons_self, same⟩

/-- An entry that is not the latest of its key is replaced. -/
theorem latest_of_mem (key : Entry → Key) (member : entry ∈ log) :
    latest key log (key entry) = some entry ∨
      ∃ last,
        latest key log (key entry) = some last ∧
          List.Sublist [entry, last] log := by
  induction log with
  | nil =>
      exact absurd member List.not_mem_nil
  | cons first rest inductionHypothesis =>
      rw [latest_cons]
      rcases List.mem_cons.mp member with rfl | inRest
      · rw [if_pos rfl]
        cases found : latest key rest (key entry) with
        | none =>
            exact .inl rfl
        | some last =>
            exact .inr ⟨last, rfl,
              (List.singleton_sublist.mpr
                (latest_mem found).1).cons_cons entry⟩
      · rcases inductionHypothesis inRest with isLatest | ⟨last, found, before⟩
        · rw [isLatest]
          exact .inl rfl
        · rw [found]
          exact .inr ⟨last, rfl, before.cons first⟩

/-- A key with an entry has a latest one. -/
theorem exists_latest (key : Entry → Key) (member : entry ∈ log) :
    ∃ last, latest key log (key entry) = some last := by
  rcases latest_of_mem key member with isLatest | ⟨last, found, -⟩
  · exact ⟨entry, isLatest⟩
  · exact ⟨last, found⟩

/-- A replaced entry stands before the latest of its key. -/
theorem latest_of_replaced
    (replaced : List.Sublist [entry, later] log)
    (same : key later = key entry) :
    ∃ last,
      latest key log (key entry) = some last ∧
        List.Sublist [entry, last] log := by
  induction log with
  | nil =>
      exact absurd replaced (by simp)
  | cons first rest inductionHypothesis =>
      rcases List.sublist_cons_iff.mp replaced with
        inRest | ⟨tail, split, tailInRest⟩
      · obtain ⟨last, found, before⟩ := inductionHypothesis inRest
        rw [latest_cons, found]
        exact ⟨last, rfl, before.cons first⟩
      · obtain ⟨rfl, rfl⟩ := List.cons_eq_cons.mp split
        have member : later ∈ rest := List.singleton_sublist.mp tailInRest
        obtain ⟨last, found⟩ := exists_latest key member
        rw [same] at found
        rw [latest_cons, found]
        exact ⟨last, rfl,
          (List.singleton_sublist.mpr (latest_mem found).1).cons_cons entry⟩

/-- No relevant entry is replaced by a later one of its key. -/
def NeverReplaced
    (key : Entry → Key)
    (relevant : Entry → Prop)
    (log : List Entry) :
    Prop :=
  log.Pairwise
    (fun entry later => relevant entry → key later ≠ key entry)

/-- A relevant entry that is never replaced is the latest of its key. -/
theorem NeverReplaced.latest_eq
    (never : NeverReplaced key relevant log)
    (member : entry ∈ log)
    (isRelevant : relevant entry) :
    latest key log (key entry) = some entry := by
  rcases latest_of_mem key member with isLatest | ⟨last, found, before⟩
  · exact isLatest
  · exact absurd (latest_mem found).2
      (List.pairwise_iff_forall_sublist.mp never before isRelevant)

/-- Every key whose latest entry is indexed is listed once, and no other. -/
structure ListsLatest
    (key : Entry → Key)
    (times : Entry → Nat)
    (log : List Entry) :
    Prop where
  once : (listed key times log).Nodup
  latest : ∀ id, id ∈ listed key times log ↔
    ∃ last, latest key log id = some last ∧ 0 < times last

/-- Such an index is right when no indexed entry is ever replaced. -/
theorem listsLatest_iff :
    ListsLatest key times log ↔
      (∀ entry ∈ log, times entry ≤ 1) ∧
        NeverReplaced key (fun entry => 0 < times entry) log := by
  constructor
  · rintro ⟨once, isLatest⟩
    obtain ⟨atMostOnce, apart⟩ := listed_nodup_iff.mp once
    refine ⟨atMostOnce, List.pairwise_iff_forall_sublist.mpr ?_⟩
    intro entry later replaced indexed same
    obtain ⟨last, found, before⟩ := latest_of_replaced replaced same
    have member : entry ∈ log := replaced.subset List.mem_cons_self
    obtain ⟨other, otherFound, otherIndexed⟩ :=
      (isLatest (key entry)).mp (mem_listed.mpr ⟨entry, member, indexed, rfl⟩)
    obtain rfl := Option.some.inj (found.symm.trans otherFound)
    exact List.pairwise_iff_forall_sublist.mp apart before indexed
      otherIndexed (latest_mem found).2
  · rintro ⟨atMostOnce, never⟩
    refine ⟨listed_nodup_iff.mpr ⟨atMostOnce, never.imp ?_⟩, fun id => ?_⟩
    · exact fun apart indexed _ => apart indexed
    · rw [mem_listed]
      constructor
      · rintro ⟨entry, member, indexed, rfl⟩
        exact ⟨entry, never.latest_eq member indexed, indexed⟩
      · rintro ⟨last, found, indexed⟩
        obtain ⟨member, same⟩ := latest_mem found
        exact ⟨last, member, indexed, same⟩

end KeyedLog
