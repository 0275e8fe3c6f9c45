import Mathlib.Data.Nat.Bitwise
import YieldDaemon.BloomFilter
import YieldDaemon.CheckedArithmetic

namespace YieldDaemon

open CheckedArithmetic

/-!
# Bloom filter of program ids

The filter keeps its bits in words of 64.  An item has one bit for each hash,
all from two hash values, and adding and asking go through the same bits.  The
hash of the standard library is an argument here.
-/

/-- Bloom filter for O(1) program ID matching on hot path. -/
structure ProgramFilter where
  bits : List Nat
  numBits : Nat
  numHashes : UInt8
  deriving Repr, DecidableEq

namespace ProgramFilter

variable
  (profile : Profile)
  (hash : List UInt8 → UInt8 → UInt64)

def hashPair (data : List UInt8) (seed : UInt8) : UInt64 × UInt64 :=
  let h := hash data seed
  (h, h * 0x517cc1b727220a95)

/-- The bit of a hash, by the two hash values of an item. -/
def bitOf (filter : ProgramFilter) (pair : UInt64 × UInt64) (i : Nat) :
    Checked Nat :=
  rem (pair.1 + pair.2 * UInt64.ofNat i).toNat filter.numBits

/-- Set the bit of a hash. -/
def setBit
    (pair : UInt64 × UInt64)
    (filter : ProgramFilter)
    (i : Nat) : Checked ProgramFilter := do
  let bit ← filter.bitOf pair i
  let word ← index filter.bits (bit / 64)
  let mask ← shl profile 64 1 (bit % 64)
  let bits ← store filter.bits (bit / 64) (word ||| mask)
  return { filter with bits := bits }

def insert (filter : ProgramFilter) (item : List UInt8) :
    Checked ProgramFilter :=
  (List.range filter.numHashes.toNat).foldlM
    (setBit profile (hashPair hash item 0)) filter

/-- Test the bits of some hashes, up to one that is not set. -/
def testBits (filter : ProgramFilter) (pair : UInt64 × UInt64) :
    List Nat → Checked Bool
  | [] => return true
  | i :: rest => do
    let bit ← filter.bitOf pair i
    let word ← index filter.bits (bit / 64)
    let mask ← shl profile 64 1 (bit % 64)
    if word &&& mask = 0 then
      return false
    else
      testBits filter pair rest

def contains (filter : ProgramFilter) (item : List UInt8) : Checked Bool :=
  filter.testBits profile (hashPair hash item 0)
    (List.range filter.numHashes.toNat)

/-- There is at least one bit, and a word for every 64 of them. -/
structure Sized (filter : ProgramFilter) : Prop where
  positive : 1 ≤ filter.numBits
  words : filter.bits.length = (filter.numBits + 63) / 64

/-- The bits that are set. -/
def marked (filter : ProgramFilter) : Set Nat :=
  {bit | (filter.bits.getD (bit / 64) 0).testBit (bit % 64)}

section Words

variable
  {profile : Profile}
  {filter : ProgramFilter}
  {bit : Nat}

/-- Every bit has a word. -/
theorem Sized.word_lt
    (sized : filter.Sized)
    (inRange : bit < filter.numBits) :
    bit / 64 < filter.bits.length := by
  rw [sized.words]
  omega

theorem Sized.index_word
    (sized : filter.Sized)
    (inRange : bit < filter.numBits) :
    index filter.bits (bit / 64) = .ok (filter.bits.getD (bit / 64) 0) := by
  have wordInRange := sized.word_lt inRange
  rw [index_of_lt wordInRange, List.getD_eq_getElem?_getD,
    List.getElem?_eq_getElem wordInRange, Option.getD_some]

theorem shl_mask (bit : Nat) :
    shl profile 64 1 (bit % 64) = .ok (2 ^ (bit % 64)) :=
  shl_one (Nat.mod_lt _ (by decide))

theorem mem_marked :
    bit ∈ filter.marked ↔
      (filter.bits.getD (bit / 64) 0).testBit (bit % 64) = true :=
  Iff.rfl

/-- A mask leaves something of a word exactly if its bit is set. -/
theorem word_and_mask :
    (filter.bits.getD (bit / 64) 0) &&& 2 ^ (bit % 64) = 0 ↔
      bit ∉ filter.marked := by
  rw [Nat.and_two_pow, mem_marked]
  cases (filter.bits.getD (bit / 64) 0).testBit (bit % 64) <;> simp

/-- A word with one more bit marks this bit. -/
theorem marked_set
    (inRange : bit / 64 < filter.bits.length) :
    { filter with
        bits := filter.bits.set (bit / 64)
          (filter.bits.getD (bit / 64) 0 ||| 2 ^ (bit % 64)) }.marked =
      filter.marked ∪ {bit} := by
  ext other
  rw [Set.mem_union, Set.mem_singleton_iff, mem_marked, mem_marked,
    List.getD_eq_getElem?_getD, List.getElem?_set]
  by_cases sameWord : bit / 64 = other / 64
  · have sameBit : bit % 64 = other % 64 ↔ other = bit := by omega
    rw [if_pos sameWord, if_pos inRange, Option.getD_some, Nat.testBit_or,
      Nat.testBit_two_pow, Bool.or_eq_true, decide_eq_true_iff, sameBit,
      sameWord]
  · have different : other ≠ bit := by
      rintro rfl
      exact sameWord rfl
    rw [if_neg sameWord, ← List.getD_eq_getElem?_getD]
    exact (or_iff_left different).symm

end Words

/-- The bit of a hash, by the two hash values of an item. -/
def bitAt (numBits : Nat) (pair : UInt64 × UInt64) (i : Nat) : Nat :=
  (pair.1 + pair.2 * UInt64.ofNat i).toNat % numBits

/-- The bits of an item. -/
def bitsOf (filter : ProgramFilter) (item : List UInt8) : List Nat :=
  (List.range filter.numHashes.toNat).map
    (bitAt filter.numBits (hashPair hash item 0))

section Operations

variable
  {profile : Profile}
  {hash : List UInt8 → UInt8 → UInt64}
  {filter after : ProgramFilter}
  {bits : Set Nat}

/-- A filter of the same size that has marked some bits. -/
structure Marks
    (filter : ProgramFilter)
    (after : ProgramFilter)
    (bits : Set Nat) : Prop where
  sized : after.Sized
  sameBits : after.numBits = filter.numBits
  sameHashes : after.numHashes = filter.numHashes
  marks : after.marked = bits

theorem Sized.bitOf_eq
    (sized : filter.Sized)
    (pair : UInt64 × UInt64)
    (i : Nat) :
    filter.bitOf pair i = .ok (bitAt filter.numBits pair i) :=
  if_neg (Nat.ne_of_gt sized.positive)

theorem Sized.bitAt_lt
    (sized : filter.Sized)
    (pair : UInt64 × UInt64)
    (i : Nat) :
    bitAt filter.numBits pair i < filter.numBits :=
  Nat.mod_lt _ sized.positive

/-- Setting the bit of a hash marks it, and keeps the rest. -/
theorem Marks.setBit
    (marks : filter.Marks after bits)
    (pair : UInt64 × UInt64)
    (i : Nat) :
    ∃ next,
      setBit profile pair after i = .ok next ∧
        filter.Marks next (bits ∪ {bitAt filter.numBits pair i}) := by
  obtain ⟨sized, sameBits, sameHashes, rfl⟩ := marks
  have inRange := sized.bitAt_lt pair i
  have wordInRange := sized.word_lt inRange
  rw [ProgramFilter.setBit, sized.bitOf_eq, Checked.ok_bind,
    sized.index_word inRange, Checked.ok_bind, shl_mask, Checked.ok_bind,
    store_of_lt wordInRange, Checked.ok_bind]
  refine ⟨_, rfl, ⟨sized.positive, ?_⟩, sameBits, sameHashes, ?_⟩
  · rw [List.length_set]
    exact sized.words
  · rw [marked_set wordInRange, sameBits]

/-- Inserting an item marks its bits. -/
theorem Marks.insert
    (marks : filter.Marks after bits)
    (item : List UInt8) :
    ∃ next,
      after.insert profile hash item = .ok next ∧
        filter.Marks next
          (BloomFilter.add (filter.bitsOf hash) bits item) := by
  rw [← BloomFilter.foldl_mark, bitsOf, List.foldl_map,
    ProgramFilter.insert, marks.sameHashes]
  exact Checked.foldlM_relates filter.Marks _
    (fun i _ _ _ marks => marks.setBit (hashPair hash item 0) i) marks

/-- Inserting items marks the bits of all of them. -/
theorem Marks.foldlM_insert
    (marks : filter.Marks after bits)
    (items : List (List UInt8)) :
    ∃ next,
      items.foldlM (ProgramFilter.insert profile hash) after = .ok next ∧
        filter.Marks next
          (items.foldl (BloomFilter.add (filter.bitsOf hash)) bits) :=
  Checked.foldlM_relates filter.Marks _
    (fun item _ _ _ marks => marks.insert item) marks

/-- The bits of some hashes are tested up to one that is not marked. -/
theorem Sized.testBits_eq
    (sized : filter.Sized)
    (pair : UInt64 × UInt64)
    (hashes : List Nat) :
    ∃ answer,
      filter.testBits profile pair hashes = .ok answer ∧
        (answer = true ↔
          ∀ i ∈ hashes, bitAt filter.numBits pair i ∈ filter.marked) := by
  induction hashes with
  | nil =>
      exact ⟨true, rfl, iff_of_true rfl (List.forall_mem_nil _)⟩
  | cons i rest inductionHypothesis =>
      obtain ⟨answer, tested, isMarked⟩ := inductionHypothesis
      have inRange := sized.bitAt_lt pair i
      rw [testBits, sized.bitOf_eq, Checked.ok_bind,
        sized.index_word inRange, Checked.ok_bind, shl_mask, Checked.ok_bind]
      simp only [List.forall_mem_cons]
      by_cases isSet : bitAt filter.numBits pair i ∈ filter.marked
      · rw [if_neg (word_and_mask.not.mpr (not_not.mpr isSet))]
        exact ⟨answer, tested, isMarked.trans (and_iff_right isSet).symm⟩
      · rw [if_pos (word_and_mask.mpr isSet)]
        exact ⟨false, rfl,
          iff_of_false Bool.false_ne_true (fun both => isSet both.1)⟩

/-- A filter contains an item exactly if its bits are marked. -/
theorem Marks.contains
    (marks : filter.Marks after bits)
    (item : List UInt8) :
    ∃ answer,
      after.contains profile hash item = .ok answer ∧
        (answer = true ↔
          BloomFilter.MayContain (filter.bitsOf hash) bits item) := by
  obtain ⟨sized, sameBits, sameHashes, rfl⟩ := marks
  obtain ⟨answer, tested, isMarked⟩ :=
    @Sized.testBits_eq profile after sized (hashPair hash item 0)
      (List.range filter.numHashes.toNat)
  refine ⟨answer, ?_, ?_⟩
  · rw [ProgramFilter.contains, sameHashes, tested]
  · rw [isMarked, sameBits, BloomFilter.MayContain, bitsOf,
      List.forall_mem_map]

/--
After any insertions a filter contains every inserted item, and it answers for
every item without leaving its words.  Whatever it contains it contains after
further insertions.
-/
theorem contains_inserted
    (profile : Profile)
    (hash : List UInt8 → UInt8 → UInt64)
    {filter : ProgramFilter}
    (sized : filter.Sized)
    (items more : List (List UInt8)) :
    ∃ after later,
      items.foldlM (ProgramFilter.insert profile hash) filter = .ok after ∧
        more.foldlM (ProgramFilter.insert profile hash) after = .ok later ∧
        (∀ item ∈ items, after.contains profile hash item = .ok true) ∧
        (∀ item, ∃ answer, after.contains profile hash item = .ok answer) ∧
        ∀ item,
          after.contains profile hash item = .ok true →
          later.contains profile hash item = .ok true := by
  have start : filter.Marks filter filter.marked := ⟨sized, rfl, rfl, rfl⟩
  obtain ⟨after, inserted, marks⟩ :=
    @Marks.foldlM_insert profile hash filter filter _ start items
  obtain ⟨later, insertedMore, laterMarks⟩ :=
    @Marks.foldlM_insert profile hash filter after _ marks more
  refine ⟨after, later, inserted, insertedMore, ?_, ?_, ?_⟩
  · intro item member
    obtain ⟨answer, answered, isMarked⟩ := marks.contains item
    rw [answered, isMarked.mpr (BloomFilter.mayContain_foldl_add member)]
  · intro item
    obtain ⟨answer, answered, -⟩ := marks.contains item
    exact ⟨answer, answered⟩
  · intro item isContained
    obtain ⟨answer, answered, isMarked⟩ := marks.contains item
    obtain ⟨laterAnswer, laterAnswered, laterIsMarked⟩ :=
      @Marks.contains profile hash _ _ _ laterMarks item
    obtain rfl := Except.ok.inj (answered.symm.trans isContained)
    rw [laterAnswered,
      laterIsMarked.mpr
        ((isMarked.mp rfl).mono BloomFilter.subset_foldl_add)]

/-- A filter of a hundred bits, three for each item. -/
def hundredBits : ProgramFilter :=
  { bits := [0, 0], numBits := 100, numHashes := 3 }

/-- The sum of the bytes as a hash. -/
def byteSum (data : List UInt8) (seed : UInt8) : UInt64 :=
  data.foldl (fun sum byte => sum + byte.toUInt64) seed.toUInt64

/-- Two inserted items are contained, for instance. -/
theorem two_items_are_contained :
    ∃ after,
      [[1, 2], [3]].foldlM (ProgramFilter.insert .debug byteSum)
          hundredBits = .ok after ∧
        after.contains .debug byteSum [1, 2] = .ok true ∧
        after.contains .debug byteSum [3] = .ok true := by
  obtain ⟨after, -, inserted, -, contained, -⟩ :=
    contains_inserted .debug byteSum
      (show hundredBits.Sized from ⟨by decide, by decide⟩)
      [[1, 2], [3]] []
  exact ⟨after, inserted, contained _ (by decide), contained _ (by decide)⟩

end Operations

end ProgramFilter

end YieldDaemon
