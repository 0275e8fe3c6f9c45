import YieldDaemon.Arena

namespace YieldDaemon

open CheckedArithmetic

/-!
# Requests at the end of usize

A single caller asks the arena for bytes.  The end of the range and the size of
a slice are computed in usize, so a request that is too large to be counted
there panics in a debug build, and in a release build it is compared with the
capacity after it has wrapped.
-/

namespace Arena

open SharedArena (alignUp aim and_high_bits)

/--
Allocate `size` bytes aligned to `align`, where the weak exchange fails for no
reason a number of times before it succeeds.
-/
def alloc (profile : Profile) (size align : Nat) :
    Nat → Arena → Checked (Option Nat × Arena)
  | failures, arena => do
    match ← aim profile arena.capacity size align arena.cursor with
    | none => return (none, arena)
    | some (aligned, newCursor) =>
      match failures with
      | failures + 1 => alloc profile size align failures arena
      | 0 =>
        -- `buf[aligned..]` is out of range beyond the end of the buffer.
        if aligned ≤ arena.capacity then
          return (some aligned, { arena with cursor := newCursor })
        else
          .error .indexOutOfRange

/-- Allocate a slice of `count` elements from the arena. -/
def allocSlice
    (profile : Profile)
    (elementSize elementAlign count failures : Nat)
    (arena : Arena) : Checked (Option Nat × Arena) := do
  let size ← mul profile 64 elementSize count
  alloc profile size elementAlign failures arena

/-- The least multiple of the alignment from the cursor on. -/
def alignedStart (cursor align : Nat) : Nat :=
  (cursor + align - 1) / align * align

/--
The request returns, moves the cursor backwards in no case, is refused without
a trace exactly if it exceeds the capacity, and otherwise gets its bytes.
-/
def Serves
    (arena : Arena)
    (bytes align : Nat)
    (result : Checked (Option Nat × Arena)) : Prop :=
  ∃ granted after,
    result = .ok (granted, after) ∧
      arena.cursor ≤ after.cursor ∧
      if arena.capacity < alignedStart arena.cursor align + bytes then
        granted = none ∧ after.cursor = arena.cursor
      else
        ∃ start, granted = some start ∧ start + bytes ≤ arena.capacity

/--
The end of the request can be counted in usize, or its wrapped end is beyond
the capacity as well; a debug build counts the padding in full besides.
-/
def EndIsCounted
    (profile : Profile)
    (arena : Arena)
    (bytes align : Nat) : Prop :=
  match profile with
  | .debug =>
    arena.cursor + align < 2 ^ 64 ∧
      alignedStart arena.cursor align + bytes < 2 ^ 64
  | .release =>
    alignedStart arena.cursor align + bytes < 2 ^ 64 ∨
      arena.capacity <
        (alignedStart arena.cursor align + bytes) % 2 ^ 64

section Aims

variable {current align size capacity : Nat}

theorem le_alignedStart (positive : 0 < align) :
    current ≤ alignedStart current align := by
  have rest := Nat.mod_lt (current + align - 1) positive
  have split := Nat.div_add_mod' (current + align - 1) align
  unfold alignedStart
  omega

/-- Rounding down wraps in step with what is rounded. -/
theorem and_high_bits_wraps
    {bits : Nat}
    (narrow : bits ≤ 64)
    (value : Nat) :
    value % 2 ^ 64 &&& (2 ^ 64 - 1 - (2 ^ bits - 1)) =
      value / 2 ^ bits * 2 ^ bits % 2 ^ 64 := by
  have split : 2 ^ 64 = 2 ^ bits * 2 ^ (64 - bits) := by
    rw [← Nat.pow_add, Nat.add_sub_cancel' narrow]
  rw [and_high_bits narrow (Nat.mod_lt _ (Nat.two_pow_pos 64)), split,
    Nat.mod_mul_right_div_self, ← Nat.mul_mod_mul_left, Nat.mul_comm]

/-- The last offset that is rounded down, wrapped. -/
theorem lastOffset_release
    (positive : 0 < align) :
    (do let sum ← add .release 64 current align
        sub .release 64 sum 1) =
      .ok ((current + align - 1) % 2 ^ 64) := by
  have stored :
      add .release 64 current align =
        .ok ((current + align) % 2 ^ 64) :=
    fit_eq_ok_iff.mpr ⟨rfl, nofun⟩
  rw [stored, Checked.ok_bind]
  unfold sub
  split
  · exact congrArg Except.ok (by omega)
  · exact congrArg Except.ok (by omega)

/-- A release build aligns up to the exact offset, wrapped. -/
theorem alignUp_release (power : align.isPowerOfTwo)
    (alignFits : align < 2 ^ 64) :
    alignUp .release current align =
      .ok (alignedStart current align % 2 ^ 64) := by
  obtain ⟨bits, rfl⟩ := power
  have narrow : bits ≤ 64 :=
    ((Nat.pow_lt_pow_iff_right (by decide)).mp alignFits).le
  have positive : 0 < 2 ^ bits := Nat.two_pow_pos bits
  obtain ⟨sum, added, subtracted⟩ :=
    Checked.bind_eq_ok.mp (@lastOffset_release current _ positive)
  rw [alignUp, added, Checked.ok_bind, subtracted, Checked.ok_bind,
    sub_of_le positive, Checked.ok_bind, and_high_bits_wraps narrow]
  rfl

/-- A debug build aligns up exactly, or panics. -/
theorem alignUp_debug_eq_ok_iff
    {aligned : Nat}
    (power : align.isPowerOfTwo) :
    alignUp .debug current align = .ok aligned ↔
      current + align < 2 ^ 64 ∧ alignedStart current align = aligned := by
  by_cases fits : current + align < 2 ^ 64
  · rw [and_iff_right fits]
    obtain ⟨bits, rfl⟩ := power
    have narrow : bits ≤ 64 :=
      ((Nat.pow_lt_pow_iff_right (by decide)).mp
        ((Nat.le_add_left _ current).trans_lt fits)).le
    have positive : 0 < 2 ^ bits := Nat.two_pow_pos bits
    have lastFits : current + 2 ^ bits - 1 < 2 ^ 64 :=
      (Nat.sub_le _ 1).trans_lt fits
    rw [alignUp, add_of_lt fits, Checked.ok_bind, sub_of_le (by omega),
      Checked.ok_bind, sub_of_le positive, Checked.ok_bind,
      and_high_bits narrow lastFits, Nat.mul_comm]
    exact Except.ok.injEq _ _ |>.to_iff
  · rw [alignUp, add, fit_debug_of_le (Nat.not_lt.mp fits)]
    exact iff_of_false (fun found => by cases found)
      (fun found => fits found.1)

/-- What a caller in a release build aims for. -/
theorem aim_release
    (power : align.isPowerOfTwo)
    (alignFits : align < 2 ^ 64) :
    aim .release capacity size align current =
      .ok (if capacity < (alignedStart current align + size) % 2 ^ 64 then
        none
      else
        some (alignedStart current align % 2 ^ 64,
          (alignedStart current align + size) % 2 ^ 64)) := by
  have stored :
      add .release 64 (alignedStart current align % 2 ^ 64) size =
        .ok ((alignedStart current align + size) % 2 ^ 64) :=
    fit_eq_ok_iff.mpr ⟨Nat.mod_add_mod _ _ _, nofun⟩
  rw [aim, alignUp_release power alignFits, Checked.ok_bind, stored,
    Checked.ok_bind]
  split <;> rfl

/-- What a caller in a debug build aims for. -/
theorem aim_debug_eq_ok_iff
    {target : Option (Nat × Nat)}
    (power : align.isPowerOfTwo) :
    aim .debug capacity size align current = .ok target ↔
      (current + align < 2 ^ 64 ∧
        alignedStart current align + size < 2 ^ 64) ∧
      (if capacity < alignedStart current align + size then
        none
      else
        some (alignedStart current align,
          alignedStart current align + size)) = target := by
  simp only [aim, Checked.bind_eq_ok, alignUp_debug_eq_ok_iff power,
    add_debug_eq_ok]
  constructor
  · rintro ⟨_, ⟨padded, rfl⟩, _, ⟨counted, rfl⟩, aimed⟩
    refine ⟨⟨padded, counted⟩, ?_⟩
    split at aimed
    · next exceeds =>
        rw [if_pos exceeds]
        exact Except.ok.inj aimed
    · next inside =>
        rw [if_neg inside]
        exact Except.ok.inj aimed
  · rintro ⟨⟨padded, counted⟩, rfl⟩
    refine ⟨_, ⟨padded, rfl⟩, _, ⟨counted, rfl⟩, ?_⟩
    split <;> rfl

end Aims

variable {arena : Arena} {align size bytes failures : Nat}

/-- A refused request leaves the arena alone, however often it is retried. -/
theorem alloc_of_refused
    {profile : Profile}
    (refused :
      aim profile arena.capacity size align arena.cursor = .ok none)
    (failures : Nat) :
    alloc profile size align failures arena = .ok (none, arena) := by
  cases failures <;> rw [alloc, refused] <;> rfl

/-- Retries aim for the same range. -/
theorem alloc_of_aimed
    {profile : Profile}
    {aligned newCursor : Nat}
    (aimed :
      aim profile arena.capacity size align arena.cursor =
        .ok (some (aligned, newCursor)))
    (failures : Nat) :
    alloc profile size align failures arena =
      if aligned ≤ arena.capacity then
        .ok (some aligned, { arena with cursor := newCursor })
      else
        .error .indexOutOfRange := by
  induction failures with
  | zero =>
      rw [alloc, aimed]
      rfl
  | succ failures inductionHypothesis =>
      rw [alloc, aimed]
      exact inductionHypothesis

theorem alloc_of_panic
    {profile : Profile}
    {panic : Panic}
    (panics :
      aim profile arena.capacity size align arena.cursor = .error panic)
    (failures : Nat) :
    alloc profile size align failures arena = .error panic := by
  cases failures <;> rw [alloc, panics] <;> rfl

/-- A refusal serves a request exactly if the request exceeds the capacity. -/
theorem serves_none_iff :
    arena.Serves bytes align (.ok (none, arena)) ↔
      arena.capacity < alignedStart arena.cursor align + bytes := by
  unfold Serves
  constructor
  · rintro ⟨granted, after, same, -, served⟩
    obtain ⟨rfl, rfl⟩ := Prod.mk.inj (Except.ok.inj same)
    by_contra inside
    rw [if_neg inside] at served
    obtain ⟨start, granted, -⟩ := served
    exact absurd granted nofun
  · intro exceeds
    refine ⟨none, arena, rfl, le_refl _, ?_⟩
    rw [if_pos exceeds]
    exact ⟨rfl, rfl⟩

/-- No panic serves a request, and no range serves one that is too large. -/
theorem not_serves_of_exceeds
    {result : Checked (Option Nat × Arena)}
    (exceeds :
      arena.capacity < alignedStart arena.cursor align + bytes)
    (granted : ∀ after, result ≠ .ok (none, after)) :
    ¬ arena.Serves bytes align result := by
  rintro ⟨grant, after, rfl, -, served⟩
  rw [if_pos exceeds] at served
  obtain ⟨rfl, -⟩ := served
  exact granted after rfl

/-- A request that is counted in full gets the range that it aims for. -/
theorem serves_of_counted
    {profile : Profile}
    (positive : 0 < align)
    (aimed :
      aim profile arena.capacity size align arena.cursor =
        .ok (if arena.capacity < alignedStart arena.cursor align + bytes then
          none
        else
          some (alignedStart arena.cursor align,
            alignedStart arena.cursor align + bytes)))
    (failures : Nat) :
    arena.Serves bytes align (alloc profile size align failures arena) := by
  by_cases exceeds : arena.capacity < alignedStart arena.cursor align + bytes
  · rw [if_pos exceeds] at aimed
    rw [alloc_of_refused aimed]
    exact serves_none_iff.mpr exceeds
  · rw [if_neg exceeds] at aimed
    have inside := Nat.not_lt.mp exceeds
    rw [alloc_of_aimed aimed,
      if_pos ((Nat.le_add_right _ _).trans inside)]
    refine ⟨_, _, rfl,
      (le_alignedStart positive).trans (Nat.le_add_right _ _), ?_⟩
    rw [if_neg exceeds]
    exact ⟨_, rfl, inside⟩

/-- The wrapped size of a request stands for all of its bytes. -/
theorem alloc_serves_iff_of_wraps
    (profile : Profile)
    (power : align.isPowerOfTwo)
    (alignFits : align < 2 ^ 64)
    (capacityFits : arena.capacity < 2 ^ 64)
    (wraps : size = bytes % 2 ^ 64)
    (exact : profile = .debug → size = bytes)
    (failures : Nat) :
    arena.Serves bytes align (alloc profile size align failures arena) ↔
      EndIsCounted profile arena bytes align := by
  have positive : 0 < align := Nat.pos_of_isPowerOfTwo power
  cases profile with
  | debug =>
      obtain rfl := exact rfl
      constructor
      · rintro ⟨granted, after, returned, -⟩
        cases aimed : aim .debug arena.capacity size align arena.cursor with
        | error panic =>
            rw [alloc_of_panic aimed] at returned
            exact absurd returned nofun
        | ok target =>
            exact ((aim_debug_eq_ok_iff power).mp aimed).1
      · intro counted
        exact serves_of_counted positive
          ((aim_debug_eq_ok_iff power).mpr ⟨counted, rfl⟩) failures
  | release =>
      let stop := alignedStart arena.cursor align + bytes
      have aimed :=
        @aim_release arena.cursor align size arena.capacity power alignFits
      rw [wraps, Nat.add_mod_mod] at aimed
      rw [wraps]
      by_cases refused : arena.capacity < stop % 2 ^ 64
      · rw [if_pos refused] at aimed
        rw [alloc_of_refused aimed, serves_none_iff]
        exact iff_of_true (refused.trans_le (Nat.mod_le _ _)) (.inr refused)
      · change _ ↔ stop < 2 ^ 64 ∨ arena.capacity < stop % 2 ^ 64
        rw [or_iff_left refused]
        by_cases counted : stop < 2 ^ 64
        · refine iff_of_true (serves_of_counted positive ?_ failures) counted
          rw [aimed, Nat.mod_eq_of_lt counted,
            Nat.mod_eq_of_lt ((Nat.le_add_right _ _).trans_lt counted)]
        · refine iff_of_false (not_serves_of_exceeds
            (capacityFits.trans_le (Nat.not_lt.mp counted)) ?_) counted
          intro after
          rw [if_neg refused] at aimed
          rw [alloc_of_aimed aimed]
          split <;> nofun

/--
A request, for bytes or for a slice, is served exactly if the end of all of its
bytes is counted in usize.
-/
theorem requests_served_iff
    {arena : Arena}
    {align : Nat}
    (capacityFits : arena.capacity < 2 ^ 64)
    (power : align.isPowerOfTwo)
    (alignFits : align < 2 ^ 64)
    (profile : Profile)
    (failures : Nat) :
    (∀ size < 2 ^ 64,
      arena.Serves size align (alloc profile size align failures arena) ↔
        EndIsCounted profile arena size align) ∧
    ∀ elementSize count,
      arena.Serves (elementSize * count) align
          (allocSlice profile elementSize align count failures arena) ↔
        EndIsCounted profile arena (elementSize * count) align := by
  refine ⟨fun size sizeFits => ?_, fun elementSize count => ?_⟩
  · exact alloc_serves_iff_of_wraps profile power alignFits capacityFits
      (Nat.mod_eq_of_lt sizeFits).symm (fun _ => rfl) failures
  · unfold allocSlice
    cases multiplied : mul profile 64 elementSize count with
    | error panic =>
        refine iff_of_false ?_ ?_
        · rintro ⟨granted, after, returned, -⟩
          exact absurd returned nofun
        · cases profile with
          | debug =>
              rintro ⟨-, counted⟩
              have productFits : elementSize * count < 2 ^ 64 :=
                (Nat.le_add_left _ _).trans_lt counted
              rw [mul, fit_of_lt productFits] at multiplied
              exact absurd multiplied nofun
          | release =>
              obtain ⟨size, returned⟩ :=
                mul_release_returns 64 elementSize count
              exact absurd (returned.symm.trans multiplied) nofun
    | ok size =>
        obtain ⟨wraps, fits⟩ := fit_eq_ok_iff.mp multiplied
        refine alloc_serves_iff_of_wraps profile power alignFits capacityFits
          wraps.symm (fun debug => ?_) failures
        rw [← wraps, Nat.mod_eq_of_lt (fits debug)]

/-- Half of a fresh arena of 64 bytes is served, as bytes and as a slice. -/
theorem half_is_served :
    (new 64).Serves 32 8 (alloc .debug 32 8 1 (new 64)) ∧
      (new 64).Serves (8 * 4) 8 (allocSlice .debug 8 8 4 1 (new 64)) := by
  have served :=
    @requests_served_iff (new 64) 8 (by decide) ⟨3, rfl⟩ (by decide) .debug 1
  exact ⟨(served.1 32 (by decide)).mpr ⟨by decide, by decide⟩,
    (served.2 8 4).mpr ⟨by decide, by decide⟩⟩

/--
With 32 of 64 bytes used, `usize::MAX` bytes panic in a debug build, and in a
release build a range is granted and the cursor moves back by one.
-/
theorem largest_request_is_not_served :
    alloc .debug (2 ^ 64 - 1) 8 0 ⟨32, 64⟩ = .error .arithmeticOverflow ∧
      alloc .release (2 ^ 64 - 1) 8 0 ⟨32, 64⟩ = .ok (some 32, ⟨31, 64⟩) ∧
      ∀ profile, ¬ Serves ⟨32, 64⟩ (2 ^ 64 - 1) 8
        (alloc profile (2 ^ 64 - 1) 8 0 ⟨32, 64⟩) := by
  have debug :
      alloc .debug (2 ^ 64 - 1) 8 0 ⟨32, 64⟩ = .error .arithmeticOverflow :=
    alloc_of_panic (by decide +kernel) 0
  have release :
      alloc .release (2 ^ 64 - 1) 8 0 ⟨32, 64⟩ = .ok (some 32, ⟨31, 64⟩) :=
    (alloc_of_aimed (by decide +kernel) 0).trans (if_pos (by decide))
  refine ⟨debug, release, fun profile => ?_⟩
  cases profile with
  | debug =>
      rw [debug]
      rintro ⟨granted, after, returned, -⟩
      exact absurd returned nofun
  | release =>
      rw [release]
      rintro ⟨granted, after, returned, forwards, -⟩
      obtain ⟨rfl, rfl⟩ := Prod.mk.inj (Except.ok.inj returned)
      exact absurd forwards (by decide)

end Arena

end YieldDaemon
