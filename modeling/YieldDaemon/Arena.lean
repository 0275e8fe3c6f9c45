import Mathlib
import YieldDaemon.CheckedArithmetic
import YieldDaemon.LabelledRun

namespace YieldDaemon

open CheckedArithmetic LabelledRun

/-!
# Arena

A bump allocator whose cursor is advanced by a compare-and-exchange.  Any
number of callers take the atomic steps of `alloc` in any order.  A relaxed
load may return any value that the cursor has had, which is more than the
memory model allows, and a weak exchange may fail for no reason.
-/

/-- A successful allocation: where it starts, and what was asked for. -/
structure Allocation where
  start : Nat
  size : Nat
  align : Nat
  deriving DecidableEq

namespace Allocation

/-- The offsets of the bytes that an allocation occupies. -/
def bytes (allocation : Allocation) : Set Nat :=
  Set.Ico allocation.start (allocation.start + allocation.size)

/-- An allocation that ends where the other starts is disjoint from it. -/
theorem disjoint_of_le
    {earlier later : Allocation}
    (apart : earlier.start + earlier.size ≤ later.start) :
    Disjoint later.bytes earlier.bytes := by
  rw [disjoint_comm]
  exact Set.Ico_disjoint_Ico.mpr
    ((min_le_left _ _).trans (apart.trans (le_max_right _ _)))

end Allocation

/-- Where a caller stands inside `alloc`. -/
inductive Phase where
  | idle
  | loading (size align : Nat)
  | exchanging (size align current aligned newCursor : Nat)
  deriving DecidableEq

/-- The cursor and the capacity of the bump allocator. -/
structure Arena where
  cursor : Nat
  capacity : Nat

namespace Arena

def new (capacity : Nat) : Arena :=
  ⟨0, capacity⟩

/-- All allocations are freed instantly. -/
def reset (arena : Arena) : Arena :=
  { arena with cursor := 0 }

end Arena

/-- An arena with its callers and the values that its cursor has had. -/
structure SharedArena (Caller : Type) extends Arena where
  written : List Nat
  phase : Caller → Phase
  /-- The successful allocations since the last reset, the latest first. -/
  live : List Allocation

/-- The atomic steps of the callers. -/
inductive ArenaEvent (Caller : Type) where
  | call (caller : Caller) (size align : Nat)
  | load (caller : Caller) (size align current : Nat)
  | exchange (caller : Caller)
  | exchangeFails (caller : Caller)
  | reset

namespace SharedArena

variable {Caller : Type}

def new (Caller : Type) (capacity : Nat) : SharedArena Caller where
  toArena := Arena.new capacity
  written := [0]
  phase := fun _ => .idle
  live := []

/-- Align up: `(current + align - 1) & !(align - 1)` -/
def alignUp (profile : Profile) (current align : Nat) : Checked Nat := do
  let sum ← add profile 64 current align
  let last ← sub profile 64 sum 1
  let low ← sub profile 64 align 1
  return last &&& (2 ^ 64 - 1 - low)

/-- What a caller that loaded `current` aims for, or nothing if exhausted. -/
def aim (profile : Profile) (capacity size align current : Nat) :
    Checked (Option (Nat × Nat)) := do
  let aligned ← alignUp profile current align
  let newCursor ← add profile 64 aligned size
  if capacity < newCursor then
    return none
  else
    return some (aligned, newCursor)

/-- A caller that is exhausted returns, and one that panics is gone as well. -/
def afterLoad (profile : Profile) (capacity size align current : Nat) :
    Phase :=
  match aim profile capacity size align current with
  | .ok (some (aligned, newCursor)) =>
    .exchanging size align current aligned newCursor
  | _ => .idle

section Steps

variable [DecidableEq Caller]

def setPhase
    (arena : SharedArena Caller)
    (caller : Caller)
    (phase : Phase) : SharedArena Caller :=
  { arena with phase := Function.update arena.phase caller phase }

/-- One atomic step of a caller. -/
inductive Step (profile : Profile) :
    SharedArena Caller → ArenaEvent Caller → SharedArena Caller → Prop where
  | call
      {arena : SharedArena Caller}
      {caller : Caller}
      (size align : Nat)
      (idle : arena.phase caller = .idle) :
      Step profile arena (.call caller size align)
        (arena.setPhase caller (.loading size align))
  | load
      {arena : SharedArena Caller}
      {caller : Caller}
      {size align current : Nat}
      (loading : arena.phase caller = .loading size align)
      (written : current ∈ arena.written) :
      Step profile arena (.load caller size align current)
        (arena.setPhase caller
          (afterLoad profile arena.capacity size align current))
  | exchange
      {arena : SharedArena Caller}
      {caller : Caller}
      {size align current aligned newCursor : Nat}
      (exchanging :
        arena.phase caller =
          .exchanging size align current aligned newCursor)
      (unchanged : arena.cursor = current) :
      Step profile arena (.exchange caller)
        { arena with
          cursor := newCursor
          written := newCursor :: arena.written
          phase := Function.update arena.phase caller .idle
          live := ⟨aligned, size, align⟩ :: arena.live }
  | exchangeFails
      {arena : SharedArena Caller}
      {caller : Caller}
      {size align current aligned newCursor : Nat}
      (exchanging :
        arena.phase caller =
          .exchanging size align current aligned newCursor) :
      Step profile arena (.exchangeFails caller)
        (arena.setPhase caller (.loading size align))
  | reset
      {arena : SharedArena Caller} :
      Step profile arena .reset
        { arena with
          toArena := arena.toArena.reset
          written := 0 :: arena.written
          live := [] }

end Steps

/-- The alignment is a power of two and the sum stays within usize. -/
def Fits : ArenaEvent Caller → Prop
  | .load _ size align current =>
    align.isPowerOfTwo ∧ current + align + size < 2 ^ 64
  | _ => True

/-- Allocations since the last reset are aligned, inside and disjoint. -/
structure AllocationsSound (arena : SharedArena Caller) : Prop where
  disjoint :
    arena.live.Pairwise
      (fun later earlier => Disjoint later.bytes earlier.bytes)
  aligned : ∀ allocation ∈ arena.live, allocation.align ∣ allocation.start
  inside :
    ∀ allocation ∈ arena.live,
      allocation.start + allocation.size ≤ arena.capacity
  cursor : arena.cursor ≤ arena.capacity

/-- Clearing the low bits rounds down to a multiple of a power of two. -/
theorem and_high_bits
    {width bits value : Nat}
    (narrow : bits ≤ width)
    (fits : value < 2 ^ width) :
    value &&& (2 ^ width - 1 - (2 ^ bits - 1)) =
      2 ^ bits * (value / 2 ^ bits) := by
  have mask :
      2 ^ width - 1 - (2 ^ bits - 1) = 2 ^ width - (2 ^ bits - 1 + 1) := by
    omega
  have low : 2 ^ bits - 1 < 2 ^ width :=
    (Nat.sub_lt (Nat.two_pow_pos bits) Nat.one_pos).trans_le
      (Nat.pow_le_pow_right (by decide) narrow)
  apply Nat.eq_of_testBit_eq
  intro bit
  rw [Nat.testBit_and, mask, Nat.testBit_two_pow_sub_succ low,
    Nat.testBit_two_pow_sub_one, Nat.testBit_two_pow_mul,
    Nat.testBit_div_two_pow]
  rcases Nat.lt_or_ge bit bits with cleared | kept
  · simp [cleared, Nat.not_le.mpr cleared]
  · rw [Nat.sub_add_cancel kept]
    rcases Nat.lt_or_ge bit width with inside | outside
    · simp [kept, Nat.not_lt.mpr kept, inside]
    · have high : value.testBit bit = false :=
        Nat.testBit_lt_two_pow
          (fits.trans_le (Nat.pow_le_pow_right (by decide) outside))
      simp [high]

/-- The aligned offset is the next multiple of the alignment. -/
theorem alignUp_eq
    (profile : Profile)
    {current align : Nat}
    (power : align.isPowerOfTwo)
    (fits : current + align < 2 ^ 64) :
    ∃ aligned,
      alignUp profile current align = .ok aligned ∧
        current ≤ aligned ∧
        aligned < current + align ∧
        align ∣ aligned := by
  obtain ⟨bits, rfl⟩ := power
  have positive : 0 < 2 ^ bits := Nat.two_pow_pos bits
  have narrow : bits ≤ 64 :=
    (Nat.pow_lt_pow_iff_right (by decide)).mp
      ((Nat.le_add_left _ current).trans_lt fits) |>.le
  have lastFits : current + 2 ^ bits - 1 < 2 ^ 64 :=
    (Nat.sub_le _ 1).trans_lt fits
  refine ⟨2 ^ bits * ((current + 2 ^ bits - 1) / 2 ^ bits), ?_, ?_, ?_,
    Nat.dvd_mul_right _ _⟩
  · rw [alignUp, add_of_lt fits, Checked.ok_bind, sub_of_le (by omega),
      Checked.ok_bind, sub_of_le positive, Checked.ok_bind,
      and_high_bits narrow lastFits]
    rfl
  · have rest := Nat.mod_lt (current + 2 ^ bits - 1) positive
    have split := Nat.div_add_mod (current + 2 ^ bits - 1) (2 ^ bits)
    omega
  · have below := Nat.mul_div_le (current + 2 ^ bits - 1) (2 ^ bits)
    omega

/-- What an exchanging caller knows about the range that it aims for. -/
structure Aims
    (capacity size align current aligned newCursor : Nat) : Prop where
  after : current ≤ aligned
  multiple : align ∣ aligned
  next : newCursor = aligned + size
  inside : newCursor ≤ capacity

/-- A caller that goes on to exchange aims for an aligned range. -/
theorem aims_of_afterLoad
    {profile : Profile}
    {capacity size align current : Nat}
    {nextSize nextAlign nextCurrent aligned newCursor : Nat}
    (power : align.isPowerOfTwo)
    (fits : current + align + size < 2 ^ 64)
    (exchanging :
      afterLoad profile capacity size align current =
        .exchanging nextSize nextAlign nextCurrent aligned newCursor) :
    Aims capacity nextSize nextAlign nextCurrent aligned newCursor := by
  obtain ⟨rounded, computed, after, near, multiple⟩ :=
    alignUp_eq profile power
      ((Nat.le_add_right _ size).trans_lt fits)
  have sumFits : rounded + size < 2 ^ 64 := by
    omega
  have aimed :
      aim profile capacity size align current =
        if capacity < rounded + size then
          .ok none
        else
          .ok (some (rounded, rounded + size)) := by
    rw [aim, computed, Checked.ok_bind, add_of_lt sumFits,
      Checked.ok_bind]
    rfl
  rw [afterLoad, aimed] at exchanging
  rcases Nat.lt_or_ge capacity (rounded + size) with exhausted | inside
  · rw [if_pos exhausted] at exchanging
    exact absurd exchanging nofun
  · rw [if_neg (Nat.not_lt.mpr inside)] at exchanging
    obtain ⟨rfl, rfl, rfl, rfl, rfl⟩ := Phase.exchanging.inj exchanging
    exact ⟨after, multiple, rfl, inside⟩

/-- No allocation reaches beyond the cursor, and callers aim rightly. -/
structure Invariant (arena : SharedArena Caller) : Prop where
  sound : arena.AllocationsSound
  below :
    ∀ allocation ∈ arena.live,
      allocation.start + allocation.size ≤ arena.cursor
  aims :
    ∀ {caller size align current aligned newCursor},
      arena.phase caller =
          .exchanging size align current aligned newCursor →
        Aims arena.capacity size align current aligned newCursor

theorem invariant_new (capacity : Nat) :
    (new Caller capacity).Invariant where
  sound :=
    { disjoint := .nil
      aligned := nofun
      inside := nofun
      cursor := Nat.zero_le capacity }
  below := nofun
  aims := nofun

section Runs

variable
  [DecidableEq Caller]
  {profile : Profile}
  {before after : SharedArena Caller}
  {event : ArenaEvent Caller}

/-- A caller may go on to any phase in which it aims rightly. -/
theorem Invariant.setPhase
    (invariant : before.Invariant)
    {caller : Caller}
    {next : Phase}
    (nextAims :
      ∀ {size align current aligned newCursor},
        next = .exchanging size align current aligned newCursor →
          Aims before.capacity size align current aligned newCursor) :
    (before.setPhase caller next).Invariant where
  sound :=
    { disjoint := invariant.sound.disjoint
      aligned := invariant.sound.aligned
      inside := invariant.sound.inside
      cursor := invariant.sound.cursor }
  below := invariant.below
  aims := by
    intro other size align current aligned newCursor exchanging
    simp only [SharedArena.setPhase] at exchanging
    by_cases same : other = caller
    · subst other
      rw [Function.update_self] at exchanging
      exact nextAims exchanging
    · rw [Function.update_of_ne same] at exchanging
      exact invariant.aims exchanging

/-- A successful exchange adds a range that starts at the cursor or later. -/
theorem Invariant.exchange
    (invariant : before.Invariant)
    {caller : Caller}
    {size align aligned newCursor : Nat}
    (exchanging :
      before.phase caller =
        .exchanging size align before.cursor aligned newCursor) :
    Invariant
      { before with
        cursor := newCursor
        written := newCursor :: before.written
        phase := Function.update before.phase caller .idle
        live := ⟨aligned, size, align⟩ :: before.live } := by
  have aims := invariant.aims exchanging
  have advances : before.cursor ≤ newCursor := by
    rw [aims.next]
    exact aims.after.trans (Nat.le_add_right aligned size)
  constructor
  · constructor
    · refine .cons ?_ invariant.sound.disjoint
      intro earlier member
      exact Allocation.disjoint_of_le
        ((invariant.below earlier member).trans aims.after)
    · exact List.forall_mem_cons.mpr
        ⟨aims.multiple, invariant.sound.aligned⟩
    · exact List.forall_mem_cons.mpr
        ⟨aims.next.symm.trans_le aims.inside, invariant.sound.inside⟩
    · exact aims.inside
  · refine List.forall_mem_cons.mpr ⟨aims.next.ge, ?_⟩
    intro earlier member
    exact (invariant.below earlier member).trans advances
  · intro other size align current otherAligned otherCursor goesOn
    by_cases same : other = caller
    · subst other
      simp only [Function.update_self] at goesOn
      exact absurd goesOn nofun
    · simp only [Function.update_of_ne same] at goesOn
      exact invariant.aims goesOn

/-- Every atomic step keeps the invariant. -/
theorem invariant_step
    (invariant : before.Invariant)
    (fits : Fits event)
    (step : Step profile before event after) :
    after.Invariant := by
  cases step with
  | call size align idle =>
      exact invariant.setPhase nofun
  | load loading written =>
      exact invariant.setPhase (aims_of_afterLoad fits.1 fits.2)
  | exchange exchanging unchanged =>
      subst unchanged
      exact invariant.exchange exchanging
  | exchangeFails exchanging =>
      exact invariant.setPhase nofun
  | reset =>
      exact
        { sound :=
            { disjoint := .nil
              aligned := nofun
              inside := nofun
              cursor := Nat.zero_le _ }
          below := nofun
          aims := invariant.aims }

/--
In every interleaving of any number of callers the allocations since the last
reset are disjoint, aligned and inside the arena, and so is the cursor.
-/
theorem allocations_are_sound
    {capacity : Nat}
    {events : List (ArenaEvent Caller)}
    {arena : SharedArena Caller}
    (fits : ∀ event ∈ events, Fits event)
    (run : Run (Step profile) (new Caller capacity) events arena) :
    arena.AllocationsSound := by
  have invariant : arena.Invariant :=
    (run.restrict fits).preserves Invariant
      (fun before step => invariant_step before step.1 step.2)
      (invariant_new capacity)
  exact invariant.sound

end Runs

/-- Two callers load the same cursor, and the slower one has to try again. -/
def twoCallers : List (ArenaEvent Bool) := [
  .call false 3 1,
  .call true 8 8,
  .load false 3 1 0,
  .load true 8 8 0,
  .exchange false,
  .exchangeFails true,
  .load true 8 8 3,
  .exchange true]

theorem twoCallers_run :
    ∃ arena,
      Run (Step .debug) (new Bool 64) twoCallers arena ∧
        arena.live = [⟨8, 8, 8⟩, ⟨0, 3, 1⟩] := by
  have first : afterLoad .debug 64 3 1 0 = .exchanging 3 1 0 0 3 := by
    decide
  have second : afterLoad .debug 64 8 8 3 = .exchanging 8 8 3 8 16 := by
    decide
  have stale : afterLoad .debug 64 8 8 0 = .exchanging 8 8 0 0 8 := by
    decide
  refine ⟨_, .cons (.call 3 1 rfl) (.cons (.call 8 8 rfl)
    (.cons (.load rfl (by decide)) (.cons (.load rfl (by decide))
      (.cons (.exchange first rfl) (.cons (.exchangeFails stale)
        (.cons (.load rfl (by decide)) (.cons (.exchange second rfl)
          (.nil _)))))))), rfl⟩

theorem twoCallers_are_sound :
    ∃ arena,
      Run (Step .debug) (new Bool 64) twoCallers arena ∧
        arena.live = [⟨8, 8, 8⟩, ⟨0, 3, 1⟩] ∧
        arena.AllocationsSound := by
  obtain ⟨arena, run, live⟩ := twoCallers_run
  refine ⟨arena, run, live, allocations_are_sound ?_ run⟩
  have one : Nat.isPowerOfTwo 1 := ⟨0, rfl⟩
  have eight : Nat.isPowerOfTwo 8 := ⟨3, rfl⟩
  simp [twoCallers, Fits, one, eight]

end SharedArena

end YieldDaemon
