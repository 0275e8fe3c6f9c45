import YieldDaemon.WhileLoop

namespace TileLoops

open CheckedArithmetic WhileLoop

/-!
# Loops over the tiles of a range

A range is cut into tiles of one size, the last of them shorter, and a loop
visits one tile after the other.  What its rounds carry from the start of a
tile to its end holds at the end of the range.  The offset of the next tile is
a machine integer, so a range that ends within a tile of the largest one is
never left.
-/

/-- Where a loop stands, and what it computes. -/
structure Position (State : Type) where
  offset : Nat
  state : State

variable
  {State : Type}
  (profile : Profile)
  (width tile bound : Nat)
  (body : Nat → Nat → Nat → State → Fueled State)

/-- One tile: `let end = (offset + tile).min(bound)`, then `offset += tile`. -/
def tileRound (fuel : Nat) (position : Position State) :
    Fueled (Position State) := do
  let sum ← add profile width position.offset tile
  let state ← body fuel position.offset (min sum bound) position.state
  let offset ← add profile width position.offset tile
  return ⟨offset, state⟩

/-- `while offset < bound`, from the offset 0 on. -/
def tileLoop (fuel : Nat) (state : State) : Fueled State := do
  let final ←
    whileLoop (fun position => .ok (position.offset < bound))
      (tileRound profile width tile bound body) fuel ⟨0, state⟩
  return final.state

variable {profile width tile bound body}

/-- A round ends where its tile does. -/
theorem tileRound_ends
    {position : Position State}
    {next : State}
    (fits : position.offset + tile < 2 ^ width)
    (ends :
      EndsWith
        (fun fuel => body fuel position.offset
          (min (position.offset + tile) bound) position.state)
        next) :
    EndsWith
      (fun fuel => tileRound profile width tile bound body fuel position)
      ⟨position.offset + tile, next⟩ := by
  have summed :
      add profile width position.offset tile =
        .ok (position.offset + tile) :=
    add_of_lt fits
  exact EndsWith.lift_bind summed
    (ends.bind (EndsWith.lift_bind summed (EndsWith.pure _)))

/-- What every round carries over its tile holds at the end of the range. -/
theorem tileLoop_ends
    (keeps : Nat → State → Prop)
    (positive : 0 < tile)
    (fits : bound + tile ≤ 2 ^ width)
    (rounds :
      ∀ offset state, offset < bound → keeps offset state →
        ∃ next,
          EndsWith
              (fun fuel =>
                body fuel offset (min (offset + tile) bound) state)
              next ∧
            keeps (min (offset + tile) bound) next)
    {state : State}
    (start : keeps 0 state) :
    ∃ final,
      EndsWith
          (fun fuel => tileLoop profile width tile bound body fuel state)
          final ∧
        keeps bound final := by
  obtain ⟨last, ends, kept, past⟩ :=
    whileLoop_ends
      (fun position => .ok (position.offset < bound))
      (tileRound profile width tile bound body)
      (fun position => keeps (min position.offset bound) position.state)
      (fun position => position.offset < bound)
      (fun position => bound - position.offset)
      (fun _ _ => rfl)
      (by
        intro position kept inside
        rw [min_eq_left inside.le] at kept
        obtain ⟨next, ended, nextKept⟩ :=
          rounds position.offset position.state inside kept
        refine ⟨⟨position.offset + tile, next⟩,
          tileRound_ends (by omega) ended, nextKept, ?_⟩
        change bound - (position.offset + tile) < bound - position.offset
        omega)
      ⟨0, state⟩ (by rwa [Nat.zero_min])
  rw [min_eq_right (Nat.not_lt.mp past)] at kept
  exact ⟨last.state, ends.bind (EndsWith.pure _), kept⟩

/-- A round that returns has moved on by a tile, or around the integers. -/
theorem offset_of_tileRound
    {fuel : Nat}
    {position next : Position State}
    (returned :
      tileRound profile width tile bound body fuel position = pure next) :
    next.offset = (position.offset + tile) % 2 ^ width := by
  obtain ⟨sum, -, returned⟩ := bind_eq_pure.mp returned
  obtain ⟨state, -, returned⟩ := bind_eq_pure.mp returned
  obtain ⟨offset, stored, returned⟩ := bind_eq_pure.mp returned
  have same : (⟨offset, state⟩ : Position State) = next :=
    Option.some.inj (Except.ok.inj returned)
  rw [← same]
  exact (fit_eq_ok_iff.mp (lift_eq_pure.mp stored)).1.symm

/-- A loop whose last tile would reach beyond the largest integer never ends. -/
theorem tileLoop_never_ends
    (divides : tile ∣ 2 ^ width)
    (large : 2 ^ width < bound + tile)
    (state final : State) :
    ¬ EndsWith
      (fun fuel => tileLoop profile width tile bound body fuel state)
      final := by
  -- Every offset is a multiple of the tile, so it is in the range.
  have never :
      ∀ fuel (position last : Position State),
        tile ∣ position.offset → position.offset < 2 ^ width →
          whileLoop (fun position => .ok (position.offset < bound))
              (tileRound profile width tile bound body) fuel position ≠
            pure last := by
    intro fuel
    induction fuel with
    | zero =>
        intro position last _ _ returned
        exact absurd (Except.ok.inj returned) nofun
    | succ fuel inductionHypothesis =>
        intro position last multiple inside returned
        have inRange : position.offset < bound := by
          obtain ⟨count, isMultiple⟩ := multiple
          obtain ⟨total, isTotal⟩ := divides
          rw [isMultiple, isTotal] at inside
          have below : tile * (count + 1) ≤ tile * total :=
            Nat.mul_le_mul_left tile (Nat.lt_of_mul_lt_mul_left inside)
          rw [Nat.mul_succ, ← isMultiple, ← isTotal] at below
          omega
        rw [whileLoop, decide_eq_true inRange] at returned
        obtain ⟨_, isTrue, returned⟩ := bind_eq_pure.mp returned
        obtain rfl := Except.ok.inj (lift_eq_pure.mp isTrue)
        rw [if_pos rfl] at returned
        obtain ⟨next, moved, returned⟩ := bind_eq_pure.mp returned
        have offset := offset_of_tileRound moved
        refine inductionHypothesis next last ?_ ?_ returned
        · rw [offset]
          exact (Nat.dvd_mod_iff divides).mpr
            ((Nat.dvd_add_right multiple).mpr (dvd_refl tile))
        · rw [offset]
          exact Nat.mod_lt _ (Nat.two_pow_pos width)
  rintro ⟨enough, returns⟩
  obtain ⟨last, ended, -⟩ := bind_eq_pure.mp (returns enough (le_refl _))
  exact never enough ⟨0, state⟩ last (dvd_zero tile)
    (Nat.two_pow_pos width) ended

/-- `for i in lo..hi` carries what every step carries by one position. -/
theorem foldlM_range_keeps
    {step : State → Nat → Checked State}
    (keeps : Nat → State → Prop)
    {lo hi : Nat}
    (ordered : lo ≤ hi)
    (steps :
      ∀ i state, lo ≤ i → i < hi → keeps i state →
        ∃ next, step state i = .ok next ∧ keeps (i + 1) next)
    {state : State}
    (start : keeps lo state) :
    ∃ final,
      (List.range' lo (hi - lo)).foldlM step state = .ok final ∧
        keeps hi final := by
  obtain ⟨count, rfl⟩ := Nat.exists_eq_add_of_le ordered
  clear ordered
  rw [Nat.add_sub_cancel_left]
  induction count generalizing lo state with
  | zero =>
      exact ⟨state, rfl, start⟩
  | succ count inductionHypothesis =>
      obtain ⟨next, computed, nextKept⟩ :=
        steps lo state (le_refl lo) (by omega) start
      obtain ⟨final, laterComputed, kept⟩ :=
        @inductionHypothesis (lo + 1) next nextKept
          (fun i state above below =>
            steps i state (by omega) (by omega))
      refine ⟨final, ?_, ?_⟩
      · rw [List.range'_succ, List.foldlM_cons, computed, Checked.ok_bind,
          laterComputed]
      · rwa [Nat.add_right_comm] at kept

end TileLoops
