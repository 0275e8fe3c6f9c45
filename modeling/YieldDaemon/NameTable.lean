import Mathlib.Data.List.Nodup
import Mathlib.Data.List.Infix

namespace NameTable

/-!
# Name tables

A table gives names consecutive numbers in the order of their first use: a name
that it has keeps its number, and any other name gets the next one.
-/

variable {Name : Type} [DecidableEq Name]

/-- The table with a name in it. -/
def enter (names : List Name) (name : Name) : List Name :=
  if name ∈ names then
    names
  else
    names ++ [name]

variable {names used : List Name} {name other : Name}

@[simp] theorem mem_enter :
    other ∈ enter names name ↔ other ∈ names ∨ other = name := by
  unfold enter
  split
  next known =>
    constructor
    · exact .inl
    · rintro (member | rfl)
      · exact member
      · exact known
  next =>
    simp

theorem nodup_enter (distinct : names.Nodup) : (enter names name).Nodup := by
  unfold enter
  split
  next =>
    exact distinct
  next new =>
    refine List.nodup_append.mpr ⟨distinct, List.nodup_singleton name, ?_⟩
    rintro earlier member last isLast rfl
    obtain rfl := List.mem_singleton.mp isLast
    exact new member

/-- A name gets its number where it is entered first. -/
theorem idxOf_enter_self : (enter names name).idxOf name = names.idxOf name := by
  unfold enter
  split
  next =>
    rfl
  next new =>
    rw [List.idxOf_append_of_notMem new, List.idxOf_eq_length new]
    simp

/-- A name of the table keeps its number. -/
theorem idxOf_enter_of_mem (member : other ∈ names) :
    (enter names name).idxOf other = names.idxOf other := by
  unfold enter
  split
  · rfl
  · exact List.idxOf_append_of_mem member

theorem length_enter_le : (enter names name).length ≤ names.length + 1 := by
  unfold enter
  split
  · exact Nat.le_succ _
  · simp

end NameTable
