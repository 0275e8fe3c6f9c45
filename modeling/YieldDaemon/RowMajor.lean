import Mathlib.Data.List.GetD

namespace RowMajor

/-!
# Matrices in row-major order

A matrix is stored as one list, row after row.  A list tabulates a matrix if it
has the right length and every cell holds the entry of its row and column.
-/

variable {Value Other : Type}

/-- The cells of a row. -/
def row (width i : Nat) (cells : List Value) : List Value :=
  (cells.drop (i * width)).take width

/-- The matrix with other cells in a row. -/
def setRow
    (width i : Nat)
    (values cells : List Value) :
    List Value :=
  cells.take (i * width) ++ values ++ cells.drop ((i + 1) * width)

/-- A list is read back from its entries. -/
theorem eq_map_getD
    {values : List Value}
    {count : Nat}
    (hasLength : values.length = count)
    (default : Value) :
    values = (List.range count).map (fun j => values.getD j default) := by
  apply List.ext_getElem
  · rw [List.length_map, List.length_range, hasLength]
  · intro j inside _
    rw [List.getElem_map, List.getElem_range, List.getD_eq_getElem?_getD,
      List.getElem?_eq_getElem inside, Option.getD_some]

/-- The list holds these entries. -/
structure Tabulates
    (rows width : Nat)
    (entry : Nat → Nat → Value)
    (cells : List Value) : Prop where
  length : cells.length = rows * width
  entries :
    ∀ i < rows, ∀ j < width, cells[i * width + j]? = some (entry i j)

variable
  {rows width i : Nat}
  {entry other : Nat → Nat → Value}
  {cells values : List Value}

namespace Tabulates

theorem congr
    (tabulates : Tabulates rows width entry cells)
    (same : ∀ i < rows, ∀ j < width, entry i j = other i j) :
    Tabulates rows width other cells where
  length := tabulates.length
  entries i iInside j jInside := by
    rw [← same i iInside j jInside]
    exact tabulates.entries i iInside j jInside

theorem getD_eq
    {j : Nat}
    (tabulates : Tabulates rows width entry cells)
    (iInside : i < rows)
    (jInside : j < width)
    (default : Value) :
    cells.getD (i * width + j) default = entry i j := by
  rw [List.getD_eq_getElem?_getD, tabulates.entries i iInside j jInside,
    Option.getD_some]

/-- A change of every cell changes every entry. -/
theorem map
    (tabulates : Tabulates rows width entry cells)
    (change : Value → Other) :
    Tabulates rows width (fun i j => change (entry i j))
      (cells.map change) where
  length := by rw [List.length_map, tabulates.length]
  entries i iInside j jInside := by
    rw [List.getElem?_map, tabulates.entries i iInside j jInside,
      Option.map_some]

/-- A row of a tabulated matrix lists its entries. -/
theorem row_eq
    (tabulates : Tabulates rows width entry cells)
    (iInside : i < rows) :
    row width i cells = (List.range width).map (entry i) := by
  apply List.ext_getElem?
  intro j
  unfold row
  by_cases inside : j < width
  · rw [List.getElem?_take_of_lt inside, List.getElem?_drop,
      tabulates.entries i iInside j inside, List.getElem?_map,
      List.getElem?_range inside, Option.map_some]
  · have beyond : width ≤ j := Nat.le_of_not_lt inside
    rw [List.getElem?_eq_none (Nat.le_trans (List.length_take_le _ _) beyond),
      List.getElem?_eq_none
        (by rwa [List.length_map, List.length_range])]

/-- A new row replaces the entries of that row. -/
theorem setRow
    (tabulates : Tabulates rows width entry cells)
    (iInside : i < rows)
    {fresh : Nat → Value}
    (isFresh : values = (List.range width).map fresh) :
    Tabulates rows width
      (fun row column => if row = i then fresh column else entry row column)
      (setRow width i values cells) := by
  have stop : i * width + width = (i + 1) * width :=
    (Nat.succ_mul i width).symm
  have stopInside : (i + 1) * width ≤ rows * width :=
    Nat.mul_le_mul_right width iInside
  have freshLength : values.length = width := by
    rw [isFresh, List.length_map, List.length_range]
  have beforeLength : (cells.take (i * width)).length = i * width := by
    rw [List.length_take, tabulates.length]
    omega
  have throughLength :
      (cells.take (i * width) ++ values).length = (i + 1) * width := by
    rw [List.length_append, beforeLength, freshLength, stop]
  unfold RowMajor.setRow
  refine ⟨?_, fun row rowInside column columnInside => ?_⟩
  · rw [List.length_append, throughLength, List.length_drop,
      tabulates.length]
    omega
  · have found := tabulates.entries row rowInside column columnInside
    rcases Nat.lt_trichotomy row i with before | rfl | after
    · -- The rows before the new one are the first part of the list.
      have rowStop : (row + 1) * width ≤ i * width :=
        Nat.mul_le_mul_right width before
      have inBefore : row * width + column < i * width := by
        rw [Nat.succ_mul] at rowStop
        omega
      rw [if_neg (Nat.ne_of_lt before),
        List.getElem?_append_left (by omega),
        List.getElem?_append_left (by omega),
        List.getElem?_take_of_lt inBefore, found]
    · rw [if_pos rfl, List.getElem?_append_left (by omega),
        List.getElem?_append_right (by omega), beforeLength,
        Nat.add_sub_cancel_left, isFresh, List.getElem?_map,
        List.getElem?_range columnInside, Option.map_some]
    · have inAfter : (i + 1) * width ≤ row * width :=
        Nat.mul_le_mul_right width after
      rw [if_neg (Nat.ne_of_gt after), List.getElem?_append_right (by omega),
        throughLength, List.getElem?_drop,
        Nat.add_sub_cancel' (Nat.le_trans inAfter (Nat.le_add_right _ _)), found]

end Tabulates

end RowMajor
