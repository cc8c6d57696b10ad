import Keystroke.Error

/-!
# Grids

A rectangle of cells with at least one row and one column, stored row by row.
-/

namespace Keystroke

/-- Cells in rows and columns, row by row. -/
structure Grid (α : Type) where
  rows : Nat
  cols : Nat
  cells : Vector α (rows * cols)
  rows_pos : 0 < rows
  cols_pos : 0 < cols

namespace Grid

variable {α β γ : Type}

/-- From here on a count of elements does not fit the word that state files have for it. -/
def sizeLimit : Nat := 0x80000000

/-- The count of cells. -/
def size (grid : Grid α) : Nat := grid.rows * grid.cols

/-- Refuse dimensions that are zero or ask for more cells than `memory` allows: so many find no memory. -/
def checkDimensions (memory rows cols : Nat) : Outcome Unit :=
  if rows = 0 ∨ cols = 0 then fail .dimensionError
  else if memory ≤ rows * cols then fail .insufficientMemory
  else .ok ()

/-- A grid with the same value in every cell. -/
def filled (memory rows cols : Nat) (value : α) : Outcome (Grid α) :=
  if positive : 0 < rows ∧ 0 < cols then
    if memory ≤ rows * cols then fail .insufficientMemory
    else .ok ⟨rows, cols, Vector.replicate (rows * cols) value, positive.1, positive.2⟩
  else fail .dimensionError

/-- A grid with the given cells, row by row. -/
def ofCells (rows cols : Nat) (cells : Array α) : Outcome (Grid α) :=
  if fits : (0 < rows ∧ 0 < cols) ∧ cells.size = rows * cols then
    .ok ⟨rows, cols, ⟨cells, fits.2⟩, fits.1.1, fits.1.2⟩
  else fail .dimensionError

/-- The place of a cell in row-by-row order. -/
theorem place_lt {rows cols i j : Nat} (inside : i < rows ∧ j < cols) :
    i * cols + j < rows * cols :=
  calc
    i * cols + j < i * cols + cols := Nat.add_lt_add_left inside.2 _
    _ = (i + 1) * cols := by rw [Nat.add_mul, Nat.one_mul]
    _ ≤ rows * cols := Nat.mul_le_mul_right _ inside.1

/-- The cell in a row and column, both counted from zero. -/
def get? (grid : Grid α) (i j : Nat) : Option α :=
  if inside : i < grid.rows ∧ j < grid.cols then
    some (grid.cells.get ⟨i * grid.cols + j, place_lt inside⟩)
  else none

/-- Replace the cell in a row and column. -/
def set (grid : Grid α) (i j : Nat) (value : α) : Outcome (Grid α) :=
  if inside : i < grid.rows ∧ j < grid.cols then
    .ok { grid with cells := grid.cells.set (i * grid.cols + j) value (place_lt inside) }
  else fail .dimensionError

/-- Change the dimensions, keeping the leading cells in row-by-row order and filling up. Only more cells
need memory. -/
def resize (grid : Grid α) (memory rows cols : Nat) (filler : α) : Outcome (Grid α) :=
  if positive : 0 < rows ∧ 0 < cols then
    if grid.size < rows * cols ∧ memory ≤ rows * cols then fail .insufficientMemory
    else
      .ok ⟨rows, cols, Vector.ofFn fun place => grid.cells.toArray.getD place filler,
        positive.1, positive.2⟩
  else fail .dimensionError

/-- Apply a function that may fail to every cell, in order. -/
def mapM (f : α → Outcome β) (grid : Grid α) : Outcome (Grid β) := do
  let cells ← grid.cells.mapM f
  return { grid with cells }

/-- Apply a function to every cell. -/
def map (f : α → β) (grid : Grid α) : Grid β := { grid with cells := grid.cells.map f }

/-- Combine two grids of one shape cell by cell, in order. -/
def zipM (f : α → β → Outcome γ) (left : Grid α) (right : Grid β) : Outcome (Grid γ) :=
  if same : left.rows = right.rows ∧ left.cols = right.cols then do
    let others := right.cells.cast (by rw [same.1, same.2])
    let cells ← (left.cells.zip others).mapM fun pair => f pair.1 pair.2
    return { left with cells }
  else fail .dimensionError

/-- Whether two grids have one shape and their cells agree. -/
def agrees (same : α → α → Bool) (left right : Grid α) : Bool :=
  left.rows == right.rows && left.cols == right.cols &&
    left.cells.toList.length == right.cells.toList.length &&
    (left.cells.toList.zip right.cells.toList).all fun pair => same pair.1 pair.2

end Grid

end Keystroke
