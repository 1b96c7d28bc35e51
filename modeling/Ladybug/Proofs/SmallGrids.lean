import Ladybug.Flowchart.Coordinates
import Ladybug.Grid

/-!
# Grids that 32 bits can count

A grid may have any number of columns and rows, but a coordinate has 32 bits. As long as no column
and no row of a grid needs more, its positions can be told apart by their coordinates. Beyond that
the coordinates start over from the smallest negative one, so that a place of the grid is taken for
one outside of it, or for another place.

Places are counted from zero. Users count them from one, and a step leads one further as well, so a
grid in which that may be done is smaller by one column and one row.

## Main definitions

* `Grid.Countable` — coordinates inside the grid can be counted from zero.
* `Grid.Small` — they can be counted from one.

## Main results

* `Grid.Countable.wrapped_eq`, `Grid.Countable.ofPlace_eq` — no position inside is lost.
-/

namespace Ladybug

open Flowchart

/-- Positions inside the grid can be counted from zero with 32 bits. -/
def Grid.Countable (g : Grid) : Prop :=
  ∀ p, g.inBounds p → p.column ≤ maxCoordinate ∧ p.row ≤ maxCoordinate

/-- Positions inside the grid can be counted from one with 32 bits. -/
def Grid.Small (g : Grid) : Prop :=
  ∀ p, g.inBounds p → p.column < maxCoordinate ∧ p.row < maxCoordinate

/-- A position that was counted from zero is kept if a positive integer of 32 bits can count that
far. -/
theorem Position.ofPlace_eq {column row : Nat} (hcolumn : column ≤ maxCoordinate)
    (hrow : row ≤ maxCoordinate) : ofPlace column row = ⟨column, row⟩ := by
  unfold maxCoordinate at hcolumn hrow
  exact wrapped_eq ⟨by dsimp only; omega, by dsimp only; omega⟩
    ⟨by dsimp only; omega, by dsimp only; omega⟩

/-- The first column that is one too many is taken for the leftmost column of all. -/
theorem Position.ofPlace_beyond : ofPlace 0x80000000 0 = ⟨-0x80000000, 0⟩ := by decide

namespace Grid

variable {g g' : Grid} {p : Position}

/-- A small grid can be counted from zero as well. -/
theorem Small.countable (h : g.Small) : g.Countable := fun p hp =>
  (h p hp).imp Int.le_of_lt Int.le_of_lt

/-- Being small depends on the bounds only. -/
theorem Small.congr (h : g.Small) (hbounds : ∀ p, g'.inBounds p = g.inBounds p) : g'.Small :=
  fun p hp => h p (hbounds p ▸ hp)

/-- So does being countable. -/
theorem Countable.congr (h : g.Countable) (hbounds : ∀ p, g'.inBounds p = g.inBounds p) :
    g'.Countable :=
  fun p hp => h p (hbounds p ▸ hp)

/-- A grid is small if it has no more columns and rows than a positive integer can count. -/
theorem small_of_le (hcolumns : g.columns ≤ maxCoordinate) (hrows : g.rows ≤ maxCoordinate) :
    g.Small := by
  intro p hp
  obtain ⟨⟨-, hcolumn⟩, -, hrow⟩ := inBounds_iff.mp hp
  exact ⟨by omega, by omega⟩

/-- Each place of a countable grid has a position of its own. -/
theorem Countable.ofPlace_eq (h : g.Countable) {row column : Nat} (hrow : row < g.rows)
    (hcolumn : column < g.columns) : .ofPlace column row = (⟨column, row⟩ : Position) := by
  obtain ⟨hle, hle'⟩ := h _ (inBounds_of_lt hrow hcolumn)
  exact Position.ofPlace_eq hle hle'

/-- No position inside a countable grid is lost. -/
theorem Countable.wrapped_eq (h : g.Countable) (hp : g.inBounds p) : p.wrapped = p := by
  obtain ⟨row, hrow, column, hcolumn, rfl⟩ := exists_place hp
  exact h.ofPlace_eq hrow hcolumn

end Grid

end Ladybug
