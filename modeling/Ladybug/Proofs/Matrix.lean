import Ladybug.Proofs.Boards
import Ladybug.Proofs.Checked.World
import Ladybug.Proofs.Searches
import Mathlib.Logic.Function.Basic

/-!
# Grids are matrices

The cells of a grid lie in one array, and a position is turned into a place of this array by
arithmetic. What the grid is meant to be is a matrix: a rectangle of positions, each with its own
contents. The contents of a matrix are said here without the array, as a function of positions. The
rows that a grid is made of give it its first contents, and every cell that is set afterwards
replaces the contents of one position. Whatever is then asked of the grid, it answers as the matrix
would: which positions have a cell and what it holds, which cells there are from row to row, and
which positions lie side by side.

A grid that is not too large is spared all arithmetic that would need more than 32 bits.

## Main definitions

* `Grid.Encloses` — the position is in a column and in a row of the grid.
* `Grid.cellOfRows` and `Grid.emptyCells` — the contents of new grids.
* `Grid.Given` — the grid was made and changed so that it was given these contents.
* `Grid.IsMatrix` — the grid is the matrix with these contents.

## Main results

* `Grid.cell?_ofRows` and `Grid.cell?_blank` — what is in the cells of a new grid.
* `Grid.ofRows_toRows` — a grid is made again from its rows.
* `Grid.mem_entries_iff` and `Grid.pairwise_entries` — all cells are listed, row after row.
* `Grid.atEdge_eq_false_iff` — which positions are not on the border.
* `Grid.Given.isMatrix` — a grid is the matrix that it was made to be.
-/

namespace Ladybug.Grid

open Flowchart

variable {g : Grid} {p q : Position} {rows : List (List Cell)}

/-! ### Contents -/

/-- The position is in a column and in a row of the grid, both counted from zero. -/
def Encloses (g : Grid) (p : Position) : Prop :=
  (0 ≤ p.column ∧ p.column < g.columns) ∧ 0 ≤ p.row ∧ p.row < g.rows

/-- The cell of a position in rows of cells: the one in its column of its row. -/
def cellOfRows (rows : List (List Cell)) (p : Position) : Option Cell :=
  if 0 ≤ p.column ∧ 0 ≤ p.row then rows[p.row.toNat]?.bind (·[p.column.toNat]?) else none

/-- The cell of a position in a rectangle of empty cells. -/
def emptyCells (columns rows : Nat) (p : Position) : Option Cell :=
  if (0 ≤ p.column ∧ p.column < columns) ∧ 0 ≤ p.row ∧ p.row < rows then some .empty else none

/-- The grid was given the contents: it was made of rows or of empty cells, with no more columns
and rows than a positive integer of 32 bits can count, and then cells inside it were set. -/
inductive Given : Grid → (Position → Option Cell) → Prop
  | ofRows {rows : List (List Cell)} {g : Grid} (h : Grid.ofRows rows = .ok g)
      (hcolumns : g.columns ≤ maxCoordinate) (hrows : g.rows ≤ maxCoordinate) :
      Given g (cellOfRows rows)
  | blank {columns rows : Nat} (hcolumns : columns ≤ maxCoordinate)
      (hrows : rows ≤ maxCoordinate) : Given (blank columns rows) (emptyCells columns rows)
  | set {g : Grid} {contents : Position → Option Cell} (h : Given g contents) {p : Position}
      (hp : g.Encloses p) (c : Cell) : Given (g.set p c) (Function.update contents p (some c))

/-- The grid is the matrix with the contents. -/
structure IsMatrix (g : Grid) (contents : Position → Option Cell) : Prop where
  size : g.cells.size = g.columns * g.rows
  cell? : ∀ p, g.cell? p = contents p
  encloses : ∀ p, (∃ c, g.cell? p = some c) ↔ g.Encloses p
  set : ∀ p, g.Encloses p → ∀ c, (g.set p c).cell? p = some c ∧
    ∀ q, q ≠ p → (g.set p c).cell? q = g.cell? q
  /-- The cells that are listed are those of the matrix. -/
  entries : ∀ p c, (p, c) ∈ g.entries ↔ contents p = some c
  /-- They are listed row after row, and none of them is listed twice. -/
  order : g.entries.Pairwise fun e f => e.1.Before f.1
  neighbors : ∀ p q, q ∈ g.neighbors p ↔ Adjacent p q ∧ g.Encloses q
  /-- Neighbors are listed clockwise from above, each of them once. -/
  clockwise : ∀ p, (g.neighbors p).Sublist [⟨p.column, p.row - 1⟩, ⟨p.column + 1, p.row⟩,
    ⟨p.column, p.row + 1⟩, ⟨p.column - 1, p.row⟩]
  symmetric : ∀ p q, g.Encloses p → g.Encloses q → (q ∈ g.neighbors p ↔ p ∈ g.neighbors q)
  atEdge : ∀ p, g.atEdge p = false ↔
    (0 < p.column ∧ p.column < g.columns - 1) ∧ 0 < p.row ∧ p.row < g.rows - 1
  /-- The positions that are listed need no more than 32 bits. -/
  fits : ∀ e ∈ g.entries, Checked.Fits e.1.column ∧ Checked.Fits e.1.row
  /-- Nor do the steps from a position to its neighbors. -/
  steps : ∀ p, g.Encloses p → Checked.neighbors g p = .ok (g.neighbors p)

theorem encloses_iff : g.Encloses p ↔ g.inBounds p := inBounds_iff.symm

/-- The positions that have a cell are those in the columns and rows. -/
theorem exists_cell?_iff : (∃ c, g.cell? p = some c) ↔ g.Encloses p := by
  rw [← Option.isSome_iff_exists, isSome_cell?, encloses_iff]

/-! ### New grids -/

/-- The grid made of rows has their cells, and no others. -/
theorem cell?_ofRows (h : ofRows rows = .ok g) (p : Position) : g.cell? p = cellOfRows rows p := by
  obtain ⟨hcolumns, hrows⟩ := shape_of_ofRows h
  by_cases hp : g.inBounds p
  · obtain ⟨row, hrow, column, hcolumn, rfl⟩ := exists_place hp
    rw [← hrows] at hrow
    have hlength := hcolumns _ (List.getElem_mem hrow)
    have hcell := List.getElem?_eq_getElem (hlength.symm ▸ hcolumn : column < rows[row].length)
    rw [cell?_of_ofRows h (List.getElem?_eq_getElem hrow) hcell, cellOfRows,
      if_pos ⟨Int.natCast_nonneg _, Int.natCast_nonneg _⟩, Int.toNat_natCast, Int.toNat_natCast,
      List.getElem?_eq_getElem hrow, Option.bind_some, hcell]
  · rw [cell?_eq_none hp, cellOfRows]
    split
    · next hnonneg =>
        cases hrow : rows[p.row.toNat]? with
        | none => rfl
        | some cells =>
            -- The row is there, so it is the column that is too far to the right.
            obtain ⟨hlt, rfl⟩ := List.getElem?_eq_some_iff.mp hrow
            have hlength := hcolumns _ (List.getElem_mem hlt)
            rw [inBounds_iff] at hp
            rw [Option.bind_some, List.getElem?_eq_none (by omega)]
    · rfl

/-- All cells of a blank grid are empty. -/
theorem cell?_blank (columns rows : Nat) (p : Position) :
    (blank columns rows).cell? p = emptyCells columns rows p := by
  rw [emptyCells]
  split
  · next h =>
      have hp : (blank columns rows).inBounds p := inBounds_iff.mpr h
      have hlt := offset_lt hp
      rw [cell?, if_pos hp, Array.getElem?_eq_getElem hlt]
      exact congrArg some (Array.getElem_replicate hlt)
  · next h => exact cell?_eq_none (mt inBounds_iff.mp h)

/-! ### Rows -/

/-- Each row has one cell for each column. -/
theorem filterMap_rowPositions {row : Nat} (hrow : row < g.rows) :
    (g.rowPositions row).filterMap g.cell? =
      (g.rowPositions row).map fun p => (g.cell? p).getD .empty := by
  refine List.filterMap_eq_map_iff_forall_eq_some.mpr fun p hp => ?_
  obtain ⟨column, hcolumn, rfl⟩ := List.mem_map.mp hp
  obtain ⟨c, hc⟩ := exists_cell? (inBounds_of_lt hrow (List.mem_range.mp hcolumn))
  rw [hc, Option.getD_some]

/-- The rows of a grid are as many as it has, and as long as it has columns. -/
theorem shape_toRows (g : Grid) :
    g.toRows.length = g.rows ∧ ∀ cells ∈ g.toRows, cells.length = g.columns := by
  refine ⟨by rw [toRows, List.length_map, List.length_range], fun cells hcells => ?_⟩
  obtain ⟨row, hrow, rfl⟩ := List.mem_map.mp hcells
  rw [filterMap_rowPositions (List.mem_range.mp hrow), List.length_map, rowPositions,
    List.length_map, List.length_range]

/-- The rows of a grid hold its cells. -/
theorem cellOfRows_toRows (h : g.inBounds p) : cellOfRows g.toRows p = g.cell? p := by
  obtain ⟨row, hrow, column, hcolumn, rfl⟩ := exists_place h
  have hlookup : g.toRows[row]? =
      some ((g.rowPositions row).map fun p => (g.cell? p).getD .empty) := by
    rw [toRows, List.getElem?_map, List.getElem?_range hrow, Option.map_some,
      filterMap_rowPositions hrow]
  have hposition : (g.rowPositions row)[column]? = some ⟨column, row⟩ := by
    rw [rowPositions, List.getElem?_map, List.getElem?_range hcolumn, Option.map_some]
  obtain ⟨c, hc⟩ := exists_cell? h
  rw [cellOfRows, if_pos ⟨Int.natCast_nonneg _, Int.natCast_nonneg _⟩, Int.toNat_natCast,
    Int.toNat_natCast, hlookup, Option.bind_some, List.getElem?_map, hposition, Option.map_some,
    hc, Option.getD_some]

/-- **A grid with a cell is made again from its rows.** -/
theorem ofRows_toRows (hcolumns : 0 < g.columns) (hrows : 0 < g.rows) :
    ofRows g.toRows = .ok g := by
  obtain ⟨hlength, hshape⟩ := g.shape_toRows
  obtain ⟨first, below, htoRows⟩ := List.exists_cons_of_length_pos (hlength.symm ▸ hrows)
  have hfirst : first.length = g.columns := hshape first (htoRows ▸ List.mem_cons_self)
  have hbelow : ∀ cells ∈ below, cells.length = first.length := fun cells hcells =>
    (hshape cells (htoRows ▸ List.mem_cons_of_mem _ hcells)).trans hfirst.symm
  obtain ⟨g', hg'⟩ := exists_ofRows (List.ne_nil_of_length_pos (hfirst.symm ▸ hcolumns)) hbelow
  rw [← htoRows] at hg'
  obtain ⟨hcolumns', hrows'⟩ := shape_of_ofRows hg'
  have hcolumns' : g'.columns = g.columns :=
    (hcolumns' first (htoRows ▸ List.mem_cons_self)).symm.trans hfirst
  have hrows' : g'.rows = g.rows := hrows'.symm.trans hlength
  refine hg'.trans (congrArg _ (eq_of_cell? hcolumns' hrows' fun p => ?_))
  by_cases hp : g.inBounds p
  · rw [cell?_ofRows hg', cellOfRows_toRows hp]
  · rw [cell?_eq_none hp, cell?_eq_none]
    rwa [inBounds_iff, hcolumns', hrows', ← inBounds_iff]

/-! ### All cells -/

/-- In a countable grid each cell is listed with its own position. -/
theorem entries_eq (hg : g.Countable) :
    g.entries = g.cells.toList.zipIdx.map fun (cell, i) =>
      (⟨(i % g.columns : Nat), (i / g.columns : Nat)⟩, cell) := by
  refine List.map_congr_left fun (cell, i) hmem => congrArg (·, cell) ?_
  have hcell := List.mem_zipIdx_iff_getElem?.mp hmem
  rw [Array.getElem?_toList] at hcell
  obtain ⟨hi, -⟩ := Array.getElem?_eq_some_iff.mp hcell
  exact hg.wrapped_eq (inBounds_of_cell? (g.cell?_of_offset hi))

/-- The cells that are listed are those of the grid. -/
theorem mem_entries_iff (hg : g.Countable) {c : Cell} :
    (p, c) ∈ g.entries ↔ g.cell? p = some c := by
  rw [entries_eq hg, List.mem_map]
  constructor
  · rintro ⟨⟨cell, i⟩, hmem, heq⟩
    obtain ⟨rfl, rfl⟩ := Prod.mk.inj heq
    have hcell : g.cells[i]? = some cell := by
      rw [← Array.getElem?_toList]
      exact List.mem_zipIdx_iff_getElem?.mp hmem
    obtain ⟨hi, hcell⟩ := Array.getElem?_eq_some_iff.mp hcell
    exact (g.cell?_of_offset hi).trans (congrArg some hcell)
  · intro h
    have hp := inBounds_of_cell? h
    have hplace := g.cell?_of_offset (offset_lt hp)
    have hsame := offset_inj (inBounds_of_cell? hplace) hp (g.offset_place _)
    refine ⟨(c, g.offset p), List.mem_zipIdx_iff_getElem?.mpr ?_, congrArg (·, c) hsame⟩
    rw [cell?, if_pos hp] at h
    rw [Array.getElem?_toList, h]

/-- What comes later in the array comes later in the order of reading. -/
theorem before_of_lt (columns : Nat) {i j : Nat} (h : i < j) :
    Position.Before ⟨(i % columns : Nat), (i / columns : Nat)⟩
      ⟨(j % columns : Nat), (j / columns : Nat)⟩ := by
  rcases Nat.lt_or_eq_of_le (Nat.div_le_div_right (c := columns) h.le) with hrow | hrow
  · exact .inl (Int.ofNat_lt.mpr hrow)
  · have hi := Nat.div_add_mod i columns
    have hj := Nat.div_add_mod j columns
    rw [hrow] at hi
    exact .inr ⟨congrArg Nat.cast hrow, Int.ofNat_lt.mpr (by omega)⟩

/-- The cells are listed in the order of reading. -/
theorem pairwise_entries (hg : g.Countable) : g.entries.Pairwise fun e f => e.1.Before f.1 := by
  have hplaces : g.cells.toList.zipIdx.Pairwise fun x y => x.2 < y.2 := by
    rw [← List.pairwise_map, List.zipIdx_map_snd]
    exact List.pairwise_lt_range'
  rw [entries_eq hg, List.pairwise_map]
  exact hplaces.imp fun h => before_of_lt g.columns h

/-! ### Neighbors -/

/-- Positions lie side by side in either order. -/
theorem Adjacent.symm (h : Adjacent p q) : Adjacent q p := by
  rw [Adjacent] at h ⊢
  omega

/-- A position is not at the edge if a step in each direction stays inside. -/
theorem atEdge_eq_false_iff :
    g.atEdge p = false ↔
      (0 < p.column ∧ p.column < g.columns - 1) ∧ 0 < p.row ∧ p.row < g.rows - 1 := by
  have hall : g.atEdge p = false ↔ ∀ d ∈ Direction.all, g.inBounds (p.step d) := by
    have hle := List.length_filter_le g.inBounds (Direction.all.map p.step)
    have heq := List.length_filter_eq_length_iff (p := g.inBounds) (l := Direction.all.map p.step)
    rw [List.forall_mem_map] at heq
    rw [← heq, Grid.atEdge, neighbors, decide_eq_false_iff_not, Nat.not_lt]
    rw [List.length_map] at hle ⊢
    exact ⟨hle.antisymm, Eq.ge⟩
  rw [hall]
  simp only [Direction.all, List.forall_mem_cons, List.not_mem_nil, IsEmpty.forall_iff,
    implies_true, and_true, inBounds_iff, Position.step, Direction.delta]
  omega

/-! ### Matrices -/

/-- A grid is the matrix of its cells, if it is not too large. -/
theorem isMatrix_cell? (hcolumns : g.columns ≤ maxCoordinate) (hrows : g.rows ≤ maxCoordinate) :
    g.IsMatrix g.cell? where
  size := g.size_cells
  cell? _ := rfl
  encloses _ := exists_cell?_iff
  set p hp c := by
    have hset := cell?_set (encloses_iff.mp hp) c
    exact ⟨(hset p).trans (if_pos rfl), fun q hq => (hset q).trans (if_neg hq)⟩
  entries _ _ := mem_entries_iff (small_of_le hcolumns hrows).countable
  order := pairwise_entries (small_of_le hcolumns hrows).countable
  neighbors p q := by rw [mem_neighbors_iff, adjacent_iff, encloses_iff]
  clockwise p := by
    have hsteps : Direction.all.map p.step = [⟨p.column, p.row - 1⟩, ⟨p.column + 1, p.row⟩,
        ⟨p.column, p.row + 1⟩, ⟨p.column - 1, p.row⟩] := by
      simp [Direction.all, Position.step, Direction.delta, Int.sub_eq_add_neg]
    rw [← hsteps]
    exact List.filter_sublist
  symmetric p q hp hq := by
    rw [mem_neighbors_iff, mem_neighbors_iff, ← adjacent_iff, ← adjacent_iff]
    exact ⟨fun h => ⟨h.1.symm, encloses_iff.mp hp⟩, fun h => ⟨h.1.symm, encloses_iff.mp hq⟩⟩
  atEdge _ := atEdge_eq_false_iff
  fits e he := by
    have hcell := (mem_entries_iff (small_of_le hcolumns hrows).countable).mp he
    obtain ⟨⟨hcolumn, hcolumn'⟩, hrow, hrow'⟩ := exists_cell?_iff.mp ⟨_, hcell⟩
    unfold Checked.Fits maxCoordinate at *
    omega
  steps p hp := Checked.neighbors_eq (small_of_le hcolumns hrows) (encloses_iff.mp hp)

/-- The cells of a grid are those that it was given, and it is not too large. -/
theorem Given.cell?_eq {contents : Position → Option Cell} (h : Given g contents) :
    g.cell? = contents ∧ g.columns ≤ maxCoordinate ∧ g.rows ≤ maxCoordinate := by
  induction h with
  | ofRows h hcolumns hrows => exact ⟨funext (cell?_ofRows h), hcolumns, hrows⟩
  | blank hcolumns hrows => exact ⟨funext (cell?_blank _ _), hcolumns, hrows⟩
  | @set g contents h p hp c ih =>
      obtain ⟨hcell, hcolumns, hrows⟩ := ih
      rw [columns_set, rows_set]
      refine ⟨funext fun q => ?_, hcolumns, hrows⟩
      rw [cell?_set (encloses_iff.mp hp), Function.update_apply, hcell]

/-- **A grid is the matrix that it was made to be**, whatever cells were set since. -/
theorem Given.isMatrix {contents : Position → Option Cell} (h : Given g contents) :
    g.IsMatrix contents := by
  obtain ⟨rfl, hcolumns, hrows⟩ := h.cell?_eq
  exact isMatrix_cell? hcolumns hrows

/-- Two rows of three cells, with the leaf replaced by a mushroom and the cell in the corner by a
tree. -/
theorem isMatrix_of_two_rows :
    let rows : List (List Cell) := [[.empty, .leaf, .empty], [.tree, .empty, .empty]]
    ∃ g, Grid.ofRows rows = .ok g ∧
      ((g.set ⟨1, 0⟩ .mushroom).set ⟨2, 1⟩ .tree).IsMatrix
        (Function.update (Function.update (cellOfRows rows) ⟨1, 0⟩ (some .mushroom)) ⟨2, 1⟩
          (some .tree)) := by
  intro rows
  obtain ⟨g, hg⟩ : ∃ g, Grid.ofRows rows = .ok g := ⟨_, rfl⟩
  obtain ⟨hcolumns, hrows⟩ := shape_of_ofRows hg
  have hcolumns : g.columns = 3 := (hcolumns _ List.mem_cons_self).symm
  have hrows : g.rows = 2 := hrows.symm
  have hgiven : Given g (cellOfRows rows) :=
    .ofRows hg (by rw [hcolumns]; decide) (by rw [hrows]; decide)
  have hfirst : g.Encloses ⟨1, 0⟩ := by simp [Encloses, hcolumns, hrows]
  have hsecond : (g.set ⟨1, 0⟩ .mushroom).Encloses ⟨2, 1⟩ := by simp [Encloses, hcolumns, hrows]
  exact ⟨g, hg, Given.isMatrix ((hgiven.set hfirst .mushroom).set hsecond .tree)⟩

end Ladybug.Grid
