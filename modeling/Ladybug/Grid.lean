import Ladybug.Position

/-!
# The grid of cells

A grid is a rectangle of cells. The cells are kept in one flat array, row after row, so
that the cell in a column of a row lies at `row * columns + column`. The shape is fixed
when the grid is made; afterwards only the contents of cells change.

Positions outside the grid are ordinary arguments: they have no cell, and setting one of
them changes nothing.

## Main definitions

* `Cell` — what a cell may hold, with the board symbols.
* `Grid` — the rectangle; `Grid.ofRows` and `Grid.blank` make one.
* `Grid.cell?`, `Grid.set`, `Grid.entries` — reading, writing, listing.
* `Grid.neighbors` — the adjacent cells inside the grid.
* `GridError` — why a board has no grid.

## Main results

* `Grid.offset_inj` — different positions have different cells.
* `Grid.eq_of_cell?` — a grid is told by its bounds and its cells.
* `Grid.cell?_set` — setting a cell changes that cell and no other.
-/

namespace Ladybug

/-! ### Cells -/

/-- The contents of one cell. -/
inductive Cell where
  /-- Nothing. -/
  | empty
  /-- An obstacle that nothing passes. -/
  | tree
  /-- A mark that a ladybug places and takes. -/
  | leaf
  /-- An obstacle that a ladybug pushes. -/
  | mushroom
deriving DecidableEq, Inhabited

namespace Cell

/-- All cell contents. -/
def all : List Cell := [empty, tree, leaf, mushroom]

/-- The character that shows the contents on a board. -/
def symbol : Cell → Char
  | empty => '.'
  | tree => '#'
  | leaf => '*'
  | mushroom => 'o'

/-- The contents that a board character shows, if it shows any. -/
def ofSymbol? (c : Char) : Option Cell :=
  all.find? fun cell => cell.symbol == c

/-- The name of the contents. -/
def name : Cell → String
  | empty => "empty"
  | tree => "tree"
  | leaf => "leaf"
  | mushroom => "mushroom"

/-- All contents are read back from their symbol. -/
@[simp] theorem ofSymbol?_symbol (c : Cell) : ofSymbol? c.symbol = some c := by
  cases c <;> rfl

end Cell

/-! ### Why a board has no grid -/

/-- The ways in which a board fails to describe a grid with ladybugs. Rows and columns are
counted from one, as a user counts them. -/
inductive GridError where
  /-- There is no row, or the first row has no cells. -/
  | empty
  /-- A character that shows neither a cell nor a ladybug. -/
  | unknownSymbol (symbol : Char) (row column : Nat)
  /-- A row whose length differs from the first row's. -/
  | raggedRow (row expected got : Nat)
  /-- No ladybug stands on the board. -/
  | noLadybugs
deriving DecidableEq

/-- The message shown to the user. -/
def GridError.message : GridError → String
  | .empty => "board has no cells"
  | .unknownSymbol symbol row column =>
    s!"invalid cell symbol '{symbol}' at row {row}, column {column}"
  | .raggedRow row expected got => s!"row {row} has {got} cells, expected {expected}"
  | .noLadybugs => "no ladybug on board"

/-! ### Grids -/

/-- A rectangle of cells, stored row after row. -/
structure Grid where
  columns : Nat
  rows : Nat
  cells : Array Cell
  /-- There is exactly one cell for each column of each row. -/
  size_cells : cells.size = columns * rows
deriving DecidableEq

namespace Grid

/-- The position lies inside the grid. -/
def inBounds (g : Grid) (p : Position) : Bool :=
  0 ≤ p.column && 0 ≤ p.row && p.column < g.columns && p.row < g.rows

/-- Where the cell of a position is stored. -/
def offset (g : Grid) (p : Position) : Nat := p.row.toNat * g.columns + p.column.toNat

/-- The cell at a position, if the position lies inside the grid. -/
def cell? (g : Grid) (p : Position) : Option Cell :=
  if g.inBounds p then g.cells[g.offset p]? else none

/-- The grid with one cell replaced. A position outside changes nothing. -/
def set (g : Grid) (p : Position) (c : Cell) : Grid :=
  if g.inBounds p then
    { g with
      cells := g.cells.setIfInBounds (g.offset p) c
      size_cells := by simp [g.size_cells] }
  else g

/-- The position lies inside the grid and its cell is empty. -/
def isEmpty (g : Grid) (p : Position) : Bool := g.cell? p == some .empty

/-- The adjacent positions inside the grid: above, to the right, below, to the left. -/
def neighbors (g : Grid) (p : Position) : List Position :=
  (Direction.all.map p.step).filter g.inBounds

/-- Fewer than four adjacent positions lie inside the grid. -/
def atEdge (g : Grid) (p : Position) : Bool :=
  (g.neighbors p).length < Direction.all.length

/-- Every position of the grid with its cell, row after row. -/
def entries (g : Grid) : List (Position × Cell) :=
  g.cells.toList.zipIdx.map fun (cell, i) => (.ofPlace (i % g.columns) (i / g.columns), cell)

/-- The positions of one row, from left to right. -/
def rowPositions (g : Grid) (row : Nat) : List Position :=
  (List.range g.columns).map fun (column : Nat) => ⟨column, row⟩

/-- The grid as rows of cells, from top to bottom. -/
def toRows (g : Grid) : List (List Cell) :=
  (List.range g.rows).map fun row => (g.rowPositions row).filterMap g.cell?

/-! ### Where cells are -/

/-- The columns and rows of positions inside the grid. -/
theorem inBounds_iff {g : Grid} {p : Position} :
    g.inBounds p ↔ (0 ≤ p.column ∧ p.column < g.columns) ∧ 0 ≤ p.row ∧ p.row < g.rows := by
  simp only [inBounds, Bool.and_eq_true, decide_eq_true_eq]
  constructor
  · rintro ⟨⟨⟨hc, hr⟩, hc'⟩, hr'⟩
    exact ⟨⟨hc, hc'⟩, hr, hr'⟩
  · rintro ⟨⟨hc, hc'⟩, hr, hr'⟩
    exact ⟨⟨⟨hc, hr⟩, hc'⟩, hr'⟩

/-- Positions inside the grid have their cell inside the array. -/
theorem offset_lt {g : Grid} {p : Position} (h : g.inBounds p) : g.offset p < g.cells.size := by
  obtain ⟨⟨hc, hc'⟩, hr, hr'⟩ := inBounds_iff.mp h
  have hcol : p.column.toNat < g.columns := by omega
  have hrow : p.row.toNat + 1 ≤ g.rows := by omega
  calc g.offset p < p.row.toNat * g.columns + g.columns := by unfold offset; omega
    _ = (p.row.toNat + 1) * g.columns := (Nat.succ_mul _ _).symm
    _ ≤ g.rows * g.columns := Nat.mul_le_mul_right _ hrow
    _ = g.cells.size := by rw [g.size_cells, Nat.mul_comm]

/-- Different positions inside the grid have different cells. -/
theorem offset_inj {g : Grid} {p q : Position} (hp : g.inBounds p) (hq : g.inBounds q)
    (h : g.offset p = g.offset q) : p = q := by
  obtain ⟨⟨hc, hc'⟩, hr, hr'⟩ := inBounds_iff.mp hp
  obtain ⟨⟨kc, kc'⟩, kr, kr'⟩ := inBounds_iff.mp hq
  have hcol : p.column.toNat < g.columns := by omega
  have kcol : q.column.toNat < g.columns := by omega
  have hpos : 0 < g.columns := by omega
  unfold offset at h
  have hdiv := congrArg (· / g.columns) h
  have hmod := congrArg (· % g.columns) h
  simp only [Nat.mul_add_mod_of_lt hcol, Nat.mul_add_mod_of_lt kcol] at hmod
  simp only [Nat.mul_comm _ g.columns, Nat.mul_add_div hpos, Nat.div_eq_of_lt hcol,
    Nat.div_eq_of_lt kcol] at hdiv
  ext <;> omega

/-- Columns and rows of the grid make a position inside it. -/
theorem inBounds_of_lt {g : Grid} {row column : Nat} (hrow : row < g.rows)
    (hcolumn : column < g.columns) : g.inBounds ⟨column, row⟩ :=
  inBounds_iff.mpr ⟨⟨Int.natCast_nonneg _, Int.ofNat_lt.mpr hcolumn⟩, Int.natCast_nonneg _,
    Int.ofNat_lt.mpr hrow⟩

/-- A position inside the grid is made of a column and a row of it. -/
theorem exists_place {g : Grid} {p : Position} (h : g.inBounds p) :
    ∃ row < g.rows, ∃ column < g.columns, p = ⟨(column : Nat), (row : Nat)⟩ := by
  obtain ⟨⟨hc, hc'⟩, hr, hr'⟩ := inBounds_iff.mp h
  refine ⟨p.row.toNat, by omega, p.column.toNat, by omega, ?_⟩
  rw [Int.toNat_of_nonneg hc, Int.toNat_of_nonneg hr]

/-- The positions that have a cell are those inside the grid. -/
@[simp] theorem isSome_cell? (g : Grid) (p : Position) : (g.cell? p).isSome = g.inBounds p := by
  unfold cell?
  by_cases h : g.inBounds p <;> simp [h, offset_lt]

/-- A position inside the grid has a cell. -/
theorem exists_cell? {g : Grid} {p : Position} (h : g.inBounds p) : ∃ c, g.cell? p = some c :=
  Option.isSome_iff_exists.mp ((g.isSome_cell? p).trans h)

/-- A position with a cell lies inside the grid. -/
theorem inBounds_of_cell? {g : Grid} {p : Position} {c : Cell} (h : g.cell? p = some c) :
    g.inBounds p := by
  rw [← isSome_cell?, h]
  rfl

/-- A position outside the grid has no cell. -/
theorem cell?_eq_none {g : Grid} {p : Position} (h : ¬ g.inBounds p) : g.cell? p = none :=
  if_neg h

/-- The position of a place of the array is stored in that place. -/
theorem offset_place (g : Grid) (i : Nat) :
    g.offset ⟨(i % g.columns : Nat), (i / g.columns : Nat)⟩ = i := by
  rw [offset, Int.toNat_natCast, Int.toNat_natCast]
  exact Nat.div_add_mod' i g.columns

/-- Every place of the array is the cell of a position. -/
theorem cell?_of_offset (g : Grid) {i : Nat} (hi : i < g.cells.size) :
    g.cell? ⟨(i % g.columns : Nat), (i / g.columns : Nat)⟩ = some g.cells[i] := by
  have hsize := g.size_cells
  have hpos : 0 < g.columns := Nat.pos_of_mul_pos_right (by omega : 0 < g.columns * g.rows)
  have hcolumn : i % g.columns < g.columns := Nat.mod_lt i hpos
  have hrow : i / g.columns < g.rows := by
    rw [Nat.div_lt_iff_lt_mul hpos, Nat.mul_comm, ← hsize]
    exact hi
  rw [cell?, if_pos (inBounds_of_lt hrow hcolumn), offset_place, Array.getElem?_eq_getElem hi]

/-- A grid is told by its bounds and by the contents of its cells. -/
theorem eq_of_cell? {g g' : Grid} (hcolumns : g.columns = g'.columns) (hrows : g.rows = g'.rows)
    (hcell : ∀ p, g.cell? p = g'.cell? p) : g = g' := by
  have hsize : g.cells.size = g'.cells.size := by
    rw [g.size_cells, g'.size_cells, hcolumns, hrows]
  have hcells : g.cells = g'.cells := by
    refine Array.ext hsize fun i hi hi' => Option.some.inj ?_
    rw [← g.cell?_of_offset hi, ← g'.cell?_of_offset hi', hcolumns, hcell]
  cases g
  cases g'
  congr

/-! ### What setting a cell does -/

@[simp] theorem columns_set (g : Grid) (p : Position) (c : Cell) :
    (g.set p c).columns = g.columns := by
  unfold set; split <;> rfl

@[simp] theorem rows_set (g : Grid) (p : Position) (c : Cell) : (g.set p c).rows = g.rows := by
  unfold set; split <;> rfl

@[simp] theorem inBounds_set (g : Grid) (p q : Position) (c : Cell) :
    (g.set p c).inBounds q = g.inBounds q := by
  simp [inBounds]

/-- Setting a cell changes that cell and no other. -/
theorem cell?_set {g : Grid} {p : Position} (h : g.inBounds p) (c : Cell) (q : Position) :
    (g.set p c).cell? q = if q = p then some c else g.cell? q := by
  have hset : g.set p c =
      { g with
        cells := g.cells.setIfInBounds (g.offset p) c
        size_cells := by simp [g.size_cells] } := by simp [set, h]
  unfold cell?
  rw [inBounds_set]
  by_cases hq : g.inBounds q
  · have hoff : (g.set p c).offset q = g.offset q := by simp [offset]
    rw [if_pos hq, if_pos hq, hoff, hset, Array.getElem?_setIfInBounds]
    by_cases hpq : q = p
    · subst hpq
      simp [offset_lt h]
    · rw [if_neg hpq, if_neg fun ho => hpq (offset_inj h hq ho).symm]
  · have hpq : q ≠ p := fun hpq => hq (hpq ▸ h)
    rw [if_neg hq, if_neg hq, if_neg hpq]

/-- A cell outside the grid cannot be set. -/
theorem set_of_not_inBounds {g : Grid} {p : Position} (h : ¬ g.inBounds p) (c : Cell) :
    g.set p c = g := by
  simp [set, h]

/-! ### Making a grid -/

/-- A grid of empty cells. -/
def blank (columns rows : Nat) : Grid where
  columns := columns
  rows := rows
  cells := Array.replicate (columns * rows) .empty
  size_cells := by simp

/-- The number, counted on from `row`, and the length of the first row that does not have
the expected length. -/
def firstRagged? (expected : Nat) : Nat → List (List Cell) → Option (Nat × Nat)
  | _, [] => none
  | row, cells :: rest =>
    if cells.length = expected then firstRagged? expected (row + 1) rest
    else some (row, cells.length)

/-- Rows none of which is ragged fill a rectangle. -/
theorem length_flatten_of_firstRagged? {expected row : Nat} {rows : List (List Cell)}
    (h : firstRagged? expected row rows = none) :
    rows.flatten.length = expected * rows.length := by
  induction rows generalizing row with
  | nil => simp
  | cons cells rest ih =>
    by_cases hlen : cells.length = expected
    · simp only [firstRagged?, hlen, if_true] at h
      simp only [List.flatten_cons, List.length_append, ih h, hlen, List.length_cons,
        Nat.mul_succ]
      omega
    · simp [firstRagged?, hlen] at h

/-- The grid with the given rows. There must be a cell, and all rows must be as long as
the first. -/
def ofRows (rows : List (List Cell)) : Except GridError Grid :=
  let columns := (rows.head?.map List.length).getD 0
  if columns = 0 then .error .empty
  else
    match h : firstRagged? columns 1 rows with
    | some (row, got) => .error (.raggedRow row columns got)
    | none =>
      .ok
        { columns
          rows := rows.length
          cells := rows.flatten.toArray
          size_cells := by simpa using length_flatten_of_firstRagged? h }

end Grid

end Ladybug
