import Ladybug.Board

/-!
# Where cells and ladybugs are found

The grid of a board and its ladybugs are read from the same characters, but apart from each
other: the grid from all of them, with an empty cell under every ladybug, and the ladybugs
from the arrows alone, with the places they were found at. The grid lays its rows end to end,
and since no row is ragged, the cell at a position is the one that was written there. Each arrow
is met once, row by row, so the arrows are listed in the order in which they are written. What is
kept of the place of an arrow are 32 bits for its column and as many for its row.

## Main definitions

* `Position.Before` — the order in which a board is read.
* `Board.arrowsOf` — the arrows on a board, each in its place.
* `Spawn.wrapped` and `Board.wrapped` — ladybugs with 32 bits for each coordinate.

## Main results

* `Grid.cell?_of_ofRows` — the grid made of rows has their cells.
* `Board.mem_arrowsOf_iff` — the arrows and their places.
* `Board.pairwise_arrowsOf` — they are listed in reading order.
* `Board.spawnsOf_eq` — the ladybugs of a board are its arrows, in places of 32 bits.
-/

namespace Ladybug

/-- The first position is met before the second one where a board is read row by row. -/
def Position.Before (p q : Position) : Prop := p.row < q.row ∨ p.row = q.row ∧ p.column < q.column

/-- No position is met twice. -/
theorem Position.Before.ne {p q : Position} (h : p.Before q) : p ≠ q := by
  rintro rfl
  rcases h with h | ⟨-, h⟩ <;> exact absurd h (Int.lt_irrefl _)

/-! ### Rows end to end -/

section Rows

variable {α : Type}

/-- Where rows of one length are laid end to end, the cell in a column of a row is found
behind all earlier rows. -/
theorem getElem?_flatten_of_length {rows : List (List α)} {columns : Nat}
    (hlength : ∀ cells ∈ rows, cells.length = columns) {row column : Nat} {cells : List α}
    {cell : α} (hrow : rows[row]? = some cells) (hcolumn : cells[column]? = some cell) :
    rows.flatten[row * columns + column]? = some cell := by
  induction rows generalizing row with
  | nil => cases hrow
  | cons first rest ih =>
      have hfirst := hlength first List.mem_cons_self
      cases row with
      | zero =>
          obtain rfl := Option.some.inj hrow
          obtain ⟨hlt, -⟩ := List.getElem?_eq_some_iff.mp hcolumn
          rw [Nat.zero_mul, Nat.zero_add, List.flatten_cons, List.getElem?_append_left hlt, hcolumn]
      | succ row =>
          have hskip : (row + 1) * columns + column = first.length + (row * columns + column) := by
            rw [hfirst, Nat.succ_mul]
            omega
          rw [hskip, List.flatten_cons, List.getElem?_append_right (Nat.le_add_right ..),
            Nat.add_sub_cancel_left]
          exact ih (fun cells hmem => hlength cells (List.mem_cons_of_mem first hmem)) hrow

/-- The numbers that go with the elements of a list ascend. -/
theorem pairwise_zipIdx (l : List α) : l.zipIdx.Pairwise fun x y => x.2 < y.2 := by
  have hnumbers : (l.zipIdx.map Prod.snd).Pairwise (· < ·) := by
    rw [List.zipIdx_map_snd]
    exact List.pairwise_lt_range' 1
  exact List.pairwise_map.mp hnumbers

end Rows

namespace Grid

/-- None of the rows is ragged if all have the expected length. -/
theorem length_of_firstRagged? {expected row : Nat} {rows : List (List Cell)}
    (h : firstRagged? expected row rows = none) : ∀ cells ∈ rows, cells.length = expected := by
  induction rows generalizing row with
  | nil => exact fun _ hmem => nomatch hmem
  | cons first rest ih =>
      rw [firstRagged?] at h
      split at h
      · next hfirst =>
          rintro cells hmem
          rcases List.mem_cons.mp hmem with rfl | hrest
          · exact hfirst
          · exact ih h cells hrest
      · cases h

/-- The grid made of rows has the cells of the rows. -/
theorem cell?_of_ofRows {rows : List (List Cell)} {g : Grid} (h : ofRows rows = .ok g)
    {row column : Nat} {cells : List Cell} {cell : Cell} (hrow : rows[row]? = some cells)
    (hcolumn : cells[column]? = some cell) : g.cell? ⟨column, row⟩ = some cell := by
  unfold ofRows at h
  extract_lets columns at h
  split at h
  · cases h
  · split at h
    · cases h
    · next hragged =>
        obtain rfl := Except.ok.inj h
        have hlength := length_of_firstRagged? hragged
        obtain ⟨hrows, hcells⟩ := List.getElem?_eq_some_iff.mp hrow
        obtain ⟨hlt, -⟩ := List.getElem?_eq_some_iff.mp hcolumn
        have hcolumns := hlength cells (hcells ▸ List.getElem_mem hrows)
        rw [hcolumns] at hlt
        rw [cell?, if_pos, List.getElem?_toArray]
        · exact getElem?_flatten_of_length hlength hrow hcolumn
        · exact inBounds_of_lt hrows hlt

end Grid

/-- A ladybug as it is kept, with 32 bits for each coordinate. -/
def Spawn.wrapped (s : Spawn) : Spawn := { s with position := s.position.wrapped }

namespace Board

/-- A board as it is kept, with 32 bits for each coordinate of a ladybug. -/
def wrapped (b : Board) : Board := { b with spawns := b.spawns.map Spawn.wrapped }

/-! ### Arrows -/

/-- The arrows in a row, from left to right, each in its place. -/
def rowArrows (row : Nat) (glyphs : List Glyph) : List Spawn :=
  glyphs.zipIdx.filterMap fun (glyph, column) =>
    glyph.facing?.map fun facing => ⟨⟨column, row⟩, facing⟩

/-- The arrows on a board, in reading order, each in its place. -/
def arrowsOf (rows : List (List Glyph)) : List Spawn :=
  (rows.zipIdx.map fun (glyphs, row) => rowArrows row glyphs).flatten

/-- An arrow in a row is in one of its columns. -/
theorem mem_rowArrows_iff {row : Nat} {glyphs : List Glyph} {s : Spawn} :
    s ∈ rowArrows row glyphs ↔
      ∃ column : Nat, glyphs[column]? = some (.ladybug s.direction) ∧ s.position = ⟨column, row⟩ := by
  rw [rowArrows, List.mem_filterMap]
  constructor
  · rintro ⟨⟨glyph, column⟩, hmem, hs⟩
    obtain ⟨facing, hfacing, rfl⟩ := Option.map_eq_some_iff.mp hs
    refine ⟨column, ?_, rfl⟩
    rw [List.mem_zipIdx_iff_getElem?.mp hmem]
    cases glyph with
    | cell _ => cases hfacing
    | ladybug d => rw [Option.some.inj hfacing]
  · rintro ⟨column, hglyph, hposition⟩
    refine ⟨(.ladybug s.direction, column), List.mem_zipIdx_iff_getElem?.mpr hglyph, ?_⟩
    change some (Spawn.mk ⟨column, row⟩ s.direction) = some s
    rw [← hposition]

/-- An arrow on a board is in a column of one of its rows. -/
theorem mem_arrowsOf_iff {rows : List (List Glyph)} {s : Spawn} :
    s ∈ arrowsOf rows ↔ ∃ (row column : Nat) (glyphs : List Glyph), rows[row]? = some glyphs ∧
      glyphs[column]? = some (.ladybug s.direction) ∧ s.position = ⟨column, row⟩ := by
  rw [arrowsOf, List.mem_flatten]
  constructor
  · rintro ⟨_, hmem, hs⟩
    obtain ⟨⟨glyphs, row⟩, hrow, rfl⟩ := List.mem_map.mp hmem
    obtain ⟨column, hglyph, hposition⟩ := mem_rowArrows_iff.mp hs
    exact ⟨row, column, glyphs, List.mem_zipIdx_iff_getElem?.mp hrow, hglyph, hposition⟩
  · rintro ⟨row, column, glyphs, hrow, hglyph, hposition⟩
    have hmem : (glyphs, row) ∈ rows.zipIdx := List.mem_zipIdx_iff_getElem?.mpr hrow
    exact ⟨_, List.mem_map_of_mem hmem, mem_rowArrows_iff.mpr ⟨column, hglyph, hposition⟩⟩

/-- The arrows on a board are listed in reading order: those of one row by their columns, and
those of different rows by their rows. -/
theorem pairwise_arrowsOf (rows : List (List Glyph)) :
    (arrowsOf rows).Pairwise fun s t => s.position.Before t.position := by
  rw [arrowsOf, List.pairwise_flatten, List.pairwise_map]
  constructor
  · rintro _ hmem
    obtain ⟨⟨glyphs, row⟩, -, rfl⟩ := List.mem_map.mp hmem
    change (List.filterMap _ glyphs.zipIdx).Pairwise _
    rw [List.pairwise_filterMap]
    refine (pairwise_zipIdx glyphs).imp fun {x y} hlt s hs t ht => ?_
    obtain ⟨_, -, rfl⟩ := Option.map_eq_some_iff.mp hs
    obtain ⟨_, -, rfl⟩ := Option.map_eq_some_iff.mp ht
    exact .inr ⟨rfl, Int.ofNat_lt.mpr hlt⟩
  · refine (pairwise_zipIdx rows).imp fun {x y} hlt s hs t ht => ?_
    obtain ⟨_, -, hposition⟩ := mem_rowArrows_iff.mp hs
    obtain ⟨_, -, hposition'⟩ := mem_rowArrows_iff.mp ht
    rw [hposition, hposition']
    exact .inl (Int.ofNat_lt.mpr hlt)

/-! ### Ladybugs -/

/-- The ladybugs of a row are its arrows, in places of 32 bits. -/
theorem rowSpawns_eq (row : Nat) (glyphs : List Glyph) :
    rowSpawns row glyphs = (rowArrows row glyphs).map Spawn.wrapped := by
  rw [rowSpawns, rowArrows, List.map_filterMap]
  refine congrArg (List.filterMap · _) (funext fun (glyph, column) => ?_)
  rw [Option.map_map]
  rfl

/-- The ladybugs of a board are its arrows, in places of 32 bits. -/
theorem spawnsOf_eq (rows : List (List Glyph)) :
    spawnsOf rows = (arrowsOf rows).map Spawn.wrapped := by
  rw [spawnsOf, arrowsOf, List.map_flatten, List.map_map]
  exact congrArg List.flatten (List.map_congr_left fun (glyphs, row) _ => rowSpawns_eq row glyphs)

end Board

end Ladybug
