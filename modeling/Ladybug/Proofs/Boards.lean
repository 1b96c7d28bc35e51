import Ladybug.Proofs.SmallGrids
import Ladybug.Proofs.Spawns
import Mathlib.Data.List.Nodup
import Mathlib.Data.Set.List

/-!
# What a text says of a board

A text is a board if its rows are equally long and not empty, all its characters are known, and
one of them is an arrow. If it is none, exactly one thing is said to be wrong with it, although
it may be wrong in many ways: an unknown character is found before anything is known of the
shape, and the shape before anybody asks for ladybugs. Of several unknown characters the first
one in reading order counts, and of several ragged rows the first one below the top row.

All of this is said of the rows of characters alone. The reader turns them into glyphs, one for
each character, and loses nothing, as every glyph has a symbol of its own. So what it makes of
the glyphs is known as soon as it is known for rows that are written in symbols.

## Main definitions

* `Board.charRows` — a text as rows of characters, and `charAt?` what stands in a place.
* `Glyph.IsSymbol` — the characters boards are made of.
* `Board.Shows` — what rows of characters show.
* `Board.Outcome` — the outcome of reading, said without a reader.
* `Board.Countable` — 32 bits count the column and the row of each arrow.

## Main results

* `Board.Shows.unique` — rows of characters show one board only.
* `Board.Outcome.read_eq` and `Board.exists_outcome` — each text has an outcome, and it is read.
* `Board.cell?_of_read` — every ladybug of a countable board starts on an empty cell.
* `Board.read_eq_iff_outcome` — each text is read as its outcome, and as nothing else, except that
  32 bits are kept of each coordinate.
* `Board.read_lone_beyond` — an arrow that 32 bits cannot count is kept in another place.
-/

namespace Ladybug

open Flowchart (maxCoordinate)

/-! ### Characters -/

namespace Glyph

/-- The character that shows the glyph. -/
def symbol : Glyph → Char
  | .cell contents => contents.symbol
  | .ladybug facing => facing.symbol

/-- The character shows a cell or a ladybug. -/
def IsSymbol (c : Char) : Prop :=
  (∃ cell : Cell, c = cell.symbol) ∨ ∃ facing : Direction, c = facing.symbol

/-- A glyph is read from its symbol. -/
@[simp] theorem ofSymbol?_symbol (glyph : Glyph) : ofSymbol? glyph.symbol = some glyph := by
  cases glyph with
  | cell contents => cases contents <;> rfl
  | ladybug facing => cases facing <;> rfl

/-- Different glyphs have different symbols. -/
theorem symbol_injective {glyph glyph' : Glyph} (h : glyph.symbol = glyph'.symbol) :
    glyph = glyph' := by
  rw [← Option.some_inj, ← ofSymbol?_symbol glyph, h, ofSymbol?_symbol]

/-- The known characters are the symbols of the glyphs. -/
theorem isSymbol_iff {c : Char} : IsSymbol c ↔ ∃ glyph : Glyph, glyph.symbol = c := by
  constructor
  · rintro (⟨cell, rfl⟩ | ⟨facing, rfl⟩)
    · exact ⟨.cell cell, rfl⟩
    · exact ⟨.ladybug facing, rfl⟩
  · rintro ⟨glyph, rfl⟩
    cases glyph with
    | cell contents => exact .inl ⟨contents, rfl⟩
    | ladybug facing => exact .inr ⟨facing, rfl⟩

/-- No glyph is read from other characters. -/
theorem ofSymbol?_eq_none {c : Char} (h : ¬ IsSymbol c) : ofSymbol? c = none := by
  cases hread : ofSymbol? c with
  | none => rfl
  | some glyph =>
      refine absurd ?_ h
      rw [ofSymbol?] at hread
      split at hread
      · next facing hfacing => exact .inr ⟨facing, (eq_of_beq (List.find?_some hfacing :)).symm⟩
      · obtain ⟨cell, hcell, -⟩ := Option.map_eq_some_iff.mp hread
        exact .inl ⟨cell, (eq_of_beq (List.find?_some hcell :)).symm⟩

/-- Known characters are the symbols of glyphs. -/
theorem exists_map_symbol {cs : List Char} (h : ∀ c ∈ cs, IsSymbol c) :
    ∃ glyphs : List Glyph, glyphs.map symbol = cs := by
  have hrange : cs ∈ Set.range (List.map symbol) := by
    rw [Set.range_list_map]
    exact fun c hc => isSymbol_iff.mp (h c hc)
  exact hrange

/-- So are rows of them. -/
theorem exists_map_map_symbol {rows : List (List Char)} (h : ∀ row ∈ rows, ∀ c ∈ row, IsSymbol c) :
    ∃ glyphs : List (List Glyph), glyphs.map (·.map symbol) = rows := by
  have hrange : rows ∈ Set.range (List.map (List.map symbol)) := by
    rw [Set.range_list_map]
    exact fun row hrow => exists_map_symbol (h row hrow)
  exact hrange

end Glyph

/-- Known characters are none of the carriage returns that a line may end with. -/
theorem Text.dropReturns_of_isSymbol {cs : List Char} (h : ∀ c ∈ cs, Glyph.IsSymbol c) :
    dropReturns cs = cs := by
  have hreturn : '\r' ∉ cs := by
    intro hmem
    rcases h _ hmem with ⟨cell, hcell⟩ | ⟨facing, hfacing⟩
    · cases cell <;> cases hcell
    · cases facing <;> cases hfacing
  rw [dropReturns, List.reverse_eq_iff]
  cases hlast : cs.reverse with
  | nil => rfl
  | cons c rest =>
      have hc : c ∈ cs := List.mem_reverse.mp (hlast ▸ List.mem_cons_self)
      exact List.dropWhile_cons_of_neg fun heq => hreturn (eq_of_beq heq ▸ hc)

/-! ### What rows of characters show -/

namespace Board

/-- The lines of a text as rows of characters. Carriage returns at the end of a line do not
count. -/
def charRows (lines : List String) : List (List Char) :=
  lines.map fun line => Text.dropReturns line.toList

/-- Rows of known characters are read from lines as they are. -/
theorem charRows_ofList {rows : List (List Char)}
    (h : ∀ row ∈ rows, ∀ c ∈ row, Glyph.IsSymbol c) : charRows (rows.map String.ofList) = rows := by
  rw [charRows, List.map_map]
  refine (List.map_congr_left fun row hrow => ?_).trans (List.map_id rows)
  rw [Function.comp_apply, String.toList_ofList, Text.dropReturns_of_isSymbol (h row hrow), id]

/-- The character in a row and a column, both counted from zero. -/
def charAt? (rows : List (List Char)) (row column : Nat) : Option Char :=
  rows[row]?.bind (·[column]?)

/-- The rows show the board: there is a cell for each character, with the contents shown or empty
under an arrow, and there is a ladybug for each arrow, in reading order. -/
structure Shows (text : List (List Char)) (board : Board) : Prop where
  columns : ∀ row ∈ text, row.length = board.grid.columns
  rows : text.length = board.grid.rows
  cell : ∀ (row column : Nat) (cell : Cell), charAt? text row column = some cell.symbol →
    board.grid.cell? ⟨column, row⟩ = some cell
  under : ∀ (row column : Nat) (facing : Direction), charAt? text row column = some facing.symbol →
    board.grid.cell? ⟨column, row⟩ = some .empty
  spawns : ∀ s : Spawn, s ∈ board.spawns ↔ ∃ row column : Nat, s.position = ⟨column, row⟩ ∧
    charAt? text row column = some s.direction.symbol
  order : board.spawns.Pairwise fun s t => s.position.Before t.position

/-- No arrow is in a column or a row that a positive integer of 32 bits cannot count. -/
def Countable (text : List (List Char)) : Prop :=
  ∀ (row column : Nat) (facing : Direction), charAt? text row column = some facing.symbol →
    column ≤ maxCoordinate ∧ row ≤ maxCoordinate

/-- The outcome of reading a text, in which places are told with all their bits. -/
inductive Outcome (lines : List String) : Except GridError Board → Prop
  /-- All characters before the unknown one are known, in its row and in the rows above. -/
  | unknownSymbol {above below : List (List Char)} {before after : List Char} {c : Char}
      (htext : charRows lines = above ++ (before ++ c :: after) :: below)
      (habove : ∀ row ∈ above, ∀ d ∈ row, Glyph.IsSymbol d)
      (hbefore : ∀ d ∈ before, Glyph.IsSymbol d) (hc : ¬ Glyph.IsSymbol c) :
      Outcome lines (.error (.unknownSymbol c (above.length + 1) (before.length + 1)))
  | empty (hknown : ∀ row ∈ charRows lines, ∀ c ∈ row, Glyph.IsSymbol c)
      (hempty : charRows lines = [] ∨ ∃ below, charRows lines = [] :: below) :
      Outcome lines (.error .empty)
  /-- All rows above the ragged one are as long as the first one. -/
  | raggedRow {first row : List Char} {between below : List (List Char)}
      (hknown : ∀ row ∈ charRows lines, ∀ c ∈ row, Glyph.IsSymbol c)
      (htext : charRows lines = first :: (between ++ row :: below)) (hfirst : first ≠ [])
      (hbetween : ∀ cs ∈ between, cs.length = first.length) (hrow : row.length ≠ first.length) :
      Outcome lines (.error (.raggedRow (between.length + 2) first.length row.length))
  | noLadybugs {first : List Char} {below : List (List Char)}
      (hknown : ∀ row ∈ charRows lines, ∀ c ∈ row, Glyph.IsSymbol c)
      (htext : charRows lines = first :: below) (hfirst : first ≠ [])
      (hbelow : ∀ cs ∈ below, cs.length = first.length)
      (hnone : ∀ row ∈ charRows lines, ∀ facing : Direction, facing.symbol ∉ row) :
      Outcome lines (.error .noLadybugs)
  | board {first : List Char} {below : List (List Char)} {board : Board}
      (hknown : ∀ row ∈ charRows lines, ∀ c ∈ row, Glyph.IsSymbol c)
      (htext : charRows lines = first :: below) (hfirst : first ≠ [])
      (hbelow : ∀ cs ∈ below, cs.length = first.length) {row : List Char} {facing : Direction}
      (hrow : row ∈ charRows lines) (hfacing : facing.symbol ∈ row)
      (hshows : Shows (charRows lines) board) : Outcome lines (.ok board)

end Board

namespace Board

/-- Arrows are kept in their places if 32 bits can count them. -/
theorem Shows.wrapped_eq {text : List (List Char)} {b : Board} (h : Shows text b)
    (hcount : Countable text) : b.wrapped = b := by
  have hspawns : b.spawns.map Spawn.wrapped = b.spawns := by
    refine (List.map_congr_left fun s hs => ?_).trans (List.map_id _)
    obtain ⟨row, column, hposition, hchar⟩ := (h.spawns s).mp hs
    obtain ⟨hcolumn, hrow⟩ := hcount row column s.direction hchar
    have hwrapped : s.position.wrapped = s.position :=
      hposition ▸ Position.ofPlace_eq hcolumn hrow
    rw [Spawn.wrapped, hwrapped, id]
  rw [wrapped, hspawns]

/-- All arrows can be counted if the grid can, since they are in columns and rows of it. -/
theorem Shows.countable {text : List (List Char)} {b : Board} (h : Shows text b)
    (hcountable : b.grid.Countable) : Countable text := by
  intro row column facing hchar
  exact hcountable _ (Grid.inBounds_of_cell? (h.under row column facing hchar))

/-- They can also be counted if there are no more rows and columns than 32 bits count places. -/
theorem countable_of_length {text : List (List Char)} (hrows : text.length ≤ maxCoordinate + 1)
    (hcolumns : ∀ row ∈ text, row.length ≤ maxCoordinate + 1) : Countable text := by
  intro row column facing hchar
  obtain ⟨cs, hcs, hc⟩ := Option.bind_eq_some_iff.mp hchar
  obtain ⟨hrow, rfl⟩ := List.getElem?_eq_some_iff.mp hcs
  obtain ⟨hcolumn, -⟩ := List.getElem?_eq_some_iff.mp hc
  have hlength := hcolumns _ (List.getElem_mem hrow)
  exact ⟨by omega, by omega⟩

/-- There is a character in each row and column. -/
theorem exists_charAt? {rows : List (List Char)} {columns row column : Nat}
    (hcolumns : ∀ cs ∈ rows, cs.length = columns) (hrow : row < rows.length)
    (hcolumn : column < columns) :
    ∃ cs ∈ rows, ∃ c ∈ cs, charAt? rows row column = some c := by
  have hlength := hcolumns _ (List.getElem_mem hrow)
  have hlt : column < rows[row].length := hlength.symm ▸ hcolumn
  refine ⟨rows[row], List.getElem_mem hrow, rows[row][column], List.getElem_mem hlt, ?_⟩
  rw [charAt?, List.getElem?_eq_getElem hrow, Option.bind_some, List.getElem?_eq_getElem hlt]

/-- No ladybug is shown twice. -/
theorem Shows.nodup {rows : List (List Char)} {b : Board} (h : Shows rows b) : b.spawns.Nodup :=
  h.order.imp fun hbefore heq => hbefore.ne (congrArg Spawn.position heq)

/-- Rows of known characters show one board only. -/
theorem Shows.unique {rows : List (List Char)} {b b' : Board} (hne : rows ≠ [])
    (hknown : ∀ row ∈ rows, ∀ c ∈ row, Glyph.IsSymbol c) (h : Shows rows b) (h' : Shows rows b') :
    b = b' := by
  obtain ⟨first, hfirst⟩ := List.exists_mem_of_ne_nil rows hne
  have hgrid : b.grid = b'.grid := by
    have hcolumns := (h.columns first hfirst).symm.trans (h'.columns first hfirst)
    have hrows := h.rows.symm.trans h'.rows
    refine Grid.eq_of_cell? hcolumns hrows fun p => ?_
    by_cases hp : b.grid.inBounds p
    · obtain ⟨row, hrow, column, hcolumn, rfl⟩ := Grid.exists_place hp
      obtain ⟨cs, hcs, c, hc, hchar⟩ := exists_charAt? h.columns (h.rows.symm ▸ hrow) hcolumn
      rcases hknown cs hcs c hc with ⟨cell, rfl⟩ | ⟨facing, rfl⟩
      · rw [h.cell row column cell hchar, h'.cell row column cell hchar]
      · rw [h.under row column facing hchar, h'.under row column facing hchar]
    · have hp' : ¬ b'.grid.inBounds p := by
        rwa [Grid.inBounds_iff, ← hcolumns, ← hrows, ← Grid.inBounds_iff]
      rw [Grid.cell?_eq_none hp, Grid.cell?_eq_none hp']
  have hspawns : b.spawns = b'.spawns := by
    have hperm : b.spawns.Perm b'.spawns :=
      (List.perm_ext_iff_of_nodup h.nodup h'.nodup).mpr fun s =>
        (h.spawns s).trans (h'.spawns s).symm
    refine hperm.eq_of_pairwise (fun s t _ _ hst hts => ?_) h.order h'.order
    simp only [Position.Before] at hst hts
    omega
  obtain ⟨grid, spawns⟩ := b
  obtain rfl : grid = b'.grid := hgrid
  obtain rfl : spawns = b'.spawns := hspawns
  rfl

end Board

/-! ### Grids of rows -/

namespace Grid

/-- Rows that start with an empty one, or no rows, have no cells. -/
theorem ofRows_empty {rows : List (List Cell)} (h : rows = [] ∨ ∃ below, rows = [] :: below) :
    ofRows rows = .error .empty := by
  rcases h with rfl | ⟨below, rfl⟩ <;> rfl

/-- Rows as long as expected are passed over. -/
theorem firstRagged?_append {expected row : Nat} {rows rest : List (List Cell)}
    (h : ∀ cells ∈ rows, cells.length = expected) :
    firstRagged? expected row (rows ++ rest) = firstRagged? expected (row + rows.length) rest := by
  induction rows generalizing row with
  | nil => rfl
  | cons cells rows ih =>
      obtain ⟨hcells, hrows⟩ := List.forall_mem_cons.mp h
      rw [List.cons_append, firstRagged?, if_pos hcells, ih hrows, List.length_cons,
        Nat.add_assoc row, Nat.add_comm 1]

/-- The first row of another length than the top row is ragged. -/
theorem ofRows_raggedRow {first row : List Cell} {between below : List (List Cell)}
    (hfirst : first ≠ []) (hbetween : ∀ cells ∈ between, cells.length = first.length)
    (hrow : row.length ≠ first.length) :
    ofRows (first :: (between ++ row :: below)) =
      .error (.raggedRow (between.length + 2) first.length row.length) := by
  have hragged : firstRagged? first.length 1 (first :: (between ++ row :: below)) =
      some (between.length + 2, row.length) := by
    rw [firstRagged?, if_pos rfl, firstRagged?_append hbetween, firstRagged?, if_neg hrow,
      Nat.add_comm]
  unfold ofRows
  extract_lets columns
  rw [if_neg (show columns ≠ 0 from mt List.length_eq_zero_iff.mp hfirst)]
  split
  · next found got hfound =>
      obtain ⟨rfl, rfl⟩ := Prod.mk.inj (Option.some.inj (hfound.symm.trans hragged))
      rfl
  · next hnone => cases hnone.symm.trans hragged

/-- Rows of one length make a grid. -/
theorem exists_ofRows {first : List Cell} {below : List (List Cell)} (hfirst : first ≠ [])
    (hbelow : ∀ cells ∈ below, cells.length = first.length) :
    ∃ g, ofRows (first :: below) = .ok g := by
  have hragged : firstRagged? first.length 1 (first :: (below ++ [])) = none := by
    rw [firstRagged?, if_pos rfl, firstRagged?_append hbelow]
    rfl
  rw [List.append_nil] at hragged
  unfold ofRows
  extract_lets columns
  rw [if_neg (show columns ≠ 0 from mt List.length_eq_zero_iff.mp hfirst)]
  split
  · next hfound => cases hfound.symm.trans hragged
  · exact ⟨_, rfl⟩

/-- The grid made of rows has their shape. -/
theorem shape_of_ofRows {rows : List (List Cell)} {g : Grid} (h : ofRows rows = .ok g) :
    (∀ cells ∈ rows, cells.length = g.columns) ∧ rows.length = g.rows := by
  unfold ofRows at h
  extract_lets columns at h
  split at h
  · cases h
  · split at h
    · cases h
    · next hragged =>
        obtain rfl := Except.ok.inj h
        exact ⟨length_of_firstRagged? hragged, rfl⟩

end Grid

namespace Board

/-! ### Reading symbols -/

/-- Glyphs are read back from a row of symbols. -/
theorem readRow_symbols (row column : Nat) (glyphs : List Glyph) :
    readRow row column (glyphs.map Glyph.symbol) = .ok glyphs := by
  induction glyphs generalizing column with
  | nil => rfl
  | cons glyph glyphs ih =>
      rw [List.map_cons, readRow, Glyph.ofSymbol?_symbol]
      simp only [ih]
      rfl

/-- A row is read up to its first unknown character. -/
theorem readRow_unknown (row column : Nat) (before : List Glyph) {c : Char}
    (hc : Glyph.ofSymbol? c = none) (after : List Char) :
    readRow row column (before.map Glyph.symbol ++ c :: after) =
      .error (.unknownSymbol c (row + 1) (column + before.length + 1)) := by
  induction before generalizing column with
  | nil =>
      rw [List.map_nil, List.nil_append, readRow, hc]
      rfl
  | cons glyph before ih =>
      rw [List.map_cons, List.cons_append, readRow, Glyph.ofSymbol?_symbol]
      simp only [ih, List.length_cons, Nat.add_assoc, Nat.add_comm 1]
      rfl

/-- Glyphs are read back from rows of symbols. -/
theorem readRows_symbols {lines : List String} {rows : List (List Glyph)}
    (h : charRows lines = rows.map (·.map Glyph.symbol)) (row : Nat) :
    readRows row lines = .ok rows := by
  induction lines generalizing row rows with
  | nil =>
      obtain rfl : rows = [] := List.map_eq_nil_iff.mp h.symm
      rfl
  | cons line lines ih =>
      cases rows with
      | nil => cases h
      | cons glyphs rows =>
          have hline : Text.dropReturns line.toList = glyphs.map Glyph.symbol :=
            (List.cons.inj h).1
          rw [readRows, hline, readRow_symbols]
          change (readRows (row + 1) lines >>= fun below => pure (glyphs :: below)) = _
          rw [ih (List.cons.inj h).2]
          rfl

/-- Rows are read up to the first unknown character. -/
theorem readRows_unknown {lines : List String} {above : List (List Glyph)} {before : List Glyph}
    {c : Char} {after : List Char} {below : List (List Char)}
    (h : charRows lines = above.map (·.map Glyph.symbol) ++
      (before.map Glyph.symbol ++ c :: after) :: below)
    (hc : Glyph.ofSymbol? c = none) (row : Nat) :
    readRows row lines =
      .error (.unknownSymbol c (row + above.length + 1) (before.length + 1)) := by
  induction lines generalizing row above with
  | nil => cases List.append_eq_nil_iff.mp h.symm |>.2
  | cons line lines ih =>
      cases above with
      | nil =>
          have hline : Text.dropReturns line.toList = before.map Glyph.symbol ++ c :: after :=
            (List.cons.inj h).1
          rw [readRows, hline, readRow_unknown row 0 before hc, Nat.zero_add]
          rfl
      | cons glyphs above =>
          have hline : Text.dropReturns line.toList = glyphs.map Glyph.symbol :=
            (List.cons.inj h).1
          rw [readRows, hline, readRow_symbols]
          change (readRows (row + 1) lines >>= fun below => pure (glyphs :: below)) = _
          rw [ih (List.cons.inj h).2, List.length_cons, Nat.add_assoc row, Nat.add_comm 1]
          rfl

/-- A character in rows of symbols is the symbol of the glyph in its place. -/
theorem charAt?_map_symbol (rows : List (List Glyph)) (row column : Nat) :
    charAt? (rows.map (·.map Glyph.symbol)) row column =
      (rows[row]?.bind (·[column]?)).map Glyph.symbol := by
  rw [charAt?, List.getElem?_map]
  cases rows[row]? with
  | none => rfl
  | some glyphs => exact List.getElem?_map

/-- A symbol is seen only in the place of its glyph. -/
theorem exists_glyph_of_charAt? {rows : List (List Glyph)} {row column : Nat} (glyph : Glyph)
    (h : charAt? (rows.map (·.map Glyph.symbol)) row column = some glyph.symbol) :
    ∃ glyphs, rows[row]? = some glyphs ∧ glyphs[column]? = some glyph := by
  rw [charAt?_map_symbol] at h
  obtain ⟨found, hfound, hsymbol⟩ := Option.map_eq_some_iff.mp h
  obtain ⟨glyphs, hrow, hcolumn⟩ := Option.bind_eq_some_iff.mp hfound
  exact ⟨glyphs, hrow, Glyph.symbol_injective hsymbol ▸ hcolumn⟩

/-- The cell in a place has what the glyph there shows. -/
theorem cell?_of_charAt? {rows : List (List Glyph)} {grid : Grid}
    (hgrid : Grid.ofRows (rows.map (·.map Glyph.contents)) = .ok grid) {row column : Nat}
    (glyph : Glyph) (h : charAt? (rows.map (·.map Glyph.symbol)) row column = some glyph.symbol) :
    grid.cell? ⟨column, row⟩ = some glyph.contents := by
  obtain ⟨glyphs, hrow, hcolumn⟩ := exists_glyph_of_charAt? glyph h
  have hrow' : (rows.map (·.map Glyph.contents))[row]? = some (glyphs.map Glyph.contents) := by
    rw [List.getElem?_map, hrow]
    rfl
  refine Grid.cell?_of_ofRows hgrid hrow' ?_
  rw [List.getElem?_map, hcolumn]
  rfl

/-- Rows of symbols show the grid of their glyphs and the arrows among them. -/
theorem shows_of_ofRows {rows : List (List Glyph)} {grid : Grid}
    (h : Grid.ofRows (rows.map (·.map Glyph.contents)) = .ok grid) :
    Shows (rows.map (·.map Glyph.symbol)) ⟨grid, arrowsOf rows⟩ := by
  obtain ⟨hcolumns, hrows⟩ := Grid.shape_of_ofRows h
  constructor
  · intro cs hcs
    obtain ⟨glyphs, hglyphs, rfl⟩ := List.mem_map.mp hcs
    rw [List.length_map, ← hcolumns _ (List.mem_map_of_mem hglyphs), List.length_map]
  · rw [List.length_map, ← hrows, List.length_map]
  · intro row column cell hchar
    exact cell?_of_charAt? h (.cell cell) hchar
  · intro row column facing hchar
    exact cell?_of_charAt? h (.ladybug facing) hchar
  · intro s
    rw [mem_arrowsOf_iff]
    constructor
    · rintro ⟨row, column, glyphs, hrow, hcolumn, hposition⟩
      refine ⟨row, column, hposition, ?_⟩
      rw [charAt?_map_symbol, hrow, Option.bind_some, hcolumn]
      rfl
    · rintro ⟨row, column, hposition, hchar⟩
      obtain ⟨glyphs, hrow, hcolumn⟩ := exists_glyph_of_charAt? (.ladybug s.direction) hchar
      exact ⟨row, column, glyphs, hrow, hcolumn, hposition⟩
  · exact pairwise_arrowsOf rows

/-! ### Outcomes -/

section Outcome

variable {lines : List String} {rows : List (List Glyph)}

/-- Without a grid there is no board. -/
theorem read_of_ofRows_error (h : charRows lines = rows.map (·.map Glyph.symbol)) {e : GridError}
    (hgrid : Grid.ofRows (rows.map (·.map Glyph.contents)) = .error e) : read lines = .error e := by
  rw [read, readRows_symbols h]
  change (Grid.ofRows (rows.map (·.map Glyph.contents)) >>= _) = _
  rw [hgrid]
  rfl

/-- With a grid there is a board, unless there are no ladybugs on it. -/
theorem read_of_ofRows (h : charRows lines = rows.map (·.map Glyph.symbol)) {grid : Grid}
    (hgrid : Grid.ofRows (rows.map (·.map Glyph.contents)) = .ok grid) :
    read lines =
      if arrowsOf rows = [] then .error .noLadybugs else .ok (wrapped ⟨grid, arrowsOf rows⟩) := by
  rw [read, readRows_symbols h]
  change (Grid.ofRows (rows.map (·.map Glyph.contents)) >>= _) = _
  rw [hgrid]
  dsimp only [bind, Except.bind]
  rw [spawnsOf_eq, wrapped]
  cases arrowsOf rows with
  | nil => rfl
  | cons s arrows => rfl

/-- Rows of one length make a grid, and the rows show it. -/
theorem exists_shows {first : List Char} {below : List (List Char)}
    (h : charRows lines = rows.map (·.map Glyph.symbol)) (htext : charRows lines = first :: below)
    (hfirst : first ≠ []) (hbelow : ∀ cs ∈ below, cs.length = first.length) :
    ∃ grid, Grid.ofRows (rows.map (·.map Glyph.contents)) = .ok grid ∧
      Shows (charRows lines) ⟨grid, arrowsOf rows⟩ := by
  cases rows with
  | nil => cases h.symm.trans htext
  | cons top rows =>
      obtain ⟨htop, hrows⟩ := List.cons.inj (h.symm.trans htext)
      have hne : top.map Glyph.contents ≠ [] := by
        intro hnil
        rw [List.map_eq_nil_iff.mp hnil] at htop
        exact hfirst htop.symm
      have hlength : ∀ cells ∈ rows.map (·.map Glyph.contents),
          cells.length = (top.map Glyph.contents).length := by
        intro cells hcells
        obtain ⟨glyphs, hglyphs, rfl⟩ := List.mem_map.mp hcells
        have hlen := hbelow (glyphs.map Glyph.symbol) (hrows ▸ List.mem_map_of_mem hglyphs)
        rw [← htop, List.length_map, List.length_map] at hlen
        rw [List.length_map, List.length_map, hlen]
      obtain ⟨grid, hgrid⟩ := Grid.exists_ofRows hne hlength
      exact ⟨grid, hgrid, h ▸ shows_of_ofRows hgrid⟩

/-- There is an arrow in the rows if there is a ladybug. -/
theorem exists_arrow_of_shows {rows : List (List Char)} {board : Board} (h : Shows rows board)
    {s : Spawn} (hs : s ∈ board.spawns) : ∃ row ∈ rows, s.direction.symbol ∈ row := by
  obtain ⟨row, column, -, hchar⟩ := (h.spawns s).mp hs
  obtain ⟨cs, hrow, hcolumn⟩ := Option.bind_eq_some_iff.mp hchar
  exact ⟨cs, List.mem_of_getElem? hrow, List.mem_of_getElem? hcolumn⟩

/-- There is a ladybug if there is an arrow in the rows. -/
theorem spawns_ne_nil_of_shows {rows : List (List Char)} {board : Board} (h : Shows rows board)
    {row : List Char} {facing : Direction} (hrow : row ∈ rows) (hfacing : facing.symbol ∈ row) :
    board.spawns ≠ [] := by
  obtain ⟨i, hi⟩ := List.mem_iff_getElem?.mp hrow
  obtain ⟨j, hj⟩ := List.mem_iff_getElem?.mp hfacing
  have hmem : Spawn.mk ⟨j, i⟩ facing ∈ board.spawns :=
    (h.spawns ⟨⟨j, i⟩, facing⟩).mpr ⟨i, j, rfl, by rw [charAt?, hi]; exact hj⟩
  exact List.ne_nil_of_mem hmem

/-- The outcome of a text is what is read, except that places have 32 bits afterwards. -/
theorem Outcome.read_eq {result : Except GridError Board} (h : Outcome lines result) :
    read lines = result.map wrapped := by
  cases h with
  | @unknownSymbol above below before after c htext habove hbefore hc =>
      obtain ⟨above, rfl⟩ := Glyph.exists_map_map_symbol habove
      obtain ⟨before, rfl⟩ := Glyph.exists_map_symbol hbefore
      rw [read, readRows_unknown htext (Glyph.ofSymbol?_eq_none hc), List.length_map,
        List.length_map, Nat.zero_add]
      rfl
  | empty hknown hempty =>
      obtain ⟨rows, hrows⟩ := Glyph.exists_map_map_symbol hknown
      refine read_of_ofRows_error hrows.symm (Grid.ofRows_empty ?_)
      rw [← hrows] at hempty
      rcases hempty with hempty | ⟨below, hempty⟩
      · rw [List.map_eq_nil_iff.mp hempty]
        exact .inl rfl
      · obtain ⟨top, rows, rfl, htop, -⟩ := List.map_eq_cons_iff.mp hempty
        rw [List.map_eq_nil_iff.mp htop]
        exact .inr ⟨_, rfl⟩
  | @raggedRow first row between below hknown htext hfirst hbetween hrow =>
      obtain ⟨rows, hrows⟩ := Glyph.exists_map_map_symbol hknown
      refine read_of_ofRows_error hrows.symm ?_
      obtain ⟨top, rows, rfl, rfl, hrest⟩ := List.map_eq_cons_iff.mp (hrows.trans htext)
      obtain ⟨middle, rest, rfl, rfl, hbelow⟩ := List.map_eq_append_iff.mp hrest
      obtain ⟨ragged, bottom, rfl, rfl, -⟩ := List.map_eq_cons_iff.mp hbelow
      rw [List.map_cons, List.map_append, List.map_cons, Grid.ofRows_raggedRow]
      · simp only [List.length_map]
      · exact fun hnil => hfirst (by rw [List.map_eq_nil_iff.mp hnil]; rfl)
      · intro cells hcells
        obtain ⟨glyphs, hglyphs, rfl⟩ := List.mem_map.mp hcells
        have hlen := hbetween (glyphs.map Glyph.symbol) (List.mem_map_of_mem hglyphs)
        simpa only [List.length_map] using hlen
      · simpa only [List.length_map] using hrow
  | noLadybugs hknown htext hfirst hbelow hnone =>
      obtain ⟨rows, hrows⟩ := Glyph.exists_map_map_symbol hknown
      obtain ⟨grid, hgrid, hshows⟩ := exists_shows hrows.symm htext hfirst hbelow
      have hempty : arrowsOf rows = [] := by
        refine List.eq_nil_iff_forall_not_mem.mpr fun s hs => ?_
        obtain ⟨row, hrow, harrow⟩ := exists_arrow_of_shows hshows hs
        exact hnone row hrow s.direction harrow
      rw [read_of_ofRows hrows.symm hgrid, if_pos hempty]
      rfl
  | board hknown htext hfirst hbelow hrow hfacing hshown =>
      obtain ⟨rows, hrows⟩ := Glyph.exists_map_map_symbol hknown
      obtain ⟨grid, hgrid, hshows⟩ := exists_shows hrows.symm htext hfirst hbelow
      have hne : charRows lines ≠ [] := htext ▸ List.cons_ne_nil _ _
      rw [read_of_ofRows hrows.symm hgrid, if_neg (spawns_ne_nil_of_shows hshows hrow hfacing),
        hshows.unique hne hknown hshown]
      rfl

/-- A list has a first element without a property, if not all its elements have it. -/
theorem exists_first_not {α : Type} (p : α → Prop) (l : List α) :
    (∀ x ∈ l, p x) ∨ ∃ before x after, l = before ++ x :: after ∧ (∀ y ∈ before, p y) ∧ ¬ p x := by
  induction l with
  | nil => exact .inl nofun
  | cons x l ih =>
      by_cases hx : p x
      · rcases ih with hall | ⟨before, y, after, rfl, hbefore, hy⟩
        · exact .inl (List.forall_mem_cons.mpr ⟨hx, hall⟩)
        · exact .inr ⟨x :: before, y, after, rfl, List.forall_mem_cons.mpr ⟨hx, hbefore⟩, hy⟩
      · exact .inr ⟨[], x, l, rfl, nofun, hx⟩

/-- Every text has an outcome. -/
theorem exists_outcome (lines : List String) : ∃ result, Outcome lines result := by
  rcases exists_first_not (fun row => ∀ c ∈ row, Glyph.IsSymbol c) (charRows lines) with
    hknown | ⟨above, row, below, htext, habove, hrow⟩
  · cases htext : charRows lines with
    | nil => exact ⟨_, .empty hknown (.inl htext)⟩
    | cons first below =>
        by_cases hfirst : first = []
        · exact ⟨_, .empty hknown (.inr ⟨below, hfirst ▸ htext⟩)⟩
        · rcases exists_first_not (fun cs => cs.length = first.length) below with
            hbelow | ⟨between, ragged, rest, rfl, hbetween, hragged⟩
          · by_cases hnone : ∀ row ∈ charRows lines, ∀ facing : Direction, facing.symbol ∉ row
            · exact ⟨_, .noLadybugs hknown htext hfirst hbelow hnone⟩
            · simp only [not_forall, not_not] at hnone
              obtain ⟨row, hrow, facing, hfacing⟩ := hnone
              obtain ⟨rows, hrows⟩ := Glyph.exists_map_map_symbol hknown
              obtain ⟨grid, -, hshows⟩ := exists_shows hrows.symm htext hfirst hbelow
              exact ⟨_, .board hknown htext hfirst hbelow hrow hfacing hshows⟩
          · exact ⟨_, .raggedRow hknown htext hfirst hbetween hragged⟩
  · rcases exists_first_not Glyph.IsSymbol row with hall | ⟨before, c, after, rfl, hbefore, hc⟩
    · exact absurd hall hrow
    · exact ⟨_, .unknownSymbol htext habove hbefore hc⟩

/-- If all places can be counted, the outcome is read as it is. -/
theorem Outcome.wrapped_eq {result : Except GridError Board} (h : Outcome lines result)
    (hcount : Countable (charRows lines)) : result.map wrapped = result := by
  cases h with
  | board _ _ _ _ _ _ hshows => exact congrArg Except.ok (hshows.wrapped_eq hcount)
  | _ => rfl

/-- The board that is read is one that the text shows, in known characters, except that 32 bits
are kept of each coordinate. -/
theorem exists_shows_of_read {board : Board} (h : read lines = .ok board) :
    (∀ row ∈ charRows lines, ∀ c ∈ row, Glyph.IsSymbol c) ∧
      ∃ told, Shows (charRows lines) told ∧ told.wrapped = board := by
  obtain ⟨told, houtcome⟩ := exists_outcome lines
  have hread := houtcome.read_eq.symm.trans h
  cases houtcome with
  | board hknown _ _ _ _ _ hshows => exact ⟨hknown, _, hshows, Except.ok.inj hread⟩
  | _ => cases hread

/-- If the grid is countable, the text shows the board that is read. -/
theorem shows_of_read {board : Board} (h : read lines = .ok board)
    (hcountable : board.grid.Countable) : Shows (charRows lines) board := by
  obtain ⟨-, told, hshows, rfl⟩ := exists_shows_of_read h
  exact (hshows.wrapped_eq (hshows.countable hcountable)).symm ▸ hshows

/-- Every ladybug of a countable board starts on an empty cell. -/
theorem cell?_of_read {board : Board} (h : read lines = .ok board)
    (hcountable : board.grid.Countable) {s : Spawn} (hs : s ∈ board.spawns) :
    board.grid.cell? s.position = some .empty := by
  have hshows := shows_of_read h hcountable
  obtain ⟨row, column, hposition, hchar⟩ := (hshows.spawns s).mp hs
  exact hposition ▸ hshows.under row column s.direction hchar

/-- No two ladybugs of a countable board start on the same cell. -/
theorem pairwise_of_read {board : Board} (h : read lines = .ok board)
    (hcountable : board.grid.Countable) :
    board.spawns.Pairwise fun s t => s.position ≠ t.position :=
  (shows_of_read h hcountable).order.imp Position.Before.ne

/-- Rows of one length are read if their characters are known and there is an arrow. -/
theorem exists_read {first : List Char} {below : List (List Char)}
    (hknown : ∀ row ∈ charRows lines, ∀ c ∈ row, Glyph.IsSymbol c)
    (htext : charRows lines = first :: below) (hfirst : first ≠ [])
    (hbelow : ∀ cs ∈ below, cs.length = first.length) {row : List Char} {facing : Direction}
    (hrow : row ∈ charRows lines) (hfacing : facing.symbol ∈ row) :
    ∃ board, read lines = .ok board.wrapped ∧ Shows (charRows lines) board := by
  obtain ⟨rows, hrows⟩ := Glyph.exists_map_map_symbol hknown
  obtain ⟨grid, -, hshows⟩ := exists_shows hrows.symm htext hfirst hbelow
  exact ⟨_, (Outcome.board hknown htext hfirst hbelow hrow hfacing hshows).read_eq, hshows⟩

end Outcome

/-- **Reading a text has exactly the outcome that its characters tell**, except that 32 bits are
kept of each coordinate: it reports the first unknown character of all, else that there are no
cells, else the first ragged row, else that there are no ladybugs, and else it is the board that
the characters show. If no arrow is in a column or row beyond 32 bits, nothing is lost. -/
theorem read_eq_iff_outcome (lines : List String) :
    (∀ result, read lines = result ↔ ∃ told, Outcome lines told ∧ told.map wrapped = result) ∧
      (Countable (charRows lines) → ∀ result, read lines = result ↔ Outcome lines result) := by
  have hread (result : Except GridError Board) :
      read lines = result ↔ ∃ told, Outcome lines told ∧ told.map wrapped = result := by
    constructor
    · rintro rfl
      obtain ⟨told, htold⟩ := exists_outcome lines
      exact ⟨told, htold, htold.read_eq.symm⟩
    · rintro ⟨told, htold, rfl⟩
      exact htold.read_eq
  refine ⟨hread, fun hcount result => (hread result).trans ⟨?_, fun h => ?_⟩⟩
  · rintro ⟨told, htold, rfl⟩
    exact (htold.wrapped_eq hcount).symm ▸ htold
  · exact ⟨result, h, h.wrapped_eq hcount⟩

/-- Two ladybugs that face each other are read as they are. -/
theorem read_eq_iff_outcome_facing :
    Countable (charRows [">.<"]) ∧ ∃ board, read [">.<"] = .ok board ∧
      board.spawns = [⟨⟨0, 0⟩, .right⟩, ⟨⟨2, 0⟩, .left⟩] ∧ Outcome [">.<"] (.ok board) := by
  have hcount : Countable (charRows [">.<"]) := countable_of_length (by decide) (by decide)
  exact ⟨hcount, _, rfl, rfl, ((read_eq_iff_outcome _).2 hcount _).mp rfl⟩
/-- An unknown character is reported also where a row above it is ragged. -/
example : read [">..", "..", "x"] = .error (.unknownSymbol 'x' 3 1) := rfl

/-! ### A single arrow -/

/-- A line with an arrow and so many empty cells to the left and to the right of it. -/
def loneLine (left right : Nat) : String :=
  String.ofList (List.replicate left '.' ++ '^' :: List.replicate right '.')

/-- Its glyphs. -/
def loneRow (left right : Nat) : List Glyph :=
  List.replicate left (.cell .empty) ++ .ladybug .up :: List.replicate right (.cell .empty)

/-- The line is written with the symbols of its glyphs. -/
theorem charRows_loneLine (left right : Nat) :
    charRows [loneLine left right] = [loneRow left right].map (·.map Glyph.symbol) := by
  have hknown : ∀ row ∈ [(loneRow left right).map Glyph.symbol], ∀ c ∈ row, Glyph.IsSymbol c := by
    intro row hrow c hc
    rw [List.mem_singleton.mp hrow] at hc
    obtain ⟨glyph, -, rfl⟩ := List.mem_map.mp hc
    exact Glyph.isSymbol_iff.mpr ⟨glyph, rfl⟩
  have hline : loneLine left right = String.ofList ((loneRow left right).map Glyph.symbol) := by
    rw [loneRow, List.map_append, List.map_cons, List.map_replicate, List.map_replicate]
    rfl
  rw [hline]
  exact charRows_ofList hknown

/-- There is no other arrow in the row. -/
theorem getElem?_loneRow {left right column : Nat} {facing : Direction} :
    (loneRow left right)[column]? = some (.ladybug facing) ↔ column = left ∧ facing = .up := by
  have hcells {n i : Nat} :
      (List.replicate n (Glyph.cell .empty))[i]? ≠ some (.ladybug facing) := fun h =>
    nomatch List.eq_of_mem_replicate (List.mem_of_getElem? h)
  constructor
  · intro h
    rcases Nat.lt_trichotomy column left with hlt | rfl | hlt
    · rw [loneRow, List.getElem?_append_left (by rwa [List.length_replicate])] at h
      exact absurd h hcells
    · rw [loneRow, List.getElem?_append_right (by rw [List.length_replicate]),
        List.length_replicate, Nat.sub_self] at h
      cases h
      exact ⟨rfl, rfl⟩
    · obtain ⟨k, rfl⟩ := Nat.exists_eq_add_of_lt hlt
      rw [loneRow, List.getElem?_append_right (by rw [List.length_replicate]; omega),
        List.length_replicate, Nat.add_assoc, Nat.add_sub_cancel_left, List.getElem?_cons_succ] at h
      exact absurd h hcells
  · rintro ⟨rfl, rfl⟩
    rw [loneRow, List.getElem?_append_right (by rw [List.length_replicate]),
      List.length_replicate, Nat.sub_self, List.getElem?_cons_zero]

/-- So it is the only one that is found. -/
theorem arrowsOf_loneRow (left right : Nat) :
    arrowsOf [loneRow left right] = [⟨⟨left, 0⟩, .up⟩] := by
  have hrow : arrowsOf [loneRow left right] = rowArrows 0 (loneRow left right) :=
    List.append_nil _
  have hmem (s : Spawn) : s ∈ arrowsOf [loneRow left right] ↔ s ∈ [⟨⟨left, 0⟩, .up⟩] := by
    rw [hrow, mem_rowArrows_iff, List.mem_singleton]
    constructor
    · rintro ⟨column, hglyph, hposition⟩
      obtain ⟨rfl, hfacing⟩ := getElem?_loneRow.mp hglyph
      cases s
      exact congr (congrArg Spawn.mk hposition) hfacing
    · rintro rfl
      exact ⟨left, getElem?_loneRow.mpr ⟨rfl, rfl⟩, rfl⟩
  have hnodup : (arrowsOf [loneRow left right]).Nodup :=
    (pairwise_arrowsOf _).imp fun hbefore heq => hbefore.ne (congrArg Spawn.position heq)
  exact List.perm_singleton.mp
    ((List.perm_ext_iff_of_nodup hnodup (List.nodup_singleton _)).mpr hmem)

/-- A line with one arrow is read as one row with one ladybug. -/
theorem exists_read_lone (left right : Nat) :
    ∃ grid : Grid, grid.columns = left + (right + 1) ∧ grid.rows = 1 ∧
      read [loneLine left right] = .ok ⟨grid, [⟨.ofPlace left 0, .up⟩]⟩ := by
  have hlength : ((loneRow left right).map Glyph.contents).length = left + (right + 1) := by
    simp [loneRow]
  obtain ⟨grid, hgrid⟩ : ∃ grid, Grid.ofRows [(loneRow left right).map Glyph.contents] = .ok grid :=
    Grid.exists_ofRows (List.ne_nil_of_length_pos (hlength.symm ▸ Nat.succ_pos _)) nofun
  obtain ⟨hcolumns, hrows⟩ := Grid.shape_of_ofRows hgrid
  refine ⟨grid, (hcolumns _ List.mem_cons_self).symm.trans hlength, hrows.symm, ?_⟩
  rw [read_of_ofRows (charRows_loneLine left right) hgrid, arrowsOf_loneRow]
  rfl

/-- An arrow in a column that 32 bits cannot count is read as a ladybug to the left of the grid. -/
theorem read_lone_beyond :
    ∃ board, read [loneLine 0x80000000 0] = .ok board ∧
      board.spawns = [⟨⟨-0x80000000, 0⟩, .up⟩] ∧ ¬ Outcome [loneLine 0x80000000 0] (.ok board) := by
  obtain ⟨grid, -, -, hread⟩ := exists_read_lone 0x80000000 0
  rw [Position.ofPlace_beyond] at hread
  refine ⟨_, hread, rfl, fun houtcome => ?_⟩
  cases houtcome with
  | board _ _ _ _ _ _ hshows =>
      -- The text shows ladybugs in its own columns only, and none of them is negative.
      obtain ⟨row, column, hposition, -⟩ := (hshows.spawns _).mp List.mem_cons_self
      have hcolumn : (-0x80000000 : Int) = column := congrArg Position.column hposition
      omega

end Board

end Ladybug
