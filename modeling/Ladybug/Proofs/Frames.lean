import Ladybug.Proofs.Checked.Showing

/-!
# Boards shown and read back

A board is shown within a frame, and what is inside the frame is again a text that can be read.
This module says what becomes of a board on the way out and back in.

What is seen in a place depends on who stands there: if nobody does, it is the cell, and otherwise
the arrow of a ladybug. So a board that has just been read looks as it was written. A board in play
need not be one that anybody could have written, since ladybugs may stand on leaves and mushrooms.
Reading it back gives the ladybugs as they stand, but what lies under them is lost.

All of this takes a countable grid. A place that 32 bits cannot count is looked up at a position
outside the grid, where there is no cell.

## Main definitions

* `Render.frame` and `Render.unframe` — lines with a border around them, and without it.
* `Render.drawnRows` — the characters of a board, row after row.
* `World.Apart` — all visible ladybugs can be seen.
* `World.Seen` — the board that somebody sees who looks at a world.

## Main results

* `Render.charAt?_drawnRows` and its companions — what is seen in a place.
* `Render.drawnRows_of_shows` — a board that was read is drawn as it was written.
* `Render.exists_read_drawn` — a drawn board is read as it is seen.
* `Game.Reachable.apart` — in a reachable game with a countable grid all ladybugs can be seen.
* `Render.board_inverse_read` — showing and reading are inverse to each other.
* `Render.board_lone_beyond` — one column further a board is not shown.
-/

namespace Ladybug

/-! ### Frames -/

namespace Render

/-- Rows of characters with bars at their ends and a border above and below. -/
def frame (columns : Nat) (rows : List (List Char)) : List String :=
  border columns :: rows.map (fun row => String.ofList ('|' :: row ++ ['|'])) ++ [border columns]

/-- The lines within a frame: the first and the last line are left out, and of the other lines
the first and the last character. -/
def unframe (framed : List String) : List String :=
  framed.tail.dropLast.map fun line => String.ofList line.toList.tail.dropLast

/-- Rows of characters are taken out of their frame again. -/
theorem unframe_frame (columns : Nat) (rows : List (List Char)) :
    unframe (frame columns rows) = rows.map String.ofList := by
  rw [frame, unframe, List.cons_append, List.tail_cons, List.dropLast_concat, List.map_map]
  refine List.map_congr_left fun row _ => ?_
  rw [Function.comp_apply, String.toList_ofList, List.cons_append, List.tail_cons,
    List.dropLast_concat]

/-- The characters of a board with its visible ladybugs, row after row. -/
def drawnRows (w : World) (visible : List AgentId) : List (List Char) :=
  (List.range w.grid.rows).map (shownRow w.grid (glyphs w.colony visible))

/-- A board is shown as its rows in a frame. -/
theorem board_eq_frame (w : World) (visible : List AgentId) :
    board w visible = frame w.grid.columns (drawnRows w visible) := by
  rw [board, frame, drawnRows, List.map_map]
  rfl

end Render

/-! ### What is seen -/

/-- Where a ladybug stands and which way it faces, as a board would tell it. -/
def World.stance (w : World) (a : AgentId) : Spawn := ⟨w.colony.position a, w.colony.direction a⟩

/-- The visible ladybugs stand inside the grid, each on a cell of its own. -/
structure World.Apart (w : World) (visible : List AgentId) : Prop where
  inBounds : ∀ a ∈ visible, w.grid.inBounds (w.colony.position a)
  distinct : (visible.map w.colony.position).Nodup

/-- The board that is seen of a world: its grid, but empty under the visible ladybugs, and these
ladybugs in reading order. -/
structure World.Seen (w : World) (visible : List AgentId) (board : Board) : Prop where
  columns : board.grid.columns = w.grid.columns
  rows : board.grid.rows = w.grid.rows
  under : ∀ a ∈ visible, board.grid.cell? (w.colony.position a) = some .empty
  elsewhere : ∀ p, (∀ a ∈ visible, w.colony.position a ≠ p) →
    board.grid.cell? p = w.grid.cell? p
  spawns : board.spawns.Perm (visible.map w.stance)
  order : board.spawns.Pairwise fun s t => s.position.Before t.position

/-- The board that is seen has the bounds of the world. -/
theorem World.Seen.inBounds {w : World} {visible : List AgentId} {board : Board}
    (h : w.Seen visible board) (p : Position) : board.grid.inBounds p = w.grid.inBounds p := by
  rw [Grid.inBounds, Grid.inBounds, h.columns, h.rows]

namespace Render

variable {w : World} {visible : List AgentId} {p : Position}

/-! ### Places -/

/-- What is found at a position is the arrow of somebody who stands there. -/
theorem exists_of_lookup_glyphs {c : Char} (h : (glyphs w.colony visible).lookup p = some c) :
    ∃ a ∈ visible, w.colony.position a = p ∧ (w.colony.direction a).symbol = c := by
  obtain ⟨before, after, hsplit, -⟩ := List.lookup_eq_some_iff.mp h
  have hmem : (p, c) ∈ glyphs w.colony visible := by
    rw [hsplit]
    exact List.mem_append_right _ List.mem_cons_self
  obtain ⟨a, ha, hentry⟩ := List.mem_map.mp (List.mem_reverse.mp hmem)
  exact ⟨a, ha, Prod.mk.inj hentry⟩

/-- Where nobody stands no ladybug is found. -/
theorem lookup_glyphs_of_free (hfree : ∀ a ∈ visible, w.colony.position a ≠ p) :
    (glyphs w.colony visible).lookup p = none := by
  refine List.lookup_eq_none_iff.mpr fun entry hentry => ?_
  obtain ⟨a, ha, rfl⟩ := List.mem_map.mp (List.mem_reverse.mp hentry)
  exact bne_iff_ne.mpr (hfree a ha).symm

/-- If all who stand in a place face the same way, that is what is found there. -/
theorem lookup_glyphs_of_stands {facing : Direction}
    (hsome : ∃ a ∈ visible, w.colony.position a = p)
    (halike : ∀ a ∈ visible, w.colony.position a = p → w.colony.direction a = facing) :
    (glyphs w.colony visible).lookup p = some facing.symbol := by
  cases hfound : (glyphs w.colony visible).lookup p with
  | none =>
      obtain ⟨a, ha, hap⟩ := hsome
      have hmem := List.mem_reverse.mpr (List.mem_map_of_mem
        (f := fun a => (w.colony.position a, (w.colony.direction a).symbol)) ha)
      exact absurd hap.symm (bne_iff_ne.mp (List.lookup_eq_none_iff.mp hfound _ hmem))
  | some c =>
      obtain ⟨a, ha, hap, rfl⟩ := exists_of_lookup_glyphs hfound
      rw [halike a ha hap]

/-- Outside the grid a question mark is seen where nobody stands. -/
theorem shown_of_not_inBounds (hp : ¬ w.grid.inBounds p)
    (hfree : ∀ a ∈ visible, w.colony.position a ≠ p) :
    shown w.grid (glyphs w.colony visible) p = '?' := by
  rw [shown, lookup_glyphs_of_free hfree, Grid.cell?_eq_none hp]
  rfl

/-- Nothing but cells and arrows is seen inside the grid. -/
theorem isSymbol_shown (hp : w.grid.inBounds p) :
    Glyph.IsSymbol (shown w.grid (glyphs w.colony visible) p) := by
  obtain ⟨cell, hcell⟩ := Grid.exists_cell? hp
  rw [shown, hcell]
  cases hfound : (glyphs w.colony visible).lookup p with
  | none => exact .inl ⟨cell, rfl⟩
  | some c =>
      obtain ⟨a, -, -, rfl⟩ := exists_of_lookup_glyphs hfound
      exact .inr ⟨w.colony.direction a, rfl⟩

/-! ### Rows -/

@[simp] theorem length_drawnRows : (drawnRows w visible).length = w.grid.rows := by
  rw [drawnRows, List.length_map, List.length_range]

/-- Each row has one character for each column. -/
theorem length_of_mem_drawnRows {cs : List Char} (h : cs ∈ drawnRows w visible) :
    cs.length = w.grid.columns := by
  obtain ⟨row, -, rfl⟩ := List.mem_map.mp h
  rw [shownRow, List.length_map, List.length_range]

/-- Rows are made of known characters. -/
theorem isSymbol_of_mem_drawnRows (hcountable : w.grid.Countable) {cs : List Char}
    (h : cs ∈ drawnRows w visible) {c : Char} (hc : c ∈ cs) : Glyph.IsSymbol c := by
  obtain ⟨row, hrow, rfl⟩ := List.mem_map.mp h
  obtain ⟨column, hcolumn, rfl⟩ := List.mem_map.mp hc
  rw [List.mem_range] at hrow hcolumn
  rw [hcountable.ofPlace_eq hrow hcolumn]
  exact isSymbol_shown (Grid.inBounds_of_lt hrow hcolumn)

/-- What is seen in a place is what is shown at its position. -/
theorem charAt?_drawnRows {row column : Nat} (hrow : row < w.grid.rows)
    (hcolumn : column < w.grid.columns) :
    Board.charAt? (drawnRows w visible) row column =
      some (shown w.grid (glyphs w.colony visible) (.ofPlace column row)) := by
  rw [Board.charAt?, drawnRows, List.getElem?_map, List.getElem?_range hrow, Option.map_some,
    Option.bind_some, shownRow, List.getElem?_map, List.getElem?_range hcolumn, Option.map_some]

/-- Where nobody stands the cell is seen. -/
theorem charAt?_drawnRows_of_free (hcountable : w.grid.Countable) {row column : Nat}
    (hrow : row < w.grid.rows) (hcolumn : column < w.grid.columns)
    (hfree : ∀ a ∈ visible, w.colony.position a ≠ ⟨column, row⟩) :
    Board.charAt? (drawnRows w visible) row column =
      (w.grid.cell? ⟨column, row⟩).map Cell.symbol := by
  have hin := Grid.inBounds_of_lt hrow hcolumn
  obtain ⟨cell, hcell⟩ := Grid.exists_cell? hin
  rw [charAt?_drawnRows hrow hcolumn, hcountable.ofPlace_eq hrow hcolumn, shown,
    lookup_glyphs_of_free hfree, hcell]
  rfl

/-- Where somebody stands an arrow is seen. -/
theorem charAt?_drawnRows_of_stands (hcountable : w.grid.Countable) {row column : Nat}
    (hrow : row < w.grid.rows) (hcolumn : column < w.grid.columns) {facing : Direction}
    (hsome : ∃ a ∈ visible, w.colony.position a = ⟨column, row⟩)
    (halike : ∀ a ∈ visible, w.colony.position a = ⟨column, row⟩ → w.colony.direction a = facing) :
    Board.charAt? (drawnRows w visible) row column = some facing.symbol := by
  rw [charAt?_drawnRows hrow hcolumn, hcountable.ofPlace_eq hrow hcolumn, shown,
    lookup_glyphs_of_stands hsome halike]
  rfl

end Render

/-! ### Drawn as written -/

/-- Symbols of ladybugs are not symbols of cells. -/
theorem Cell.symbol_ne_symbol (cell : Cell) (facing : Direction) : cell.symbol ≠ facing.symbol := by
  cases cell <;> cases facing <;> decide

/-- The symbol of a ladybug shows which way it faces. -/
theorem Direction.symbol_injective {d e : Direction} (h : d.symbol = e.symbol) : d = e := by
  have hglyph : Glyph.ladybug d = Glyph.ladybug e := Glyph.symbol_injective h
  exact Glyph.ladybug.inj hglyph

/-- Rows of characters are known by their shape and by what is seen in each place. -/
theorem Board.eq_of_charAt? {text text' : List (List Char)} {columns : Nat}
    (hcolumns : ∀ row ∈ text, row.length = columns)
    (hcolumns' : ∀ row ∈ text', row.length = columns) (hrows : text.length = text'.length)
    (h : ∀ row < text.length, ∀ column < columns,
      charAt? text row column = charAt? text' row column) : text = text' := by
  refine List.ext_getElem hrows fun row hrow hrow' => ?_
  have hlength := hcolumns _ (List.getElem_mem hrow)
  have hlength' := hcolumns' _ (List.getElem_mem hrow')
  refine List.ext_getElem? fun column => ?_
  by_cases hcolumn : column < columns
  · have hplace := h row hrow column hcolumn
    rwa [charAt?, charAt?, List.getElem?_eq_getElem hrow, List.getElem?_eq_getElem hrow',
      Option.bind_some, Option.bind_some] at hplace
  · rw [List.getElem?_eq_none (hlength.symm ▸ Nat.le_of_not_lt hcolumn),
      List.getElem?_eq_none (hlength'.symm ▸ Nat.le_of_not_lt hcolumn)]

/-- The ladybugs of a board are listed in the table as they are on the board. -/
theorem World.mem_spawns_iff {board : Board} {s : Spawn} :
    s ∈ board.spawns ↔ ∃ a, (ofBoard board).colony.contains a ∧ (ofBoard board).stance a = s := by
  constructor
  · intro hs
    obtain ⟨row, hrow⟩ := List.mem_iff_getElem?.mp hs
    obtain ⟨hlt, -⟩ := List.getElem?_eq_some_iff.mp hrow
    have hcontains : (ofBoard board).colony.contains (.ofIndex row) :=
      Colony.contains_ofIndex.mpr hlt
    exact ⟨_, hcontains, Option.some.inj ((Colony.getElem?_spawns hcontains).symm.trans hrow)⟩
  · rintro ⟨a, ha, rfl⟩
    exact List.mem_of_getElem? (Colony.getElem?_spawns ha)

namespace Render

/-- A board on which all ladybugs are visible is drawn as it was written. -/
theorem drawnRows_of_shows {text : List (List Char)} {board : Board}
    (hknown : ∀ row ∈ text, ∀ c ∈ row, Glyph.IsSymbol c) (h : Board.Shows text board)
    (hcountable : board.grid.Countable) {visible : List AgentId}
    (hall : ∀ a, a ∈ visible ↔ (World.ofBoard board).colony.contains a) :
    drawnRows (.ofBoard board) visible = text := by
  -- Whoever stands in a place was found there, so it is the arrow that is written there.
  have hwritten (a : AgentId) (ha : a ∈ visible) {row column : Nat}
      (hposition : (World.ofBoard board).colony.position a = ⟨column, row⟩) :
      Board.charAt? text row column = some ((World.ofBoard board).colony.direction a).symbol := by
    obtain ⟨row', column', hposition', hchar⟩ :=
      (h.spawns _).mp (World.mem_spawns_iff.mpr ⟨a, (hall a).mp ha, rfl⟩)
    obtain ⟨hcolumn, hrow⟩ := Position.mk.inj (hposition.symm.trans hposition')
    rwa [Int.ofNat.inj hrow, Int.ofNat.inj hcolumn]
  refine Board.eq_of_charAt? (fun _ => length_of_mem_drawnRows) h.columns
    (length_drawnRows.trans h.rows.symm) fun row hrow column hcolumn => ?_
  rw [length_drawnRows] at hrow
  obtain ⟨cs, hcs, c, hc, hchar⟩ := Board.exists_charAt? h.columns (h.rows.symm ▸ hrow) hcolumn
  rw [hchar]
  rcases hknown cs hcs c hc with ⟨cell, rfl⟩ | ⟨facing, rfl⟩
  · have hfree : ∀ a ∈ visible, (World.ofBoard board).colony.position a ≠ ⟨column, row⟩ := by
      intro a ha hposition
      have harrow := hchar.symm.trans (hwritten a ha hposition)
      exact Cell.symbol_ne_symbol cell _ (Option.some.inj harrow)
    rw [charAt?_drawnRows_of_free hcountable hrow hcolumn hfree]
    exact congrArg (Option.map Cell.symbol) (h.cell row column cell hchar)
  · obtain ⟨a, ha, hstance⟩ :=
      World.mem_spawns_iff.mp ((h.spawns ⟨⟨column, row⟩, facing⟩).mpr ⟨row, column, rfl, hchar⟩)
    refine charAt?_drawnRows_of_stands hcountable hrow hcolumn
      ⟨a, (hall a).mpr ha, congrArg Spawn.position hstance⟩ fun b hb hposition => ?_
    have harrow := (hwritten b hb hposition).symm.trans hchar
    exact Direction.symbol_injective (Option.some.inj harrow)

end Render

/-! ### Read as seen -/

namespace World.Apart

variable {w : World} {visible : List AgentId}

/-- Each visible ladybug is the only one in its place. -/
theorem direction_eq (h : w.Apart visible) {a b : AgentId} (ha : a ∈ visible) (hb : b ∈ visible)
    (hposition : w.colony.position b = w.colony.position a) :
    w.colony.direction b = w.colony.direction a :=
  congrArg w.colony.direction (List.inj_on_of_nodup_map h.distinct hb ha hposition)

/-- A visible ladybug is seen where it stands. -/
theorem charAt?_drawnRows (h : w.Apart visible) (hcountable : w.grid.Countable) {a : AgentId}
    (ha : a ∈ visible) {row column : Nat} (hposition : w.colony.position a = ⟨column, row⟩) :
    Board.charAt? (Render.drawnRows w visible) row column =
      some (w.colony.direction a).symbol := by
  obtain ⟨row', hrow, column', hcolumn, hposition'⟩ := Grid.exists_place (h.inBounds a ha)
  obtain ⟨hc, hr⟩ := Position.mk.inj (hposition.symm.trans hposition')
  obtain rfl := Int.ofNat.inj hc
  obtain rfl := Int.ofNat.inj hr
  exact Render.charAt?_drawnRows_of_stands hcountable hrow hcolumn ⟨a, ha, hposition⟩
    fun b hb hb' => h.direction_eq ha hb (hb'.trans hposition.symm)

/-- An arrow is seen where a visible ladybug stands and faces that way, and nowhere else. -/
theorem charAt?_drawnRows_eq_arrow_iff (h : w.Apart visible) (hcountable : w.grid.Countable)
    {row column : Nat} {facing : Direction} :
    Board.charAt? (Render.drawnRows w visible) row column = some facing.symbol ↔
      ∃ a ∈ visible, w.stance a = ⟨⟨column, row⟩, facing⟩ := by
  constructor
  · intro hchar
    obtain ⟨cs, hrow, hcolumn⟩ := Option.bind_eq_some_iff.mp hchar
    have hrow' : row < w.grid.rows := by
      obtain ⟨hlt, -⟩ := List.getElem?_eq_some_iff.mp hrow
      rwa [Render.length_drawnRows] at hlt
    have hcolumn' : column < w.grid.columns := by
      obtain ⟨hlt, -⟩ := List.getElem?_eq_some_iff.mp hcolumn
      rwa [Render.length_of_mem_drawnRows (List.mem_of_getElem? hrow)] at hlt
    by_cases hsome : ∃ a ∈ visible, w.colony.position a = ⟨column, row⟩
    · obtain ⟨a, ha, hposition⟩ := hsome
      have harrow := (h.charAt?_drawnRows hcountable ha hposition).symm.trans hchar
      have hfacing := Direction.symbol_injective (Option.some.inj harrow)
      exact ⟨a, ha, by rw [World.stance, hposition, hfacing]⟩
    · have hfree : ∀ a ∈ visible, w.colony.position a ≠ ⟨column, row⟩ :=
        fun a ha hposition => hsome ⟨a, ha, hposition⟩
      rw [Render.charAt?_drawnRows_of_free hcountable hrow' hcolumn' hfree] at hchar
      obtain ⟨cell, -, hcell⟩ := Option.map_eq_some_iff.mp hchar
      exact absurd hcell (cell.symbol_ne_symbol facing)
  · rintro ⟨a, ha, hstance⟩
    rw [h.charAt?_drawnRows hcountable ha (congrArg Spawn.position hstance)]
    exact congrArg (some ∘ Direction.symbol ∘ Spawn.direction) hstance

/-- The drawn rows show the visible ladybugs, as they stand and face. -/
theorem mem_spawns_of_shows (h : w.Apart visible) (hcountable : w.grid.Countable) {board : Board}
    (hshows : Board.Shows (Render.drawnRows w visible) board) (s : Spawn) :
    s ∈ board.spawns ↔ s ∈ visible.map w.stance := by
  rw [hshows.spawns, List.mem_map]
  constructor
  · rintro ⟨row, column, hposition, hchar⟩
    obtain ⟨a, ha, hstance⟩ := (h.charAt?_drawnRows_eq_arrow_iff hcountable).mp hchar
    exact ⟨a, ha, by rw [hstance, ← hposition]⟩
  · rintro ⟨a, ha, rfl⟩
    obtain ⟨row, -, column, -, hposition⟩ := Grid.exists_place (h.inBounds a ha)
    exact ⟨row, column, hposition, h.charAt?_drawnRows hcountable ha hposition⟩

/-- The board that the drawn rows show is the one that is seen. -/
theorem seen_of_shows (h : w.Apart visible) (hcountable : w.grid.Countable)
    (hrows : 0 < w.grid.rows) {board : Board}
    (hshows : Board.Shows (Render.drawnRows w visible) board) : w.Seen visible board := by
  have hcolumns : board.grid.columns = w.grid.columns := by
    have hne : Render.drawnRows w visible ≠ [] :=
      List.ne_nil_of_length_pos (Render.length_drawnRows.symm ▸ hrows)
    obtain ⟨cs, hcs⟩ := List.exists_mem_of_ne_nil _ hne
    rw [← hshows.columns cs hcs, Render.length_of_mem_drawnRows hcs]
  have hheight : board.grid.rows = w.grid.rows := hshows.rows.symm.trans Render.length_drawnRows
  constructor
  · exact hcolumns
  · exact hheight
  · intro a ha
    obtain ⟨row, -, column, -, hposition⟩ := Grid.exists_place (h.inBounds a ha)
    rw [hposition]
    exact hshows.under row column _ (h.charAt?_drawnRows hcountable ha hposition)
  · intro p hfree
    by_cases hp : w.grid.inBounds p
    · obtain ⟨row, hrow, column, hcolumn, rfl⟩ := Grid.exists_place hp
      have hchar := Render.charAt?_drawnRows_of_free hcountable hrow hcolumn hfree
      obtain ⟨cell, hcell⟩ := Grid.exists_cell? hp
      rw [hcell] at hchar ⊢
      exact hshows.cell row column cell hchar
    · have hp' : ¬ board.grid.inBounds p := by
        rwa [Grid.inBounds_iff, hcolumns, hheight, ← Grid.inBounds_iff]
      rw [Grid.cell?_eq_none hp, Grid.cell?_eq_none hp']
  · have hnodup : (visible.map w.stance).Nodup := by
      refine List.Nodup.of_map Spawn.position ?_
      rw [List.map_map]
      exact h.distinct
    exact (List.perm_ext_iff_of_nodup hshows.nodup hnodup).mpr
      (h.mem_spawns_of_shows hcountable hshows)
  · exact hshows.order

end World.Apart

namespace Render

/-- A drawn board is read as it is seen. -/
theorem exists_read_drawn {w : World} {visible : List AgentId} (hcountable : w.grid.Countable)
    (hcolumns : 0 < w.grid.columns) (hrows : 0 < w.grid.rows) (hne : visible ≠ [])
    (h : w.Apart visible) :
    ∃ read, Board.read (unframe (board w visible)) = .ok read ∧ w.Seen visible read := by
  have htext : Board.charRows (unframe (board w visible)) = drawnRows w visible := by
    rw [board_eq_frame, unframe_frame]
    exact Board.charRows_ofList fun _ hcs _ => isSymbol_of_mem_drawnRows hcountable hcs
  obtain ⟨first, below, hsplit⟩ : ∃ first below, drawnRows w visible = first :: below :=
    List.exists_cons_of_length_pos (length_drawnRows.symm ▸ hrows)
  have hlength {cs : List Char} (hcs : cs ∈ first :: below) : cs.length = w.grid.columns :=
    length_of_mem_drawnRows (hsplit ▸ hcs)
  have hfirst := hlength List.mem_cons_self
  obtain ⟨a, ha⟩ := List.exists_mem_of_ne_nil visible hne
  obtain ⟨row, -, column, -, hposition⟩ := Grid.exists_place (h.inBounds a ha)
  obtain ⟨cs, hcs, hfacing⟩ :=
    Option.bind_eq_some_iff.mp (h.charAt?_drawnRows hcountable ha hposition)
  obtain ⟨read, hread, hshows⟩ := Board.exists_read (htext.symm ▸ fun _ hcs _ =>
      isSymbol_of_mem_drawnRows hcountable hcs) (htext.trans hsplit)
    (List.ne_nil_of_length_pos (hfirst.symm ▸ hcolumns))
    (fun cs hcs => (hlength (List.mem_cons_of_mem first hcs)).trans hfirst.symm)
    (htext.symm ▸ List.mem_of_getElem? hcs) (List.mem_of_getElem? hfacing)
  have hseen := h.seen_of_shows hcountable hrows (htext ▸ hshows)
  have hkept := hshows.wrapped_eq (hshows.countable (hcountable.congr fun p => hseen.inBounds p))
  exact ⟨read, hkept ▸ hread, hseen⟩

end Render

/-- Of a settled world any ladybugs can be seen. -/
theorem World.Settled.apart_of_nodup {w : World} (h : w.Settled) {visible : List AgentId}
    (hnodup : visible.Nodup) (hmem : ∀ a ∈ visible, w.colony.contains a) : w.Apart visible where
  inBounds a ha := h.inBounds a (hmem a ha)
  distinct := hnodup.map_on fun a ha b hb => h.apart a b (hmem a ha) (hmem b hb)

/-- In a reachable game with a countable grid all ladybugs can be seen. -/
theorem Game.Reachable.apart {g : Game} (h : g.Reachable) {w : World} (hw : g.world = .ok w)
    (hcountable : w.grid.Countable) {visible : List AgentId} (hnodup : visible.Nodup)
    (hmem : ∀ a ∈ visible, w.colony.contains a) : w.Apart visible := by
  obtain ⟨f, hf, hworld⟩ := exists_ok_of_bind hw
  obtain rfl := Except.ok.inj hworld
  have hsettled := h.settled_field (Game.loaded_eq_ok_iff.mp hf) hcountable
  exact hsettled.world.apart_of_nodup hnodup hmem

namespace Render

/-- **Showing and reading are inverse to each other** on countable grids: a board that was read and
is shown with all its ladybugs is the text it was read from in a frame, without the carriage returns
at the ends of lines. A world that is shown with any ladybugs that stand apart is read back as it
is seen, and in a reachable game all ladybugs stand apart. -/
theorem board_inverse_read (lines : List String) (w : World) (visible : List AgentId) :
    (∀ read, Board.read lines = .ok read → read.grid.Countable →
      board (.ofBoard read) (World.ofBoard read).colony.ids =
        frame read.grid.columns (lines.map fun line => Text.dropReturns line.toList)) ∧
    (0 < w.grid.columns → 0 < w.grid.rows → w.grid.Countable → visible ≠ [] → w.Apart visible →
      ∃ read, Board.read (unframe (board w visible)) = .ok read ∧ w.Seen visible read) ∧
    ∀ g : Game, g.Reachable → g.world = .ok w → w.grid.Countable → visible.Nodup →
      (∀ a ∈ visible, w.colony.contains a) → w.Apart visible := by
  refine ⟨fun read hread hcountable => ?_, fun hcolumns hrows hcountable hne h => ?_,
    fun g h hw hcountable hnodup hmem => ?_⟩
  · have hknown := (Board.exists_shows_of_read hread).1
    have hshows := Board.shows_of_read hread hcountable
    rw [board_eq_frame, drawnRows_of_shows hknown hshows hcountable fun a => Colony.mem_ids]
    rfl
  · exact exists_read_drawn hcountable hcolumns hrows hne h
  · exact h.apart hw hcountable hnodup hmem

/-- A mushroom pushed under the second ladybug is not seen, whoever is drawn first. -/
theorem board_inverse_read_pushed_under :
    (∃ read, Board.read [">o^\r"] = .ok read ∧
      board (.ofBoard read) (World.ofBoard read).colony.ids = ["+---+", "|>o^|", "+---+"]) ∧
    let g := ((Game.new.after (.loadBoard [">o^"])).after
      (.loadTrees ["flowchart TD", "A[->] --> B[move]"])).after (.tick .first)
    ∃ w, g.world = .ok w ∧ w.grid.cell? (w.colony.position ⟨2⟩) = some .mushroom ∧
      unframe (board w [⟨2⟩, .first]) = [".>^"] ∧
      ∃ read, Board.read [".>^"] = .ok read ∧ w.Seen [⟨2⟩, .first] read := by
  let pushed : World := ⟨⟨3, 1, #[.empty, .empty, .mushroom], rfl⟩,
    ⟨2, #[⟨1, 0⟩, ⟨2, 0⟩], #[.right, .up], #[true, false]⟩⟩
  obtain ⟨hshown, hinverse, hreachable⟩ := board_inverse_read [">o^\r"] pushed [⟨2⟩, .first]
  constructor
  · have hread : Board.read [">o^\r"] = .ok ⟨⟨3, 1, #[.empty, .mushroom, .empty], rfl⟩,
        [⟨⟨0, 0⟩, .right⟩, ⟨⟨2, 0⟩, .up⟩]⟩ := by decide +kernel
    have hcountable : Grid.Countable ⟨3, 1, #[.empty, .mushroom, .empty], rfl⟩ :=
      (Grid.small_of_le (by decide) (by decide)).countable
    exact ⟨_, hread, (hshown _ hread hcountable).trans (by decide +kernel)⟩
  · intro g
    have hreach : g.Reachable := .after _ (.after _ (.after _ .new))
    have hw : g.world = .ok pushed := by decide +kernel
    have hcountable : pushed.grid.Countable :=
      (Grid.small_of_le (by decide) (by decide)).countable
    have hapart := hreachable g hreach hw hcountable (by decide) (by decide)
    have hread := hinverse (by decide) (by decide) hcountable (by decide) hapart
    have hlines : unframe (board pushed [⟨2⟩, .first]) = [".>^"] := by decide +kernel
    exact ⟨pushed, hw, rfl, hlines, hlines ▸ hread⟩

/-- The characters within a frame are known by it. -/
theorem frame_injective {columns : Nat} {rows rows' : List (List Char)}
    (h : frame columns rows = frame columns rows') : rows = rows' := by
  have hlines := congrArg unframe h
  rw [unframe_frame, unframe_frame] at hlines
  exact List.map_injective_iff.mpr (fun _ _ => String.ofList_injective) hlines

/-- A board with a column that 32 bits cannot count is not shown: in that column a cell to the left
of the grid is asked for. -/
theorem board_lone_beyond :
    ∃ read, Board.read [Board.loneLine 0 0x80000000] = .ok read ∧
      Checked.board (.ofBoard read) (World.ofBoard read).colony.ids =
        .error (.noCell ⟨-0x80000000, 0⟩) ∧
      board (.ofBoard read) (World.ofBoard read).colony.ids ≠
        frame read.grid.columns
          ([Board.loneLine 0 0x80000000].map fun line => Text.dropReturns line.toList) := by
  obtain ⟨grid, hcolumns, hrows, hread⟩ := Board.exists_read_lone 0 0x80000000
  let w : World := .ofBoard ⟨grid, [⟨.ofPlace 0 0, .up⟩]⟩
  have hcolumn : 0x80000000 < w.grid.columns := by change _ < grid.columns; omega
  have hrow : 0 < w.grid.rows := by change 0 < grid.rows; omega
  have hin : ∀ c < 0x80000000, w.grid.inBounds (.ofPlace c 0) := by
    intro c hc
    rw [Position.ofPlace_eq (by unfold Flowchart.maxCoordinate; omega) (by decide)]
    exact Grid.inBounds_of_lt hrow (hc.trans hcolumn)
  have hout : ¬ w.grid.inBounds (.ofPlace 0x80000000 0) := by
    rw [Position.ofPlace_beyond, Grid.inBounds_iff]
    exact fun h => absurd h.1.1 (by decide)
  have hfree : ∀ a ∈ w.colony.ids, w.colony.position a ≠ .ofPlace 0x80000000 0 := by
    refine List.forall_mem_singleton.mpr ?_
    change Position.ofPlace 0 0 ≠ .ofPlace 0x80000000 0
    decide
  refine ⟨_, hread, ?_, fun hframe => ?_⟩
  · have hfault := Checked.shownRow_error hcolumn hin hout (lookup_glyphs_of_free hfree)
    rw [Position.ofPlace_beyond] at hfault
    exact Checked.board_error rfl hrow nofun hfault
  · -- A text that was read has known characters, and the question mark is none of them.
    have hquestion : Board.charAt? (drawnRows w w.colony.ids) 0 0x80000000 = some '?' := by
      rw [charAt?_drawnRows hrow hcolumn, shown_of_not_inBounds hout hfree]
    rw [board_eq_frame] at hframe
    rw [frame_injective hframe] at hquestion
    obtain ⟨cs, hcs, hmem⟩ := Option.bind_eq_some_iff.mp hquestion
    have hsymbol := (Board.exists_shows_of_read hread).1 cs (List.mem_of_getElem? hcs) '?'
      (List.mem_of_getElem? hmem)
    rcases hsymbol with ⟨cell, hcell⟩ | ⟨facing, hfacing⟩
    · cases cell <;> cases hcell
    · cases facing <;> cases hfacing

end Render

end Ladybug
