import Ladybug.Grid
import Ladybug.Text.Blank

/-!
# Boards

A board is written with one line for each row of the grid and one character for each cell.
A character shows either what the cell holds or a ladybug, by the arrow of its facing; a
ladybug stands on an empty cell.

Reading a board looks at the characters first, then at the shape, then at the ladybugs: an
unknown character is reported before rows of unequal length, and those before a board
without ladybugs.

## Main definitions

* `Glyph` — what one character of a board shows.
* `Spawn` — where a ladybug starts and which way it faces.
* `Board.read` — the grid and the ladybugs of a board, in reading order.
-/

namespace Ladybug

/-- What a character of a board shows. -/
inductive Glyph where
  | cell (contents : Cell)
  | ladybug (facing : Direction)
deriving DecidableEq

namespace Glyph

/-- The reading of a board character. -/
def ofSymbol? (c : Char) : Option Glyph :=
  match Direction.ofSymbol? c with
  | some facing => some (.ladybug facing)
  | none => (Cell.ofSymbol? c).map .cell

/-- The contents of the cell: a ladybug stands on an empty one. -/
def contents : Glyph → Cell
  | .cell contents => contents
  | .ladybug _ => .empty

/-- The facing of the ladybug, if one is shown. -/
def facing? : Glyph → Option Direction
  | .cell _ => none
  | .ladybug facing => some facing

end Glyph

/-- A ladybug of a board: where it starts and which way it faces. -/
structure Spawn where
  position : Position
  direction : Direction
deriving DecidableEq

/-- A board as it is read: the grid, and the ladybugs in reading order. -/
structure Board where
  grid : Grid
  spawns : List Spawn
deriving DecidableEq

namespace Board

/-- Reads the characters of one row, where `row` and `column` count from zero. The first
unknown character is reported. -/
def readRow (row : Nat) : Nat → List Char → Except GridError (List Glyph)
  | _, [] => .ok []
  | column, c :: rest =>
    match Glyph.ofSymbol? c with
    | none => .error (.unknownSymbol c (row + 1) (column + 1))
    | some glyph => (readRow row (column + 1) rest).map (glyph :: ·)

/-- Reads the characters of all rows, counted on from `row`. Carriage returns at the end
of a line do not count. -/
def readRows : Nat → List String → Except GridError (List (List Glyph))
  | _, [] => .ok []
  | row, line :: rest => do
    let glyphs ← readRow row 0 (Text.dropReturns line.toList)
    let below ← readRows (row + 1) rest
    return glyphs :: below

/-- The ladybugs of one row, from left to right. -/
def rowSpawns (row : Nat) (glyphs : List Glyph) : List Spawn :=
  glyphs.zipIdx.filterMap fun (glyph, column) =>
    glyph.facing?.map fun facing => ⟨.ofPlace column row, facing⟩

/-- The ladybugs of all rows, in reading order. -/
def spawnsOf (rows : List (List Glyph)) : List Spawn :=
  (rows.zipIdx.map fun (glyphs, row) => rowSpawns row glyphs).flatten

/-- Reads a board. -/
def read (lines : List String) : Except GridError Board := do
  let rows ← readRows 0 lines
  let grid ← Grid.ofRows (rows.map (·.map Glyph.contents))
  match spawnsOf rows with
  | [] => .error .noLadybugs
  | spawns => return ⟨grid, spawns⟩

end Board

end Ladybug
