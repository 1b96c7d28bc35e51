/-!
# Positions and facings

A ladybug lives on a board of square cells. Cells are addressed column first, counting
from zero at the upper left corner, and a position may lie anywhere in the plane, also
outside the board it is asked about. Users count from one instead; the two conversions
`Position.ofDisplay` and `Position.toDisplay` are the only places where the two ways of
counting meet.

The program keeps a coordinate in an integer of 32 bits. Where it casts a count to such an
integer, so does this library, by `Position.ofPlace`. Where it adds or subtracts, the integers
here are as large as they need to be. Both agree as long as the results fit 32 bits, which they
do on boards of at most `0x7fffffff` columns and rows: `Ladybug.Proofs.Checked` does all
arithmetic once more with a test of each result, and shows that no test fails on such boards.

Turning is the cyclic group of order four: `Direction.left` and `Direction.right` are
inverse to each other.

## Main definitions

* `Direction` — the four facings, with their board symbols and unit displacements.
* `Direction.ofDisplacement?` — the facing after a jump.
* `Position` — a cell address; `Position.step` moves it by one cell.
* `Position.ofPlace` — the address of the cell in a column and a row.
-/

namespace Ladybug

/-! ### Facings -/

/-- One of the four facings. -/
inductive Direction where
  | up
  | right
  | down
  | left
deriving DecidableEq, Inhabited

namespace Direction

/-- All facings, clockwise from `up`. Neighbours are listed in this order. -/
def all : List Direction := [up, right, down, left]

/-- The unit displacement, column first. Rows grow downwards. -/
def delta : Direction → Int × Int
  | up => (0, -1)
  | right => (1, 0)
  | down => (0, 1)
  | left => (-1, 0)

/-- A quarter turn counter-clockwise. -/
def turnLeft : Direction → Direction
  | up => left
  | left => down
  | down => right
  | right => up

/-- A quarter turn clockwise. -/
def turnRight : Direction → Direction
  | up => right
  | right => down
  | down => left
  | left => up

/-- The character that shows a ladybug with this facing on a board. -/
def symbol : Direction → Char
  | up => '^'
  | right => '>'
  | down => 'v'
  | left => '<'

/-- The facing that a board character shows, if it shows one. -/
def ofSymbol? (c : Char) : Option Direction :=
  all.find? fun d => d.symbol == c

/-- The name of the facing. -/
def name : Direction → String
  | up => "up"
  | right => "right"
  | down => "down"
  | left => "left"

/-- The facing after a jump by the given displacement: the axis with the larger
magnitude wins, a tie goes to the horizontal axis, and no displacement has no facing. -/
def ofDisplacement? (columns rows : Int) : Option Direction :=
  if columns = 0 ∧ rows = 0 then none
  else if rows.natAbs ≤ columns.natAbs then some (if 0 < columns then right else left)
  else some (if rows < 0 then up else down)

@[simp] theorem turnRight_turnLeft (d : Direction) : d.turnLeft.turnRight = d := by
  cases d <;> rfl

@[simp] theorem turnLeft_turnRight (d : Direction) : d.turnRight.turnLeft = d := by
  cases d <;> rfl

/-- Every facing is read back from its symbol. -/
@[simp] theorem ofSymbol?_symbol (d : Direction) : ofSymbol? d.symbol = some d := by
  cases d <;> rfl

end Direction

/-! ### Positions -/

/-- A cell address, column first and counted from zero. -/
@[ext] structure Position where
  column : Int
  row : Int
deriving DecidableEq, Inhabited

namespace Position

/-- The position with each coordinate kept in 32 bits: of a larger integer only the lowest 32
bits are left, and the first of them is the sign. -/
def wrapped (p : Position) : Position :=
  ⟨(Int32.ofInt p.column).toInt, (Int32.ofInt p.row).toInt⟩

/-- The position in a column and a row, both counted from zero. Counts have no limit, but
coordinates are cast to 32 bits. -/
def ofPlace (column row : Nat) : Position := wrapped ⟨column, row⟩

/-- Coordinates that fit 32 bits are kept as they are. -/
theorem wrapped_eq {p : Position} (hcolumn : -0x80000000 ≤ p.column ∧ p.column < 0x80000000)
    (hrow : -0x80000000 ≤ p.row ∧ p.row < 0x80000000) : p.wrapped = p := by
  rw [wrapped, Int32.toInt_ofInt_of_le hcolumn.1 hcolumn.2, Int32.toInt_ofInt_of_le hrow.1 hrow.2]

/-- The neighbouring position one step in the given direction. With 32 bits the sum overflows at
the smallest and at the largest coordinate. -/
def step (p : Position) (d : Direction) : Position :=
  ⟨p.column + d.delta.1, p.row + d.delta.2⟩

/-- The position that a user calls `(x, y)`, counting from one. -/
def ofDisplay (x y : Int) : Position := ⟨x - 1, y - 1⟩

/-- What a user calls this position, counting from one. -/
def toDisplay (p : Position) : Int × Int := (p.column + 1, p.row + 1)

@[simp] theorem toDisplay_ofDisplay (x y : Int) : (ofDisplay x y).toDisplay = (x, y) := by
  simp [ofDisplay, toDisplay]

@[simp] theorem ofDisplay_toDisplay (p : Position) :
    ofDisplay p.toDisplay.1 p.toDisplay.2 = p := by
  simp [ofDisplay, toDisplay]

/-- The two coordinates as they are stored, with a comma between them. -/
def text (p : Position) : String := toString p.column ++ "," ++ toString p.row

end Position

end Ladybug
