import Ladybug.Colony
import Ladybug.Grid.Path

/-!
# The world

A world is a grid together with the ladybugs on it. This module says what a ladybug can do
to the world. Each deed either succeeds and gives the new world, or fails and gives none,
so a failed deed cannot leave a trace.

Only ladybugs block ladybugs: a mushroom may be pushed under a ladybug, and a leaf may be
placed under one.

## Main definitions

* `World` — grid and colony; `World.ofBoard` is the world of a board.
* `World.stepForward?`, `World.turn`, `World.fly?`, `World.replaceAhead?` — the deeds.
-/

namespace Ladybug

/-- A grid and the ladybugs on it. -/
structure World where
  grid : Grid
  colony : Colony
deriving DecidableEq

namespace World

/-- The world of a board, in which nobody is active yet. -/
def ofBoard (b : Board) : World := ⟨b.grid, Colony.ofSpawns b.spawns⟩

/-! ### What a ladybug sees -/

/-- The contents of the cell ahead, or nothing past the edge of the grid. -/
def cellAhead? (w : World) (a : AgentId) : Option Cell := w.grid.cell? (w.colony.front a)

/-- The ladybug stands on a border cell. -/
def atEdge (w : World) (a : AgentId) : Bool := w.grid.atEdge (w.colony.position a)

/-! ### What a ladybug does -/

/-- The ladybug steps on the cell ahead. It is kept back by the edge of the grid, by
another ladybug, by a tree and by a leaf. A mushroom ahead is pushed one cell on, which
must be an empty cell of the grid. -/
def stepForward? (w : World) (a : AgentId) : Option World :=
  let ahead := w.colony.front a
  if w.colony.occupiedByOther a ahead then none
  else
    match w.grid.cell? ahead with
    | some .empty => some { w with colony := w.colony.setPosition a ahead }
    | some .mushroom =>
      let beyond := ahead.step (w.colony.direction a)
      if w.grid.isEmpty beyond then
        some
          { grid := (w.grid.set beyond .mushroom).set ahead .empty
            colony := w.colony.setPosition a ahead }
      else none
    | _ => none

/-- The ladybug turns on its cell. -/
def turn (w : World) (a : AgentId) (quarter : Direction → Direction) : World :=
  { w with colony := w.colony.setDirection a (quarter (w.colony.direction a)) }

/-- The ladybug jumps to the goal, which must be an empty cell of the grid without another
ladybug. It then faces along the jump, or as before if it was on the goal already. -/
def fly? (w : World) (a : AgentId) (goal : Position) : Option World :=
  if w.grid.isEmpty goal && !w.colony.occupiedByOther a goal then
    let start := w.colony.position a
    let facing :=
      (Direction.ofDisplacement? (goal.column - start.column) (goal.row - start.row)).getD
        (w.colony.direction a)
    some { w with colony := (w.colony.setDirection a facing).setPosition a goal }
  else none

/-- The ladybug exchanges the contents of the cell ahead, which must be the expected
ones. -/
def replaceAhead? (w : World) (a : AgentId) (expected replacement : Cell) : Option World :=
  if w.cellAhead? a = some expected then
    some { w with grid := w.grid.set (w.colony.front a) replacement }
  else none

end World

end Ladybug
