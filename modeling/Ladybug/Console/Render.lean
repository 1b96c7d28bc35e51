import Ladybug.Behavior.Trace
import Ladybug.World

/-!
# What the console shows

Everything shown to users counts from one, column first. Positions are written as `(x, y)`,
records as lines of their words, and boards with a border of dashes and bars around them.
-/

namespace Ladybug.Render

/-- A position as users see it. -/
def position (p : Position) : String :=
  let (x, y) := p.toDisplay
  "(" ++ toString x ++ ", " ++ toString y ++ ")"

/-- A record as users see it. -/
def traceLine (e : TraceEntry) : String := e.textWith position

/-- The visible ladybugs as a table: where each one stands, and its character. The last one comes
first, so that it is the one that is found. -/
def glyphs (c : Colony) (visible : List AgentId) : List (Position × Char) :=
  (visible.map fun a => (c.position a, (c.direction a).symbol)).reverse

/-- The character that is shown at a position: that of a ladybug, or else that of the cell. The
program stops at a position with neither, and a question mark stands for that here. -/
def shown (g : Grid) (glyphs : List (Position × Char)) (p : Position) : Char :=
  (glyphs.lookup p <|> (g.cell? p).map Cell.symbol).getD '?'

/-- The characters of one row, from left to right. -/
def shownRow (g : Grid) (glyphs : List (Position × Char)) (row : Nat) : List Char :=
  (List.range g.columns).map fun column => shown g glyphs (.ofPlace column row)

/-- The line above and below a board. -/
def border (columns : Nat) : String :=
  String.ofList ('+' :: List.replicate columns '-' ++ ['+'])

/-- One row of a board between bars. -/
def boardRow (characters : List Char) : String := String.ofList ('|' :: characters ++ ['|'])

/-- The board with its visible ladybugs, framed by a border. -/
def board (w : World) (visible : List AgentId) : List String :=
  let glyphs := glyphs w.colony visible
  border w.grid.columns ::
    (List.range w.grid.rows).map (fun row => boardRow (shownRow w.grid glyphs row)) ++
      [border w.grid.columns]

end Ladybug.Render
