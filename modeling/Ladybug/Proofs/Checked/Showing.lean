import Ladybug.Console.Render
import Ladybug.Proofs.Checked.World
import Ladybug.Proofs.Legible

/-!
# Valid accesses while positions are shown

Users count from one, so one is added to each coordinate that is shown. The positions that are
shown are those of ladybugs, which stand inside the grid, and those of nodes, which have been read
from a text. The latter need not lie inside anything, but each of their coordinates was counted
from one with 32 bits in that text, so it can be counted from one with 32 bits again.

A board is shown by its places. Each of them is made into a position with a cast to 32 bits, and
unless a ladybug stands there, its cell is read without a test. So the casts must keep the places,
which they do in a countable grid.

## Main definitions

* `Checked.toDisplay` — a position as users count, with checked additions.
* `Checked.representation`, `Checked.traceLine` — texts with positions in them.
* `Checked.board` — a board with its visible ladybugs.

## Main results

* `Checked.toDisplay_of_inBounds` — a ladybug may be shown.
* `Checked.representation_eq`, `Checked.traceLine_eq` — a node that has been read may be shown.
* `Checked.board_eq` — so may a settled world with a countable grid.
-/

namespace Ladybug.Checked

open Flowchart

/-- What a user calls the position. -/
def toDisplay (p : Position) : Checked (Int × Int) := do
  let x ← int32 (p.column + 1)
  let y ← int32 (p.row + 1)
  return (x, y)

/-- A position as flowcharts write it. -/
def writtenPosition (p : Position) : Checked String := do
  let (x, y) ← toDisplay p
  return toString x ++ "," ++ toString y

/-- A position as the console shows it. -/
def shownPosition (p : Position) : Checked String := do
  let (x, y) ← toDisplay p
  return "(" ++ toString x ++ ", " ++ toString y ++ ")"

/-- A word followed by positions. -/
def withPositions (shown : Position → Checked String) (word : String) (ps : List Position) :
    Checked String := do
  let texts ← ps.mapM fun p => do return " " ++ (← shown p)
  return word ++ String.join texts

/-- The bracketed form of a node. -/
def representation : NodeKind → Checked String
  | .composite c => return "[" ++ c.sign ++ "]"
  | .action a => return "[" ++ (← withPositions writtenPosition a.keyword a.positions) ++ "]"
  | .condition c =>
    return "([" ++ (← withPositions writtenPosition c.keyword c.positions) ++ "])"

/-- The name of a node, with the positions that belong to it. -/
def caption : NodeKind → Checked String
  | .composite c => return c.name
  | .action a => withPositions shownPosition a.keyword a.positions
  | .condition c => withPositions shownPosition c.keyword c.positions

/-- A record as users see it. -/
def traceLine (e : TraceEntry) : Checked String := do
  let caption ← caption e.kind
  return " ".intercalate [e.agent.text, e.nodeId, caption, e.event.name]

section Positions

variable {p : Position}

/-- A position that can be written in a flowchart may be shown. -/
theorem toDisplay_of_writable (h : p.Writable) : toDisplay p = .ok p.toDisplay := by
  obtain ⟨hcolumn, hcolumn', hrow, hrow'⟩ := h
  have hfits : Fits (p.column + 1) ∧ Fits (p.row + 1) := by
    unfold Fits
    dsimp only [Position.toDisplay] at *
    omega
  rw [toDisplay, int32_eq hfits.1, int32_eq hfits.2]
  rfl

/-- A position inside a small grid may be shown. -/
theorem toDisplay_of_inBounds {g : Grid} (hg : g.Small) (hp : g.inBounds p) :
    toDisplay p = .ok p.toDisplay := by
  obtain ⟨⟨hcolumn, hcolumn'⟩, hrow, hrow'⟩ := range_of_inBounds hg hp
  refine toDisplay_of_writable ⟨?_, ?_, ?_, ?_⟩ <;>
    unfold Position.toDisplay maxCoordinate at * <;> dsimp only <;> omega

/-- The console shows a position as it is displayed. -/
theorem shownPosition_eq (h : toDisplay p = .ok p.toDisplay) :
    shownPosition p = .ok (Render.position p) := by
  rw [shownPosition, h]
  rfl

end Positions

section Nodes

variable {kind : NodeKind}

/-- Positions that may be shown may be shown behind a word. -/
theorem withPositions_eq {shown : Position → Checked String} {shown' : Position → String}
    {ps : List Position} (h : ∀ p ∈ ps, shown p = .ok (shown' p)) (word : String) :
    withPositions shown word ps = .ok (NodeKind.withPositions shown' word ps) := by
  have htexts : ps.mapM (fun p => do return " " ++ (← shown p)) =
      (.ok (ps.map fun p => " " ++ shown' p) : Checked _) :=
    mapM_eq fun p hp => by rw [h p hp]; rfl
  rw [withPositions, htexts]
  rfl

/-- **A node that has been read may be written**, whatever its positions are. -/
theorem representation_eq (h : kind.Writable) : representation kind = .ok kind.representation := by
  have hwritten (p : Position) (hp : p.Writable) :
      writtenPosition p = .ok (NodeKind.writtenPosition p) := by
    rw [writtenPosition, toDisplay_of_writable hp]
    rfl
  have hpositions := fun p hp => hwritten p (h.positions p hp)
  cases kind with
  | composite c => rfl
  | action a =>
      rw [NodeKind.positions] at hpositions
      rw [representation, withPositions_eq hpositions]
      rfl
  | condition c =>
      rw [NodeKind.positions] at hpositions
      rw [representation, withPositions_eq hpositions]
      rfl

theorem caption_eq (h : kind.Writable) : caption kind = .ok (kind.captionWith Render.position) := by
  have hpositions := fun p hp => shownPosition_eq (toDisplay_of_writable (h.positions p hp))
  cases kind with
  | composite c => rfl
  | action a => exact withPositions_eq hpositions a.keyword
  | condition c => exact withPositions_eq hpositions c.keyword

/-- **A record of a node that has been read may be shown.** -/
theorem traceLine_eq {e : TraceEntry} (h : e.kind.Writable) :
    traceLine e = .ok (Render.traceLine e) := by
  rw [traceLine, caption_eq h]
  rfl

end Nodes

/-! ### Boards -/

/-- The visible ladybugs as a table, for which their rows are read. -/
def glyphs (c : Colony) (visible : List AgentId) : Checked (List (Position × Char)) := do
  let drawn ← visible.mapM fun a => do
    let p ← position c a
    let d ← direction c a
    return (p, d.symbol)
  return drawn.reverse

/-- The character at a position: that of a ladybug, or else that of the cell, which is read without
a test. -/
def shown (g : Grid) (glyphs : List (Position × Char)) (p : Position) : Checked Char :=
  match glyphs.lookup p with
  | some c => .ok c
  | none => do
    let cell ← cellAt g p
    return cell.symbol

/-- The characters of one row. -/
def shownRow (g : Grid) (glyphs : List (Position × Char)) (row : Nat) : Checked (List Char) :=
  (List.range g.columns).mapM fun column => shown g glyphs (.ofPlace column row)

/-- The board with its visible ladybugs. -/
def board (w : World) (visible : List AgentId) : Checked (List String) := do
  let glyphs ← glyphs w.colony visible
  let rows ← (List.range w.grid.rows).mapM (shownRow w.grid glyphs)
  return Render.border w.grid.columns :: rows.map Render.boardRow ++ [Render.border w.grid.columns]

section Boards

variable {w : World} {visible : List AgentId} {g : Grid}

theorem glyphs_eq (hw : w.Settled) (hvisible : ∀ a ∈ visible, w.colony.contains a) :
    glyphs w.colony visible = .ok (Render.glyphs w.colony visible) := by
  rw [glyphs, mapM_eq fun a ha => ?_]
  · rfl
  · rw [position_eq hw (hvisible a ha), ok_bind, direction_eq hw (hvisible a ha)]
    rfl

/-- A position inside the grid may be shown, whether or not a ladybug stands there. -/
theorem shown_eq {p : Position} (hp : g.inBounds p) (glyphs : List (Position × Char)) :
    shown g glyphs p = .ok (Render.shown g glyphs p) := by
  obtain ⟨cell, hcell⟩ := Grid.exists_cell? hp
  rw [shown, Render.shown, hcell]
  cases glyphs.lookup p with
  | none =>
      dsimp only
      rw [cellAt_eq hcell]
      rfl
  | some c => rfl

theorem shownRow_eq (hg : g.Countable) {row : Nat} (hrow : row < g.rows)
    (glyphs : List (Position × Char)) :
    shownRow g glyphs row = .ok (Render.shownRow g glyphs row) := by
  refine mapM_eq fun column hcolumn => shown_eq ?_ glyphs
  rw [List.mem_range] at hcolumn
  rw [hg.ofPlace_eq hrow hcolumn]
  exact Grid.inBounds_of_lt hrow hcolumn

/-- A row ends at the first place whose position is outside the grid, unless a ladybug is found
there. -/
theorem shownRow_error {glyphs : List (Position × Char)} {row column : Nat}
    (hcolumn : column < g.columns) (hbefore : ∀ c < column, g.inBounds (.ofPlace c row))
    (hout : ¬ g.inBounds (.ofPlace column row))
    (hfree : glyphs.lookup (.ofPlace column row) = none) :
    shownRow g glyphs row = .error (.noCell (.ofPlace column row)) := by
  refine mapM_range_error hcolumn (fun c hc => ⟨_, shown_eq (hbefore c hc) glyphs⟩) ?_
  rw [shown, hfree]
  dsimp only
  rw [cellAt, if_neg hout]
  rfl

/-- A board ends at its first row that is not shown. -/
theorem board_error {table : List (Position × Char)} {row : Nat} {fault : Fault}
    (hglyphs : glyphs w.colony visible = .ok table) (hrow : row < w.grid.rows)
    (hbefore : ∀ r < row, ∃ cs, shownRow w.grid table r = .ok cs)
    (hfault : shownRow w.grid table row = .error fault) : board w visible = .error fault := by
  rw [board, hglyphs, ok_bind, mapM_range_error hrow hbefore hfault]
  rfl

/-- **A board may be shown** if its world is settled and its grid is countable. -/
theorem board_eq (hw : w.Settled) (hg : w.grid.Countable)
    (hvisible : ∀ a ∈ visible, w.colony.contains a) :
    board w visible = .ok (Render.board w visible) := by
  rw [board, glyphs_eq hw hvisible, ok_bind,
    mapM_eq fun row hrow => shownRow_eq hg (List.mem_range.mp hrow) _, ok_bind, List.map_map]
  rfl

end Boards

end Ladybug.Checked
