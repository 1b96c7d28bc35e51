import Ladybug.Grid

/-!
# Paths over empty cells

Ladybugs ask whether two cells are connected, never for the way itself. The answer comes
from a flood: starting at one end, every empty cell that the flood reaches is turned into
a tree, so the cells still empty are exactly those not reached yet, and no cell is reached
twice. That bounds the flood by the number of cells.

## Main definitions

* `Grid.Connected` — a walk over empty cells leads from one position to another.
* `Grid.flood` — what is left of the empty cells after a flood.
* `Grid.hasPath` — two empty cells are connected.

## Main results

* `Grid.isEmpty_cover_iff` — which cells are still empty after some were covered.
-/

namespace Ladybug.Grid

/-- A walk over empty cells leads from the first position to the second, each step going
to an orthogonal neighbour. A single empty cell is such a walk. -/
inductive Connected (g : Grid) : Position → Position → Prop where
  | here {p : Position} : g.isEmpty p → Connected g p p
  | step {p q : Position} (d : Direction) :
    Connected g p q → g.isEmpty (q.step d) → Connected g p (q.step d)

/-- The grid with trees at all the given positions. -/
def cover (g : Grid) (ps : List Position) : Grid := ps.foldl (fun g p => g.set p .tree) g

/-- A tree makes one cell less empty. -/
theorem isEmpty_set_tree_iff {g : Grid} {p q : Position} :
    (g.set p .tree).isEmpty q ↔ g.isEmpty q ∧ q ≠ p := by
  by_cases hp : g.inBounds p
  · rw [isEmpty, cell?_set hp]
    by_cases hq : q = p <;> simp [hq, isEmpty]
  · have hout : ¬ g.isEmpty p := by simp [isEmpty, cell?, hp]
    rw [set_of_not_inBounds hp]
    exact ⟨fun hq => ⟨hq, fun hqp => hout (hqp ▸ hq)⟩, fun hq => hq.1⟩

/-- The bounds of a grid stay while cells are covered. -/
theorem inBounds_cover (g : Grid) (ps : List Position) (q : Position) :
    (g.cover ps).inBounds q = g.inBounds q := by
  induction ps generalizing g with
  | nil => rfl
  | cons p ps ih => exact (ih (g.set p .tree)).trans (g.inBounds_set p q .tree)

/-- The cells that are covered are no longer empty, and the others are as before. -/
theorem isEmpty_cover_iff {g : Grid} {ps : List Position} {q : Position} :
    (g.cover ps).isEmpty q ↔ g.isEmpty q ∧ q ∉ ps := by
  induction ps generalizing g with
  | nil => simp [cover]
  | cons p ps ih =>
      rw [cover, List.foldl_cons, ← cover, ih, isEmpty_set_tree_iff, List.mem_cons, not_or,
        and_assoc]

/-- Spreads from the positions on the stack to the cells that are still empty. Each unit
of fuel takes one position from the stack. -/
def spread : Nat → Grid → List Position → Grid
  | 0, g, _ => g
  | _ + 1, g, [] => g
  | fuel + 1, g, p :: stack =>
    let fresh := (g.neighbors p).filter g.isEmpty
    spread fuel (g.cover fresh) (fresh ++ stack)

/-- The grid after a flood from `start`: every empty cell connected with it is covered.
A position enters the stack only when its cell is covered, so there are never more
positions to take than cells. -/
def flood (g : Grid) (start : Position) : Grid :=
  spread g.cells.size (g.set start .tree) [start]

/-- The two positions are empty cells, and a flood from the first reaches the second. An
empty cell is connected with itself. -/
def hasPath (g : Grid) (start goal : Position) : Bool :=
  g.isEmpty start && g.isEmpty goal && !(g.flood start).isEmpty goal

end Ladybug.Grid
