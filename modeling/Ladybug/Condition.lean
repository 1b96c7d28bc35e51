import Ladybug.World

/-!
# Conditions

A condition is a question a behavior tree asks about the world as its ladybug sees it.
Asking changes nothing.

## Main definitions

* `Condition` — the six conditions.
* `Condition.holds` — the answer.
-/

namespace Ladybug

/-- What a ladybug can ask. -/
inductive Condition where
  | atEdge
  | leafFront
  | treeFront
  | mushroomFront
  /-- Is there a path from the ladybug's own cell? -/
  | pathTo (goal : Position)
  /-- Is there a path between two given cells? -/
  | pathBetween (start goal : Position)
deriving DecidableEq

namespace Condition

/-- The word that names the condition. -/
def keyword : Condition → String
  | atEdge => "atEdge"
  | leafFront => "leafFront"
  | treeFront => "treeFront"
  | mushroomFront => "mushroomFront"
  | pathTo _ => "existsPath"
  | pathBetween _ _ => "existsPath"

/-- The positions that belong to the condition, in the order they are written. -/
def positions : Condition → List Position
  | pathTo goal => [goal]
  | pathBetween start goal => [start, goal]
  | _ => []

/-- The conditions whose keyword says it all. -/
def plain : List Condition := [atEdge, leafFront, treeFront, mushroomFront]

/-- The condition is true of the ladybug in the world. -/
def holds (condition : Condition) (w : World) (a : AgentId) : Bool :=
  match condition with
  | atEdge => w.atEdge a
  | leafFront => w.cellAhead? a == some .leaf
  | treeFront => w.cellAhead? a == some .tree
  | mushroomFront => w.cellAhead? a == some .mushroom
  | pathTo goal => w.grid.hasPath (w.colony.position a) goal
  | pathBetween start goal => w.grid.hasPath start goal

end Condition

end Ladybug
