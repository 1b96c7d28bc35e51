import Ladybug.World

/-!
# Actions

An action is the smallest thing a behavior tree can have its ladybug do. Performing it
either succeeds, or fails and leaves the world as it was; failing is an ordinary outcome.

## Main definitions

* `Action` — the six actions.
* `Action.attempt?` — the world after the action, if it succeeds.
* `Action.perform` — the world after the action in any case, and whether it succeeded.
-/

namespace Ladybug

/-- What a ladybug can be told to do. -/
inductive Action where
  | move
  | turnLeft
  | turnRight
  | takeLeaf
  | placeLeaf
  | fly (goal : Position)
deriving DecidableEq

namespace Action

/-- The word that names the action. -/
def keyword : Action → String
  | move => "move"
  | turnLeft => "turnLeft"
  | turnRight => "turnRight"
  | takeLeaf => "takeLeaf"
  | placeLeaf => "placeLeaf"
  | fly _ => "fly"

/-- The positions that belong to the action, in the order they are written. -/
def positions : Action → List Position
  | fly goal => [goal]
  | _ => []

/-- The actions whose keyword says it all. -/
def plain : List Action := [move, turnLeft, turnRight, takeLeaf, placeLeaf]

/-- The world after a successful action of a ladybug, or nothing if the action fails. -/
def attempt? (action : Action) (w : World) (a : AgentId) : Option World :=
  match action with
  | move => w.stepForward? a
  | turnLeft => some (w.turn a Direction.turnLeft)
  | turnRight => some (w.turn a Direction.turnRight)
  | takeLeaf => w.replaceAhead? a .leaf .empty
  | placeLeaf => w.replaceAhead? a .empty .leaf
  | fly goal => w.fly? a goal

/-- The world after an action of a ladybug, and whether the action succeeded. -/
def perform (action : Action) (w : World) (a : AgentId) : World × Bool :=
  match action.attempt? w a with
  | some w' => (w', true)
  | none => (w, false)

end Action

end Ladybug
