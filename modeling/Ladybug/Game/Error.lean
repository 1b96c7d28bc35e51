import Ladybug.Agent
import Ladybug.Behavior.Arena
import Ladybug.Flowchart.Error
import Ladybug.Grid

/-!
# Why a game refuses an operation

Most operations need a board and trees, and most are about one ladybug, which must exist
and must have a tree. The remaining refusals come from the board, the flowcharts or the
tree that the operation was about.
-/

namespace Ladybug

/-- Why a game refuses an operation. -/
inductive GameError where
  | boardNotLoaded
  | treesNotLoaded
  | unknownLadybug (agent : AgentId)
  /-- The ladybug exists but has no tree. -/
  | inactiveLadybug (agent : AgentId)
  | board (error : GridError)
  | trees (error : FlowchartError)
  | edit (error : TreeError)
deriving DecidableEq

namespace GameError

/-- The message shown to the user. -/
def message : GameError → String
  | boardNotLoaded => "no board is loaded"
  | treesNotLoaded => "no behavior trees are loaded"
  | unknownLadybug agent => s!"ladybug {agent.number} does not exist"
  | inactiveLadybug agent => s!"ladybug {agent.number} has no behavior tree"
  | board error => "invalid board: " ++ error.message
  | trees error => "invalid behavior tree: " ++ error.message
  | edit error => error.message

/-- The message of the error behind this one, where there is one to report separately. -/
def cause? : GameError → Option String
  | board error => some error.message
  | trees error => some error.message
  | _ => none

end GameError

end Ladybug
