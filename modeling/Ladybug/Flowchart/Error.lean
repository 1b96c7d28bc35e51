/-!
# Why a flowchart is refused

Reading flowcharts stops at the first violation. Most violations are faults of a single
line and are reported with the number of that line, counted from one; a node that is read
by itself counts as line zero. The others concern a whole tree, by its number in the text,
or the number of trees.

## Main definitions

* `LineFault` — what is wrong with a line.
* `FlowchartError` — what is wrong with a text, with `FlowchartError.message`.
-/

namespace Ladybug

/-- What is wrong with a line. -/
inductive LineFault where
  /-- The line comes before the first header. -/
  | missingHeader
  /-- The line is neither an edge nor, at the top of a tree, a node. -/
  | invalidEdge (text : String)
  /-- The text does not declare a node and does not name a declared one. -/
  | invalidNode (text : String)
  | unknownAction (keyword : String)
  | unknownCondition (text : String)
  | invalidThreshold (text : String)
  | invalidCoordinates (text : String)
  /-- Something stands behind the keyword of an action that needs nothing. -/
  | unexpectedArguments (keyword : String)
  /-- A node is declared a second time. -/
  | redefinition (id : String)
  /-- A leaf is given a child. -/
  | notComposite (id category : String)
deriving DecidableEq

/-- The part of the message that follows the line number. -/
def LineFault.message : LineFault → String
  | missingHeader => "expected 'flowchart TD' before any edge"
  | invalidEdge text => s!"invalid edge syntax: {text}"
  | invalidNode text => s!"invalid node format: {text}"
  | unknownAction keyword => s!"unknown action: {keyword}"
  | unknownCondition text => s!"unknown condition: {text}"
  | invalidThreshold text => s!"invalid parallel threshold: {text}"
  | invalidCoordinates text => s!"invalid coordinates: {text}"
  | unexpectedArguments keyword => s!"action '{keyword}' takes no arguments"
  | redefinition id => s!"node '{id}' is already defined"
  | notComposite id category => s!"{category} node '{id}' can not be a parent"

/-- What is wrong with a text of flowcharts. -/
inductive FlowchartError where
  /-- A fault of one line. -/
  | atLine (line : Nat) (fault : LineFault)
  /-- A node is declared but not connected with the root of its tree. -/
  | disconnected (tree : Nat) (id : String)
  /-- There is nothing for the ladybug to do. -/
  | noAction (tree : Nat)
  | noTrees
  | tooManyTrees (trees ladybugs : Nat)
deriving DecidableEq

namespace FlowchartError

/-- The message shown to the user. -/
def message : FlowchartError → String
  | atLine line fault => s!"line {line}: " ++ fault.message
  | disconnected tree id => s!"tree {tree}: node '{id}' is not reachable from the root"
  | noAction tree => s!"tree {tree}: a tree must contain at least one action"
  | noTrees => "no tree found"
  | tooManyTrees trees ladybugs => s!"{trees} trees but only {ladybugs} ladybugs"

/-- The line a violation is reported for, if it is a fault of one line. -/
def line? : FlowchartError → Option Nat
  | atLine line _ => some line
  | _ => none

end FlowchartError

end Ladybug
