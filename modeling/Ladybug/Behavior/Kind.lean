import Ladybug.Action
import Ladybug.Condition

/-!
# Kinds of nodes

A behavior tree has inner nodes, which are composites, and leaves, which are actions and
conditions. What distinguishes the composites is when they stop going through their
children and what they make of them:

* a sequence stops at the first child that fails, and succeeds if none does;
* a fallback stops at the first child that succeeds, and fails if none does;
* a parallel never stops, and succeeds if enough of its children have succeeded.

A kind has two texts. Its caption names it in records of what happened; its representation
is the bracketed form in which flowcharts write it. Coordinates count from zero in captions
and from one in representations.

## Main definitions

* `Composite`, with `Composite.stopsOn` and `Composite.verdict`.
* `NodeKind`, with `NodeKind.caption` and `NodeKind.representation`.
-/

namespace Ladybug

/-- The ways of combining children. -/
inductive Composite where
  /-- Succeeds with the first child that succeeds. -/
  | fallback
  /-- Fails with the first child that fails. -/
  | sequence
  /-- Runs all children and succeeds if at least `threshold` of them succeeded. -/
  | parallel (threshold : Nat)
deriving DecidableEq, Inhabited

namespace Composite

/-- A child that ended so settles the composite at once. -/
def stopsOn : Composite → Bool → Bool
  | fallback, succeeded => succeeded
  | sequence, succeeded => !succeeded
  | parallel _, _ => false

/-- The outcome of a composite, given whether a child settled it and how many of its
children have succeeded. -/
def verdict : Composite → Bool → Nat → Bool
  | fallback, stopped, _ => stopped
  | sequence, stopped, _ => !stopped
  | parallel threshold, _, successes => threshold ≤ successes

/-- The name of the composite. -/
def name : Composite → String
  | fallback => "fallback"
  | sequence => "sequence"
  | parallel _ => "parallel"

/-- The sign that stands for the composite in a flowchart. -/
def sign : Composite → String
  | fallback => "?"
  | sequence => "->"
  | parallel threshold => "=" ++ toString threshold ++ ">"

end Composite

/-- What a node of a behavior tree is. -/
inductive NodeKind where
  | composite (composite : Composite)
  | action (action : Action)
  | condition (condition : Condition)
deriving DecidableEq, Inhabited

namespace NodeKind

/-- Only composites have children. -/
def isComposite : NodeKind → Bool
  | composite _ => true
  | _ => false

/-- The node is an action. -/
def isAction : NodeKind → Bool
  | action _ => true
  | _ => false

/-- What the node is in a word. -/
def category : NodeKind → String
  | composite c => c.name
  | action _ => "action"
  | condition _ => "condition"

/-- The positions that belong to the node, in the order they are written. -/
def positions : NodeKind → List Position
  | composite _ => []
  | action a => a.positions
  | condition c => c.positions

/-- A word followed by positions, each after a space and written as `shown` says. -/
def withPositions (shown : Position → String) (word : String) (ps : List Position) : String :=
  word ++ String.join (ps.map fun p => " " ++ shown p)

/-- The name of the node, with its positions written as `shown` says. -/
def captionWith (shown : Position → String) : NodeKind → String
  | composite c => c.name
  | action a => withPositions shown a.keyword a.positions
  | condition c => withPositions shown c.keyword c.positions

/-- The name of the node, with positions as they are stored. -/
def caption (kind : NodeKind) : String := kind.captionWith Position.text

/-- A position as flowcharts write it, counting from one. -/
def writtenPosition (p : Position) : String :=
  toString p.toDisplay.1 ++ "," ++ toString p.toDisplay.2

/-- The bracketed form of the node in flowcharts: conditions stand in round and square
brackets, all others in square brackets only. -/
def representation : NodeKind → String
  | composite c => "[" ++ c.sign ++ "]"
  | action a => "[" ++ withPositions writtenPosition a.keyword a.positions ++ "]"
  | condition c => "([" ++ withPositions writtenPosition c.keyword c.positions ++ "])"

end NodeKind

end Ladybug
