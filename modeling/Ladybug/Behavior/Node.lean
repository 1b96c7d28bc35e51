import Ladybug.Behavior.Kind

/-!
# Nodes

A node carries its name, its kind, its place in the tree and how far it has got. The place
is given by handles: the rows that the node's parent and children have in the table of
nodes.

## Main definitions

* `NodeIdx` — handles, and which numbers are handles.
* `Status` — how far a node has got.
* `NodeSpec` — a node that is not part of a tree yet.
* `Node` — a node of a tree.
-/

namespace Ladybug

/-! ### Handles -/

/-- The row of a node in a table of nodes, counted from zero. -/
abbrev NodeIdx := Nat

namespace NodeIdx

/-- How many handles there are: a table has no row with a number of more than 32 bits. -/
def bound : Nat := 0x100000000

/-- The handle with a number, if there is one. -/
def ofNat? (n : Nat) : Option NodeIdx := if n < bound then some n else none

end NodeIdx

/-! ### Progress of a node -/

/-- How far a node has got since its tree was last restarted. -/
inductive Status where
  | notEntered
  | running
  | success
  | failure
deriving DecidableEq, Inhabited

namespace Status

/-- The status of a node that ended, by whether it succeeded. -/
def ofOutcome (succeeded : Bool) : Status := if succeeded then success else failure

/-- Whether a node succeeded, once it has ended. -/
def outcome? : Status → Option Bool
  | success => some true
  | failure => some false
  | _ => none

/-- The node has ended. -/
def isFinished (s : Status) : Bool := s.outcome?.isSome

/-- The name of the status. -/
def name : Status → String
  | notEntered => "NotEntered"
  | running => "Running"
  | success => "Success"
  | failure => "Failure"

@[simp] theorem outcome?_ofOutcome (b : Bool) : (ofOutcome b).outcome? = some b := by
  cases b <;> rfl

end Status

/-! ### Nodes -/

/-- A node as it is declared: a name and a kind. -/
structure NodeSpec where
  id : String
  kind : NodeKind
deriving DecidableEq

/-- A node of a tree. -/
structure Node where
  id : String
  kind : NodeKind
  parent : Option NodeIdx
  children : List NodeIdx
  status : Status
deriving DecidableEq, Inhabited

/-- A declared node in its first place, without children and not entered. -/
def Node.ofSpec (spec : NodeSpec) (parent : Option NodeIdx) : Node where
  id := spec.id
  kind := spec.kind
  parent := parent
  children := []
  status := .notEntered

end Ladybug
