import Ladybug.Behavior.Arena

/-!
# Behavior trees

A behavior tree is a table of nodes with a root and a resume pointer: the node at which the
last turn stopped, where the next one is to go on. A tree also remembers whether the
pointer was put there by a jump since the last turn.

Nodes of the table that are not below the root take no part in turns.

## Main definitions

* `Tree` — the tree; `Tree.ofArena` makes one, not yet begun.
* `Tree.preorder` — its nodes, parents before their children.
* `Tree.reset`, `Tree.jumpTo` — moving the resume pointer.
* `Tree.head` — the node announced for the next turn.
* `Tree.addSibling` — a new node beside an old one.
-/

namespace Ladybug

/-- A behavior tree. -/
structure Tree where
  arena : Arena
  root : NodeIdx
  /-- The resume pointer. -/
  current : NodeIdx
  /-- There was a jump since the last turn. -/
  jumped : Bool
deriving DecidableEq

namespace Tree

/-- The tree below a node of a table, not yet begun. -/
def ofArena (arena : Arena) (root : NodeIdx) : Tree where
  arena := arena
  root := root
  current := root
  jumped := false

/-- The name of the root. -/
def rootId (t : Tree) : String := t.arena.id t.root

/-- The name of the node under the resume pointer. -/
def currentId (t : Tree) : String := t.arena.id t.current

/-- The nodes of the tree, parents before their children. -/
def preorder (t : Tree) : List NodeIdx := t.arena.preorderFrom t.root

/-- Changes the status of one node. -/
def setStatus (t : Tree) (i : NodeIdx) (s : Status) : Tree :=
  { t with arena := t.arena.setStatus i s }

/-- The handle of a node that must be in the tree. -/
def require (t : Tree) (id : String) : Except TreeError NodeIdx :=
  match t.arena.lookup? id with
  | some i => .ok i
  | none => .error (.unknownNode id)

/-! ### The resume pointer -/

/-- The action under the resume pointer, if it is at an action. -/
def pending? (t : Tree) : Option Action :=
  match t.arena.kind t.current with
  | .action action => some action
  | _ => none

/-- The name of the node announced for the next turn. While the pointer is not at an
action, a turn begins at the root. An action is announced itself when it was jumped to or
is the last child of its parent; otherwise the child after it is. -/
def head (t : Tree) : String :=
  if t.pending?.isNone then t.rootId
  else
    match t.arena.parent? t.current with
    | none => t.currentId
    | some parent =>
      if t.jumped then t.currentId
      else
        match (t.arena.children parent).dropWhile (· != t.current) with
        | _ :: next :: _ => t.arena.id next
        | _ => t.currentId

/-- Forgets all progress: every node of the tree is not entered, and the resume pointer is
at the root. -/
def reset (t : Tree) : Tree where
  arena := t.arena.resetFrom t.root
  root := t.root
  current := t.root
  jumped := false

/-! ### Jumps -/

/-- The nodes on the way from the topmost node above `i` to the first node of `below`, by
the links to parents. Each unit of fuel climbs one link. -/
def climb (t : Tree) : Nat → NodeIdx → List NodeIdx → List NodeIdx
  | 0, i, below => i :: below
  | fuel + 1, i, below =>
    match t.arena.parent? i with
    | none => i :: below
    | some parent => t.climb fuel parent (i :: below)

/-- The nodes on the way down to a node, beginning with the topmost one. -/
def pathTo (t : Tree) (i : NodeIdx) : List NodeIdx := t.climb t.arena.size i []

/-- Makes `parent` stand as if it had just come to its child `onPath`: it has not ended,
the children before have ended without settling it, and those after have not begun. -/
def leadTo (t : Arena) (parent onPath : NodeIdx) : Arena :=
  let skipped := Status.ofOutcome (t.kind parent == .composite .sequence)
  let siblings := t.children parent
  let reopened := if (t.status parent).isFinished then t.setStatus parent .notEntered else t
  let before := reopened.setStatuses (siblings.takeWhile (· != onPath)) skipped
  ((siblings.dropWhile (· != onPath)).drop 1).foldl Arena.resetFrom before

/-- Makes every node of a way down lead to the next. -/
def leadAlong : Arena → List NodeIdx → Arena
  | t, parent :: onPath :: rest => leadAlong (leadTo t parent onPath) (onPath :: rest)
  | t, _ => t

/-- Moves the resume pointer to the named node, as if the tree had run up to it. The node
itself and everything below it start over. A jump to the root is a reset. -/
def jumpTo (t : Tree) (id : String) : Except TreeError Tree := do
  let target ← t.require id
  if target = t.root then return t.reset
  return {
    arena := (leadAlong t.arena (t.pathTo target)).resetFrom target
    root := t.root
    current := target
    jumped := true }

/-! ### Growth -/

/-- The list with a new node directly after the anchor, or at its end without an anchor. -/
def insertAfter (anchor new : NodeIdx) : List NodeIdx → List NodeIdx
  | [] => [new]
  | i :: rest => if i = anchor then i :: new :: rest else i :: insertAfter anchor new rest

/-- Adds a node directly after the named one, under the same parent. The name of the new
node must be new, and the root has no siblings. The handle of the new node is returned. -/
def addSibling (t : Tree) (existing : String) (spec : NodeSpec) :
    Except TreeError (Tree × NodeIdx) := do
  let anchor ← t.require existing
  if t.arena.hasNode spec.id then .error (.duplicateNode spec.id)
  else
    match t.arena.parent? anchor with
    | none => .error (.rootSibling existing)
    | some parent =>
      let new := t.arena.size
      let grown := (t.arena.push (Node.ofSpec spec (some parent))).modify parent fun n =>
        { n with children := insertAfter anchor new n.children }
      return ({ t with arena := grown }, new)

end Tree

end Ladybug
