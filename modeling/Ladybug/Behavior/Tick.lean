import Ladybug.Behavior.Trace
import Ladybug.Behavior.Tree

/-!
# Turns of a behavior tree

A turn walks the tree from its root until it comes to an action that has not ended, and
performs that action. The statuses that earlier turns left behind steer the walk: a node
that has ended is passed over with its old outcome and without a record, so the walk goes
on where the last one halted. When a walk comes to the end of the tree instead, the tree
starts over and is walked once more in the same turn.

A walk only reads the world. The world changes at the very end of a turn, by at most one
action: the one under the resume pointer after the last walk, whether that walk halted at
it or the pointer had been there before.

## Main definitions

* `Walk` — a stretch of a walk: the tree after it, its records, and how it ended.
* `Tree.scan` — going through the children of a composite.
* `Tree.walk` — walking everything below a node.
* `Tree.tick` — a whole turn, with `Tree.firstWalk` and `Tree.walks` as its parts.
-/

namespace Ladybug

/-- How the walk below a node ended. -/
inductive WalkEnd where
  /-- At an action that is still to be performed. -/
  | halted
  /-- With the node's outcome. -/
  | finished (succeeded : Bool)
deriving DecidableEq

/-- How going through the children of a composite ended. -/
inductive ScanEnd where
  /-- At an action that is still to be performed. -/
  | halted
  /-- At a child that settled the composite. -/
  | stopped
  /-- After the last child. -/
  | exhausted
deriving DecidableEq

/-- A stretch of a walk: the tree it leaves, what it records, and how it ended. -/
structure Walk (ε : Type) where
  tree : Tree
  trace : Trace
  ending : ε

/-- The stretch together with the records of an earlier one. -/
def Walk.after {ε : Type} (walk : Walk ε) (earlier : Trace) : Walk ε :=
  { walk with trace := earlier ++ walk.trace }

namespace Tree

/-! ### Records -/

/-- The record of an event at a node. -/
def entryFor (t : Tree) (a : AgentId) (i : NodeIdx) (event : TraceEvent) : TraceEntry where
  agent := a
  nodeId := t.arena.id i
  kind := t.arena.kind i
  event := event

/-- Enters a composite: once in each of its runs, it starts running and that is
recorded. -/
def enter (t : Tree) (a : AgentId) (i : NodeIdx) : Tree × Trace :=
  if t.arena.status i = .notEntered then
    (t.setStatus i .running, [t.entryFor a i .entry])
  else (t, [])

/-- Ends a node with an outcome, which is recorded. -/
def finish (t : Tree) (a : AgentId) (i : NodeIdx) (succeeded : Bool) : Walk WalkEnd where
  tree := t.setStatus i (.ofOutcome succeeded)
  trace := [t.entryFor a i (.ofOutcome succeeded)]
  ending := .finished succeeded

/-- How many children of a node have succeeded. -/
def successes (t : Tree) (i : NodeIdx) : Nat :=
  (t.arena.children i).countP fun child => t.arena.status child = .success

/-! ### Walks -/

/-- Goes through children from left to right, up to one at which the walk halts or whose
outcome stops it. -/
def scan (visit : Tree → NodeIdx → Walk WalkEnd) (stopsOn : Bool → Bool) :
    Tree → List NodeIdx → Walk ScanEnd
  | t, [] => ⟨t, [], .exhausted⟩
  | t, child :: rest =>
    let visited := visit t child
    match visited.ending with
    | .halted => ⟨visited.tree, visited.trace, .halted⟩
    | .finished succeeded =>
      if stopsOn succeeded then ⟨visited.tree, visited.trace, .stopped⟩
      else (scan visit stopsOn visited.tree rest).after visited.trace

/-- Ends a composite after its children have been gone through, unless the walk halted at
one of them. -/
def conclude (a : AgentId) (i : NodeIdx) (composite : Composite) (scanned : Walk ScanEnd) :
    Walk WalkEnd :=
  let settle (stopped : Bool) :=
    scanned.tree.finish a i (composite.verdict stopped (scanned.tree.successes i))
  match scanned.ending with
  | .halted => ⟨scanned.tree, scanned.trace, .halted⟩
  | .stopped => (settle true).after scanned.trace
  | .exhausted => (settle false).after scanned.trace

/-- Walks everything below a node, down to the given depth. A node that has ended keeps
its outcome, an action takes the resume pointer and halts the walk, a condition is asked,
and a composite is entered and its children are gone through. -/
def walk (w : World) (a : AgentId) : Nat → Tree → NodeIdx → Walk WalkEnd
  | 0, t, _ => ⟨t, [], .halted⟩
  | depth + 1, t, i =>
    match (t.arena.status i).outcome?, t.arena.kind i with
    | some succeeded, _ => ⟨t, [], .finished succeeded⟩
    | none, .action _ => ⟨{ t with current := i }, [], .halted⟩
    | none, .condition condition => t.finish a i (condition.holds w a)
    | none, .composite composite =>
      let (entered, entry) := t.enter a i
      let scanned := scan (walk w a depth) composite.stopsOn entered (t.arena.children i)
      (conclude a i composite scanned).after entry

/-- The first walk of a turn, from the root. No way down is longer than the table. -/
def firstWalk (t : Tree) (w : World) (a : AgentId) : Walk WalkEnd :=
  walk w a t.arena.size t t.root

/-- The tree with all progress forgotten, except for the resume pointer. -/
def restart (t : Tree) : Tree := { t with arena := t.arena.resetFrom t.root }

/-- The walks of a turn: if the first one does not halt, the tree starts over and is walked
again. -/
def walks (t : Tree) (w : World) (a : AgentId) : Walk WalkEnd :=
  let first := t.firstWalk w a
  match first.ending with
  | .halted => first
  | .finished _ => (first.tree.restart.firstWalk w a).after first.trace

/-! ### Turns -/

/-- What a turn leaves: the tree, the world, and what was recorded. -/
structure Turn where
  tree : Tree
  world : World
  trace : Trace

/-- One turn of a ladybug: its tree is walked, and the action under the resume pointer is
performed. If there is none, nothing is performed. -/
def tick (t : Tree) (w : World) (a : AgentId) : Turn :=
  let walked := t.walks w a
  match walked.tree.pending? with
  | none => ⟨{ walked.tree with jumped := false }, w, walked.trace⟩
  | some action =>
    let (after, succeeded) := action.perform w a
    let ended := (walked.tree.finish a walked.tree.current succeeded).after walked.trace
    ⟨{ ended.tree with jumped := false }, after, ended.trace⟩

end Tree

end Ladybug
