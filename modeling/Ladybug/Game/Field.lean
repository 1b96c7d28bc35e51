import Ladybug.Behavior.Tick
import Ladybug.Flowchart.Reader
import Ladybug.Game.Error

/-!
# The playing field

A field is everything there is once a board has been loaded: the world in play, the world
as it was loaded, and a place for a behavior tree for each ladybug. Binding trees starts
over from the world as it was loaded.

## Main definitions

* `Field` — the state; `Field.ofBoard` is a fresh one.
* `Field.bind` — the field with trees for its first ladybugs.
* `Field.tree` — the tree of a ladybug that must have one.
* `Field.turn` — a turn of one ladybug.
* `readTreeFiles` — trees from several texts, for the ladybugs in order.
-/

namespace Ladybug

/-- What there is once a board has been loaded. -/
structure Field where
  /-- The world in play. -/
  world : World
  /-- The world as it was loaded. -/
  initial : World
  /-- The tree of each ladybug. -/
  trees : Array (Option Tree)
  /-- Trees have been bound since the board was loaded. -/
  treesLoaded : Bool
deriving DecidableEq

namespace Field

/-- A field on which nobody has a tree yet. -/
def ofBoard (b : Board) : Field where
  world := .ofBoard b
  initial := .ofBoard b
  trees := Array.replicate b.spawns.length none
  treesLoaded := false

/-- The number of ladybugs. -/
def ladybugs (f : Field) : Nat := f.initial.colony.count

/-- The colony with exactly its first `n` ladybugs active. -/
def activateFirst (c : Colony) (n : Nat) : Colony :=
  (List.range n).foldl (fun c row => c.setActive (.ofIndex row) true) c.deactivateAll

/-- Starts over from the world as it was loaded, with the trees bound to the first
ladybugs. The other ladybugs have no tree. -/
def bind (f : Field) (trees : List Tree) : Field where
  world := { f.initial with colony := activateFirst f.initial.colony trees.length }
  initial := f.initial
  trees := ((List.range f.ladybugs).map fun row => trees[row]?).toArray
  treesLoaded := true

/-! ### One ladybug -/

/-- Refuses a ladybug that does not exist or has no tree. -/
def checkActive (f : Field) (a : AgentId) : Except GameError Unit :=
  if !f.world.colony.contains a then .error (.unknownLadybug a)
  else if !f.world.colony.isActive a then .error (.inactiveLadybug a)
  else .ok ()

/-- The tree of a ladybug. -/
def tree (f : Field) (a : AgentId) : Except GameError Tree := do
  f.checkActive a
  match f.trees[a.index]? with
  | some (some tree) => return tree
  | _ => .error (.inactiveLadybug a)

/-- Replaces the tree of a ladybug. -/
def setTree (f : Field) (a : AgentId) (tree : Tree) : Field :=
  { f with trees := f.trees.setIfInBounds a.index (some tree) }

/-- One turn of a ladybug, and what was recorded. -/
def turn (f : Field) (a : AgentId) : Except GameError (Trace × Field) := do
  let tree ← f.tree a
  let done := tree.tick f.world a
  return (done.trace, { f.setTree a done.tree with world := done.world })

end Field

/-! ### Several texts of trees -/

/-- The trees of several texts, in order, after those read already. Each text may hold as
many trees as there are ladybugs left, and numbers in a complaint about too many trees are
those of all texts together. -/
def readTreeFilesAfter (total : Nat) :
    List Tree → List (List String) → Except FlowchartError (List Tree)
  | parsed, [] => if parsed.isEmpty then .error .noTrees else .ok parsed
  | parsed, file :: rest =>
    match Flowchart.readTrees file (total - parsed.length) with
    | .error (.tooManyTrees trees _) => .error (.tooManyTrees (parsed.length + trees) total)
    | .error error => .error error
    | .ok trees => readTreeFilesAfter total (parsed ++ trees) rest

/-- The trees of several texts, for a number of ladybugs. There must be at least one. -/
def readTreeFiles (files : List (List String)) (ladybugs : Nat) :
    Except FlowchartError (List Tree) :=
  readTreeFilesAfter ladybugs [] files

end Ladybug
