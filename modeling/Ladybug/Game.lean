import Ladybug.Game.Field

/-!
# The game

A game begins without anything. Loading a board puts ladybugs on a field, and loading
behavior trees makes the first of them active; all other operations need both. A turn gives
every active ladybug one turn of its tree, in the order of their numbers, so that each of
them acts in the world its predecessors have left.

Operations are programs over the state of the game that may stop with an error. The state
survives an error as it is at that moment.

## Main definitions

* `Game` — the state, and `GameM` — programs over it.
* `Game.loadBoard`, `Game.loadTreeFiles` — loading.
* `Game.tick`, `Game.nextAction` — turns.
* `Game.resetTree`, `Game.jumpTo`, `Game.addSibling` — control of a tree.
* `Game.head`, `Game.position` and others — questions, which change nothing.
* `TurnObserver` — who follows a turn as it goes on.
-/

namespace Ladybug

/-- The state of a game. -/
structure Game where
  field : Option Field
deriving DecidableEq

/-- Programs over the state of a game, which may stop with an error. -/
abbrev GameM := EStateM GameError Game

/-- Someone who follows a turn, with a memory of type `σ`. -/
structure TurnObserver (σ : Type) where
  /-- Sees what was recorded during the turn of one ladybug. -/
  onTrace : Trace → σ → σ
  /-- Sees the world right after that turn. -/
  onTurnDone : AgentId → World → σ → σ

/-- The observer who remembers nothing. -/
def TurnObserver.silent : TurnObserver Unit where
  onTrace := fun _ _ => ()
  onTurnDone := fun _ _ _ => ()

namespace Game

/-- The game before anything was loaded. -/
def new : Game := ⟨none⟩

/-! ### What an operation needs -/

/-- The field, which needs a board. -/
def loaded (g : Game) : Except GameError Field :=
  match g.field with
  | some f => .ok f
  | none => .error .boardNotLoaded

/-- The field, which needs a board and trees. -/
def ready (g : Game) : Except GameError Field := do
  let f ← g.loaded
  if f.treesLoaded then return f else .error .treesNotLoaded

/-- Answers a question about the game as it is. -/
def ask {α : Type} (question : Game → Except GameError α) : GameM α := fun g =>
  match question g with
  | .ok answer => .ok answer g
  | .error error => .error error g

/-- Replaces the field. -/
def setField (f : Field) : GameM Unit := fun _ => .ok () ⟨some f⟩

/-- Stops with the error of a failed step. -/
def orFail {ε α : Type} (wrap : ε → GameError) (step : Except ε α) : GameM α := fun g =>
  match step with
  | .ok value => .ok value g
  | .error error => .error (wrap error) g

/-! ### Loading -/

/-- Reads a board and puts it in place of everything there was. The number of ladybugs is
returned. -/
def loadBoard (lines : List String) : GameM Nat := do
  let board ← orFail .board (Board.read lines)
  setField (.ofBoard board)
  return board.spawns.length

/-- Reads trees from several texts and binds them to the ladybugs in order, which starts
the game over. All texts are read before anything changes. The number of trees is
returned. -/
def loadTreeFiles (files : List (List String)) : GameM Nat := do
  let f ← ask loaded
  let trees ← orFail .trees (readTreeFiles files f.ladybugs)
  setField (f.bind trees)
  return trees.length

/-- Reads trees from one text. -/
def loadTrees (lines : List String) : GameM Nat := loadTreeFiles [lines]

/-! ### Turns -/

/-- One turn of a ladybug on the field in play. -/
def turn (a : AgentId) : GameM Trace := do
  let f ← ask loaded
  let (trace, f) ← orFail id (f.turn a)
  setField f
  return trace

/-- One turn of a single ladybug. -/
def tick (a : AgentId) : GameM Trace := do
  let _ ← ask ready
  turn a

/-- One turn of each of the given ladybugs, in order, before the eyes of an observer. -/
def turns {σ : Type} (observer : TurnObserver σ) : List AgentId → σ → GameM (Trace × σ)
  | [], memory => return ([], memory)
  | a :: rest, memory => do
    let trace ← turn a
    let f ← ask loaded
    let memory := observer.onTurnDone a f.world (observer.onTrace trace memory)
    let (later, memory) ← turns observer rest memory
    return (trace ++ later, memory)

/-- One turn of every ladybug that is active now, in the order of their numbers. -/
def nextAction {σ : Type} (observer : TurnObserver σ) (memory : σ) : GameM (Trace × σ) := do
  let f ← ask ready
  turns observer f.world.colony.activeIds memory

/-! ### Questions -/

/-- The tree of a ladybug. -/
def tree (g : Game) (a : AgentId) : Except GameError Tree := do
  let f ← g.ready
  f.tree a

/-- The name of the node announced for a ladybug's next turn. -/
def head (g : Game) (a : AgentId) : Except GameError String := do
  let tree ← g.tree a
  return tree.head

/-- The tree of a ladybug has a node with the name. -/
def hasNode (g : Game) (a : AgentId) (node : String) : Except GameError Bool := do
  let tree ← g.tree a
  return tree.arena.hasNode node

/-- Where an active ladybug stands and which way it faces. -/
def position (g : Game) (a : AgentId) : Except GameError (Position × Direction) := do
  let f ← g.ready
  f.checkActive a
  return (f.world.colony.position a, f.world.colony.direction a)

/-- The numbers of the ladybugs that have a tree, ascending. -/
def activeLadybugs (g : Game) : Except GameError (List AgentId) := do
  let f ← g.ready
  return f.world.colony.activeIds

/-- The world in play. -/
def world (g : Game) : Except GameError World := do
  let f ← g.loaded
  return f.world

/-- There is a board. -/
def boardLoaded (g : Game) : Bool := g.field.isSome

/-- There are trees for the board. -/
def treesLoaded (g : Game) : Bool := g.field.any Field.treesLoaded

/-- The ladybug exists and has a tree. -/
def isActive (g : Game) (a : AgentId) : Bool :=
  g.field.any fun f => f.world.colony.contains a && f.world.colony.isActive a

/-! ### Control of a tree -/

/-- Changes the tree of a ladybug. -/
def editTree (a : AgentId) (edit : Tree → Except TreeError Tree) : GameM Unit := do
  let f ← ask ready
  let tree ← orFail id (f.tree a)
  let tree ← orFail .edit (edit tree)
  setField (f.setTree a tree)

/-- Starts the tree of a ladybug over. -/
def resetTree (a : AgentId) : GameM Unit := editTree a fun tree => .ok tree.reset

/-- Moves the resume pointer of a ladybug's tree to the named node. -/
def jumpTo (a : AgentId) (node : String) : GameM Unit := editTree a fun tree => tree.jumpTo node

/-- Reads a node and adds it to a ladybug's tree, directly after the named one. -/
def addSibling (a : AgentId) (existing node : String) : GameM Unit := do
  let spec ← orFail .trees (Flowchart.readNode node)
  editTree a fun tree => (tree.addSibling existing spec).map Prod.fst

end Game

end Ladybug
