import Ladybug.Behavior.Tree
import Ladybug.Flowchart.Edge
import Ladybug.Flowchart.Meaning

/-!
# Blocks

The lines below a header describe one tree, edge by edge. A node is declared where it
first occurs, with a bracket, and named by its bare id from then on. The parent of the
first edge is the root. A block may also consist of a single declared node, which is then a
tree by itself; such a line is possible only as the first of a block.

A block becomes a tree when every declared node hangs below the root and at least one node
is an action.

## Main definitions

* `Block` — a tree being read.
* `Block.resolve` — the node that a token names, declared or looked up.
* `Block.readLine` — the block after one more line.
* `Block.close` — the finished tree.
-/

namespace Ladybug.Flowchart

open Text

/-- A tree being read. -/
structure Block where
  /-- The number of the tree in the text, counted from one. -/
  number : Nat
  arena : Arena
  root : Option NodeIdx
  /-- An action has been declared. -/
  hasAction : Bool
deriving DecidableEq

namespace Block

/-- The block right after its header. -/
def start (number : Nat) : Block where
  number := number
  arena := .empty
  root := none
  hasAction := false

/-- The node that a token names, and the block in which it is declared. A token with a
bracket declares a new node, a bare one names a node declared before. -/
def resolve (b : Block) (token : Token) : Except LineFault (Block × NodeIdx) := do
  let id := String.ofList token.id
  match b.arena.lookup? id, token.bracket with
  | some i, none => return (b, i)
  | some _, some _ => .error (.redefinition id)
  | none, none => .error (.invalidNode (String.ofList token.text))
  | none, some bracket =>
    let kind ← bracket.kind
    match b.arena.addNode { id, kind } with
    | .error _ => .error (.redefinition id)
    | .ok (arena, i) => return ({ b with arena, hasAction := b.hasAction || kind.isAction }, i)

/-- The block with one more edge. The parent of the first edge becomes the root. -/
def addEdge (b : Block) (edge : Edge) : Except LineFault Block := do
  let (b, parent) ← b.resolve edge.parent
  let (b, child) ← b.resolve edge.child
  match b.arena.addChild parent child with
  | .error _ => .error (.notComposite (b.arena.id parent) (b.arena.kind parent).category)
  | .ok arena => return { b with arena, root := b.root.or (some parent) }

/-- The block after one more line. -/
def readLine (b : Block) (line : List Char) : Except LineFault Block :=
  match Edge.read? line with
  | some edge => b.addEdge edge
  | none =>
    let text := trim line
    let single := if b.arena.isEmpty then Token.read? text else none
    match single.filter fun token => token.bracket.isSome with
    | some token => do
      let (b, root) ← b.resolve token
      return { b with root := some root }
    | none => .error (.invalidEdge (String.ofList text))

/-- The finished tree. -/
def close (b : Block) : Except FlowchartError Tree :=
  match b.root with
  | none => .error (.noAction b.number)
  | some root =>
    match b.arena.unreachableFrom root with
    | id :: _ => .error (.disconnected b.number id)
    | [] => if b.hasAction then .ok (Tree.ofArena b.arena root) else .error (.noAction b.number)

end Block

end Ladybug.Flowchart
