import Ladybug.Flowchart.Reader

/-!
# Writing flowcharts

A tree is written as a header and one line for each link, in the order of the tree: parents
before their children, and the children of a node from left to right. Each node has its
bracket where it first occurs, which is on the right of its own link, and for the root on
the left of the first. A root without children is a line by itself.
-/

namespace Ladybug.Flowchart

/-- The indentation of the lines below a header. -/
def indentation : String := "    "

/-- A node with its bracket. -/
def declaration (t : Arena) (i : NodeIdx) : String := t.id i ++ (t.kind i).representation

/-- The links of a tree, in the order of the tree. -/
def links (t : Tree) : List (NodeIdx × NodeIdx) :=
  t.preorder.flatMap fun parent => (t.arena.children parent).map fun child => (parent, child)

/-- The line of a link, with the given text for the parent. -/
def linkLine (t : Arena) (parent : String) (child : NodeIdx) : String :=
  indentation ++ parent ++ " --> " ++ declaration t child

/-- The lines of a tree. -/
def treeLines (t : Tree) : List String :=
  match links t with
  | [] => [header, indentation ++ declaration t.arena t.root]
  | (root, child) :: rest =>
    header :: linkLine t.arena (declaration t.arena root) child ::
      rest.map fun (parent, child) => linkLine t.arena (t.arena.id parent) child

/-- The text of a tree, each line with its end. -/
def treeText (t : Tree) : String := String.join ((treeLines t).map (· ++ "\n"))

end Ladybug.Flowchart
