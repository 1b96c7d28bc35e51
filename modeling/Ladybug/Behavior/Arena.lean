import Ladybug.Behavior.Node

/-!
# The table of nodes

All nodes of a tree stand in one table, in the order in which they were added, and refer to
each other by their rows. A table is filled node by node and link by link. It need not be
a tree while that goes on: nodes without a parent, and even rings of nodes, are possible.

Names are unique in a table, since a second node of the same name is refused. An index beside
the nodes keeps the row of every name, and a new node enters both at once.

## Main definitions

* `TreeError` — why an edit of a table or a tree is refused.
* `Arena` — the table; `Arena.addNode` and `Arena.addChild` fill it.
* `Arena.preorderFrom` — everything below a node, parents before their children.
* `Arena.resetFrom`, `Arena.unreachableFrom` — what rests on that order.

## Main results

* `Arena.node_modify`, `Arena.node_push` — an edit of a row leaves the other rows as they
  were.
* `Arena.node_setStatus` — changing a status changes nothing else of a node.
-/

namespace Ladybug

/-! ### Refused edits -/

/-- Why an edit of a table or a tree is refused. -/
inductive TreeError where
  | unknownNode (id : String)
  | duplicateNode (id : String)
  | rootSibling (id : String)
  | notComposite (id : String)
deriving DecidableEq

/-- The message shown to the user. -/
def TreeError.message : TreeError → String
  | .unknownNode id => s!"unknown node '{id}'"
  | .duplicateNode id => s!"node '{id}' already exists"
  | .rootSibling id => s!"the root node '{id}' can not have siblings"
  | .notComposite id => s!"node '{id}' is not a composite and can not have children"

/-! ### The table -/

/-- A table of nodes. -/
structure Arena where
  nodes : Array Node
  /-- The names with their rows, the newest first. -/
  index : List (String × NodeIdx)
deriving DecidableEq

namespace Arena

/-- The table without nodes. -/
def empty : Arena := ⟨#[], []⟩

/-- The number of nodes. -/
def size (t : Arena) : Nat := t.nodes.size

/-- There are no nodes. -/
def isEmpty (t : Arena) : Bool := t.nodes.isEmpty

/-- The node with a handle. A handle of no row stands for a nameless node that is linked
to nothing. -/
def node (t : Arena) (i : NodeIdx) : Node := t.nodes[i]?.getD default

/-- The name of a node. -/
def id (t : Arena) (i : NodeIdx) : String := (t.node i).id

/-- The kind of a node. -/
def kind (t : Arena) (i : NodeIdx) : NodeKind := (t.node i).kind

/-- The parent of a node. -/
def parent? (t : Arena) (i : NodeIdx) : Option NodeIdx := (t.node i).parent

/-- The children of a node, from left to right. -/
def children (t : Arena) (i : NodeIdx) : List NodeIdx := (t.node i).children

/-- The status of a node. -/
def status (t : Arena) (i : NodeIdx) : Status := (t.node i).status

/-- The handle of the node with a name, by the index. -/
def lookup? (t : Arena) (id : String) : Option NodeIdx := t.index.lookup id

/-- The table has a node with the name. -/
def hasNode (t : Arena) (id : String) : Bool := (t.lookup? id).isSome

/-! ### Edits -/

/-- Changes one node, whose name must stay. -/
def modify (t : Arena) (i : NodeIdx) (f : Node → Node) : Arena :=
  { t with nodes := t.nodes.modify i f }

/-- Changes the status of one node. -/
def setStatus (t : Arena) (i : NodeIdx) (s : Status) : Arena :=
  t.modify i fun n => { n with status := s }

/-- Changes the status of several nodes to the same one. -/
def setStatuses (t : Arena) (is : List NodeIdx) (s : Status) : Arena :=
  is.foldl (fun t i => t.setStatus i s) t

/-- Adds a node at the end of the table and enters its name in the index. -/
def push (t : Arena) (n : Node) : Arena where
  nodes := t.nodes.push n
  index := (n.id, t.size) :: t.index

/-- Adds a node without a parent, whose name must be new. -/
def addNode (t : Arena) (spec : NodeSpec) : Except TreeError (Arena × NodeIdx) :=
  if t.hasNode spec.id then .error (.duplicateNode spec.id)
  else .ok (t.push (Node.ofSpec spec none), t.size)

/-- Makes one node the last child of another, which must be a composite. The child must
not have a parent yet. -/
def addChild (t : Arena) (parent child : NodeIdx) : Except TreeError Arena :=
  if (t.kind parent).isComposite then
    .ok <|
      (t.modify parent fun n => { n with children := n.children ++ [child] }).modify child
        fun n => { n with parent := some parent }
  else .error (.notComposite (t.id parent))

/-! ### What edits do to nodes -/

@[simp] theorem size_modify (t : Arena) (i : NodeIdx) (f : Node → Node) :
    (t.modify i f).size = t.size := by
  simp [modify, size]

@[simp] theorem size_push (t : Arena) (n : Node) : (t.push n).size = t.size + 1 := by
  simp [push, size]

@[simp] theorem size_setStatus (t : Arena) (i : NodeIdx) (s : Status) :
    (t.setStatus i s).size = t.size := size_modify ..

/-- Changing a node changes its row, if there is one, and no other. -/
theorem node_modify (t : Arena) (i : NodeIdx) (f : Node → Node) (j : NodeIdx) :
    (t.modify i f).node j = if j = i ∧ i < t.size then f (t.node i) else t.node j := by
  unfold node modify size
  rw [Array.getElem?_modify]
  by_cases hij : i = j
  · subst hij
    by_cases h : i < t.nodes.size <;> simp [h]
  · have hji : ¬ j = i := fun he => hij he.symm
    simp [hij, hji]

@[simp] theorem lookup?_modify (t : Arena) (i : NodeIdx) (f : Node → Node) (id : String) :
    (t.modify i f).lookup? id = t.lookup? id := rfl

/-- The name of a new node is found in the next row. -/
theorem lookup?_push (t : Arena) (n : Node) (id : String) :
    (t.push n).lookup? id = if id = n.id then some t.size else t.lookup? id := by
  rw [lookup?, push, List.lookup_cons]
  by_cases h : id = n.id
  · rw [if_pos h, beq_iff_eq.mpr h]
  · rw [if_neg h, beq_eq_false_iff_ne.mpr h, lookup?]

/-- A new node takes the next row. -/
theorem node_push (t : Arena) (n : Node) (j : NodeIdx) :
    (t.push n).node j = if j = t.size then n else t.node j := by
  unfold node push size
  rw [Array.getElem?_push]
  split <;> rfl

/-- Changing the status of a node changes nothing else of it. -/
theorem node_setStatus (t : Arena) (i : NodeIdx) (s : Status) (j : NodeIdx) :
    (t.setStatus i s).node j = { t.node j with status := (t.setStatus i s).status j } := by
  unfold status setStatus
  rw [node_modify]
  split
  · next h => rw [h.1]
  · rfl

@[simp] theorem id_setStatus (t : Arena) (i j : NodeIdx) (s : Status) :
    (t.setStatus i s).id j = t.id j := by
  unfold id; rw [node_setStatus]

@[simp] theorem kind_setStatus (t : Arena) (i j : NodeIdx) (s : Status) :
    (t.setStatus i s).kind j = t.kind j := by
  unfold kind; rw [node_setStatus]

@[simp] theorem parent?_setStatus (t : Arena) (i j : NodeIdx) (s : Status) :
    (t.setStatus i s).parent? j = t.parent? j := by
  unfold parent?; rw [node_setStatus]

@[simp] theorem children_setStatus (t : Arena) (i j : NodeIdx) (s : Status) :
    (t.setStatus i s).children j = t.children j := by
  unfold children; rw [node_setStatus]

/-- The status of a row is the one it was given last. -/
theorem status_setStatus {t : Arena} {i : NodeIdx} (h : i < t.size) (s : Status) (j : NodeIdx) :
    (t.setStatus i s).status j = if j = i then s else t.status j := by
  unfold status setStatus
  rw [node_modify]
  by_cases hj : j = i <;> simp [hj, h]

/-! ### What lies below a node -/

/-- Takes nodes from a stack, each of them followed by its children and only then by the
rest of the stack. Each unit of fuel takes one node. -/
def visit (t : Arena) : Nat → List NodeIdx → List NodeIdx
  | 0, _ => []
  | _ + 1, [] => []
  | fuel + 1, i :: stack => i :: t.visit fuel (t.children i ++ stack)

/-- A node and everything below it, parents before their children and children from left
to right. Below a node that no path leads back to there are no more nodes than rows. -/
def preorderFrom (t : Arena) (i : NodeIdx) : List NodeIdx := t.visit t.size [i]

/-- Forgets the progress of a node and of everything below it. -/
def resetFrom (t : Arena) (i : NodeIdx) : Arena := t.setStatuses (t.preorderFrom i) .notEntered

/-- The names of the nodes that are not below the given one, in the order of the table. -/
def unreachableFrom (t : Arena) (root : NodeIdx) : List String :=
  let reached := t.preorderFrom root
  ((List.range t.size).filter fun i => !reached.contains i).map t.id

end Arena

end Ladybug
