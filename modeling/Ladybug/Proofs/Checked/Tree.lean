import Ladybug.Proofs.Checked.World
import Ladybug.Proofs.Sound

/-!
# Valid accesses to trees

Nodes refer to each other by their rows, and a tree keeps the rows of its root and of its resume
pointer. No row is compared with the size of the table before it is read or written. In a table
that is linked every child and every parent is a row, and what walks, jumps and resets write are
statuses only, so rows stay rows while a tree is worked on.

All accesses of the operations on a tree are valid if the tree is sound. For a turn, the accesses
to the world must be valid as well, which is asked of its conditions and actions. Nothing is asked
of the size of the tree, since rows are natural numbers; numbers of 32 bits come to the same as
long as there are fewer than `2 ^ 32` nodes.

## Main definitions

* `Checked.node`, `Checked.modify` — rows of a table.
* `Checked.walk`, `Checked.tick` — turns, with checked accesses.
* `Checked.reset`, `Checked.jumpTo`, `Checked.addSibling`, `Checked.head` — control of a tree.

## Main results

* `Checked.tick_eq` — a turn of a sound tree makes valid accesses only.
* `Checked.reset_eq`, `Checked.jumpTo_agrees`, `Checked.addSibling_agrees`, `Checked.head_eq` — so
  does the control of a sound tree.
-/

namespace Ladybug.Checked

open Arena

/-! ### Rows -/

/-- The node in a row. -/
def node (t : Arena) (i : NodeIdx) : Checked Node := entry t.nodes i

/-- Changes the node in a row. -/
def modify (t : Arena) (i : NodeIdx) (f : Node → Node) : Checked Arena := do
  let n ← node t i
  let nodes ← setEntry t.nodes i (f n)
  return { t with nodes }

/-- Changes the status of one node. -/
def setStatus (t : Arena) (i : NodeIdx) (s : Status) : Checked Arena :=
  modify t i fun n => { n with status := s }

/-- Changes the status of several nodes to the same one. -/
def setStatuses (t : Arena) (is : List NodeIdx) (s : Status) : Checked Arena :=
  is.foldlM (fun t i => setStatus t i s) t

/-- Takes nodes from a stack, each of them followed by its children and only then by the rest of
the stack. -/
def visit (t : Arena) : Nat → List NodeIdx → Checked (List NodeIdx)
  | 0, _ => .ok []
  | _ + 1, [] => .ok []
  | fuel + 1, i :: stack => do
    let n ← node t i
    let later ← visit t fuel (n.children ++ stack)
    return i :: later

/-- Forgets the progress of a node and of everything below it. -/
def resetFrom (t : Arena) (i : NodeIdx) : Checked Arena := do
  let is ← visit t t.size [i]
  setStatuses t is .notEntered

/-- The names of the nodes that are not below the given one. -/
def unreachableFrom (t : Arena) (root : NodeIdx) : Checked (List String) := do
  let reached ← visit t t.size [root]
  return ((List.range t.size).filter fun i => !reached.contains i).map t.id

section Rows

variable {t : Arena} {i : NodeIdx}

theorem node_eq (hi : i < t.size) : node t i = .ok (t.node i) := entry_eq hi _

theorem modify_eq (hi : i < t.size) (f : Node → Node) : modify t i f = .ok (t.modify i f) := by
  have hnodes : t.nodes.setIfInBounds i (f (t.node i)) = t.nodes.modify i f := by
    refine Array.ext_getElem? fun j => ?_
    rw [Array.getElem?_setIfInBounds, Array.getElem?_modify]
    by_cases hij : i = j
    · subst hij
      have hrow : t.nodes[i]? = some t.nodes[i] := Array.getElem?_eq_getElem hi
      rw [if_pos rfl, if_pos rfl, Arena.node, hrow]
      exact if_pos hi
    · rw [if_neg hij, if_neg hij]
  rw [modify, node_eq hi, ok_bind, setEntry_eq hi, hnodes]
  rfl

theorem setStatus_eq (hi : i < t.size) (s : Status) : setStatus t i s = .ok (t.setStatus i s) :=
  modify_eq hi _

theorem setStatuses_eq {is : List NodeIdx} (his : ∀ i ∈ is, i < t.size) (s : Status) :
    setStatuses t is s = .ok (t.setStatuses is s) := by
  refine foldlM_eq (P := fun u : Arena => u.size = t.size) rfl fun u hu i hi => ?_
  exact ⟨setStatus_eq (hu.symm ▸ his i hi) s, (u.size_setStatus i s).trans hu⟩

/-- Below rows there are rows. -/
theorem visit_eq (ht : t.Linked) {fuel : Nat} {stack : List NodeIdx}
    (hstack : ∀ i ∈ stack, i < t.size) :
    visit t fuel stack = .ok (t.visit fuel stack) ∧ ∀ i ∈ t.visit fuel stack, i < t.size := by
  induction fuel generalizing stack with
  | zero => exact ⟨rfl, nofun⟩
  | succ fuel ih =>
      cases stack with
      | nil => exact ⟨rfl, nofun⟩
      | cons i stack =>
          have hi := hstack i List.mem_cons_self
          have hnext : ∀ j ∈ t.children i ++ stack, j < t.size := fun j hj => by
            rcases List.mem_append.mp hj with hj | hj
            · exact ht.child_lt_size hj
            · exact hstack j (List.mem_cons_of_mem _ hj)
          obtain ⟨hlater, hrows⟩ := ih hnext
          rw [Arena.children] at hlater
          refine ⟨by rw [visit, node_eq hi, ok_bind, hlater]; rfl, fun j hj => ?_⟩
          rcases List.mem_cons.mp hj with rfl | hj
          · exact hi
          · exact hrows j hj

theorem preorderFrom_eq (ht : t.Linked) (hi : i < t.size) :
    visit t t.size [i] = .ok (t.preorderFrom i) ∧ ∀ j ∈ t.preorderFrom i, j < t.size :=
  visit_eq ht fun _ hj => List.mem_singleton.mp hj ▸ hi

theorem resetFrom_eq (ht : t.Linked) (hi : i < t.size) :
    resetFrom t i = .ok (t.resetFrom i) := by
  obtain ⟨hvisit, hrows⟩ := preorderFrom_eq ht hi
  rw [resetFrom, hvisit, ok_bind, setStatuses_eq hrows]
  rfl

theorem unreachableFrom_eq (ht : t.Linked) (hi : i < t.size) :
    unreachableFrom t i = .ok (t.unreachableFrom i) := by
  rw [unreachableFrom, (preorderFrom_eq ht hi).1]
  rfl

end Rows

/-! ### Walks -/

/-- The record of an event at a node. -/
def entryFor (t : Tree) (a : AgentId) (i : NodeIdx) (event : TraceEvent) : Checked TraceEntry := do
  let n ← node t.arena i
  return { agent := a, nodeId := n.id, kind := n.kind, event }

/-- Enters a composite. -/
def enter (t : Tree) (a : AgentId) (i : NodeIdx) : Checked (Tree × Trace) := do
  let n ← node t.arena i
  if n.status = .notEntered then
    let record ← entryFor t a i .entry
    let arena ← setStatus t.arena i .running
    return ({ t with arena }, [record])
  else return (t, [])

/-- Ends a node with an outcome. -/
def finish (t : Tree) (a : AgentId) (i : NodeIdx) (succeeded : Bool) : Checked (Walk WalkEnd) := do
  let arena ← setStatus t.arena i (.ofOutcome succeeded)
  let record ← entryFor t a i (.ofOutcome succeeded)
  return { tree := { t with arena }, trace := [record], ending := .finished succeeded }

/-- How many children of a node have succeeded. -/
def successes (t : Tree) (i : NodeIdx) : Checked Nat := do
  let n ← node t.arena i
  let done ← keep (fun child => return decide ((← node t.arena child).status = .success)) n.children
  return done.length

/-- Goes through children from left to right. -/
def scan (visit : Tree → NodeIdx → Checked (Walk WalkEnd)) (stopsOn : Bool → Bool) :
    Tree → List NodeIdx → Checked (Walk ScanEnd)
  | t, [] => .ok ⟨t, [], .exhausted⟩
  | t, child :: rest => do
    let visited ← visit t child
    match visited.ending with
    | .halted => return ⟨visited.tree, visited.trace, .halted⟩
    | .finished succeeded =>
      if stopsOn succeeded then return ⟨visited.tree, visited.trace, .stopped⟩
      else
        let scanned ← scan visit stopsOn visited.tree rest
        return scanned.after visited.trace

/-- Settles a composite after its children have been gone through. -/
def settle (a : AgentId) (i : NodeIdx) (composite : Composite) (scanned : Walk ScanEnd)
    (stopped : Bool) : Checked (Walk WalkEnd) := do
  let successes ← successes scanned.tree i
  let ended ← finish scanned.tree a i (composite.verdict stopped successes)
  return ended.after scanned.trace

/-- Ends a composite, unless the walk halted at one of its children. -/
def conclude (a : AgentId) (i : NodeIdx) (composite : Composite) (scanned : Walk ScanEnd) :
    Checked (Walk WalkEnd) :=
  match scanned.ending with
  | .halted => .ok ⟨scanned.tree, scanned.trace, .halted⟩
  | .stopped => settle a i composite scanned true
  | .exhausted => settle a i composite scanned false

/-- Walks everything below a node, down to the given depth. -/
def walk (w : World) (a : AgentId) : Nat → Tree → NodeIdx → Checked (Walk WalkEnd)
  | 0, t, _ => .ok ⟨t, [], .halted⟩
  | depth + 1, t, i => do
    let n ← node t.arena i
    match n.status.outcome?, n.kind with
    | some succeeded, _ => return ⟨t, [], .finished succeeded⟩
    | none, .action _ => return ⟨{ t with current := i }, [], .halted⟩
    | none, .condition condition =>
      let succeeded ← holds condition w a
      finish t a i succeeded
    | none, .composite composite =>
      let (entered, entry) ← enter t a i
      let scanned ← scan (walk w a depth) composite.stopsOn entered n.children
      let ended ← conclude a i composite scanned
      return ended.after entry

/-- The first walk of a turn, from the root. -/
def firstWalk (t : Tree) (w : World) (a : AgentId) : Checked (Walk WalkEnd) :=
  walk w a t.arena.size t t.root

/-- The walks of a turn. -/
def walks (t : Tree) (w : World) (a : AgentId) : Checked (Walk WalkEnd) := do
  let first ← firstWalk t w a
  match first.ending with
  | .halted => return first
  | .finished _ =>
    let arena ← resetFrom first.tree.arena first.tree.root
    let second ← firstWalk { first.tree with arena } w a
    return second.after first.trace

/-- The action under the resume pointer. -/
def pending? (t : Tree) : Checked (Option Action) := do
  let n ← node t.arena t.current
  match n.kind with
  | .action action => return some action
  | _ => return none

/-- One turn of a ladybug. -/
def tick (t : Tree) (w : World) (a : AgentId) : Checked Tree.Turn := do
  let walked ← walks t w a
  let pending? ← pending? walked.tree
  match pending? with
  | none => return ⟨{ walked.tree with jumped := false }, w, walked.trace⟩
  | some action =>
    let (after, succeeded) ← perform action w a
    let finished ← finish walked.tree a walked.tree.current succeeded
    let ended := finished.after walked.trace
    return ⟨{ ended.tree with jumped := false }, after, ended.trace⟩

/-- The table has a node of this kind. -/
def HasKind (t : Arena) (kind : NodeKind) : Prop := ∃ i < t.size, t.kind i = kind

/-- Which kinds there are depends on the shape. -/
theorem HasKind.of_shape {t u : Arena} {kind : NodeKind} (h : HasKind u kind)
    (hshape : u.shape = t.shape) : HasKind t kind := by
  obtain ⟨i, hi, rfl⟩ := h
  exact ⟨i, size_of_shape hshape ▸ hi, (kind_of_shape hshape i).symm⟩

/-- The stretch of a walk is what the checked computation returns. It changes nothing but statuses
and the resume pointer, and it records nodes of the tree. -/
structure Stretches {ε : Type} (t : Tree) (checked : Checked (Walk ε)) (plain : Walk ε) : Prop where
  eq : checked = .ok plain
  shape : plain.tree.arena.shape = t.arena.shape
  kinds : ∀ e ∈ plain.trace, HasKind t.arena e.kind

section Walks

variable {t : Tree} {w : World} {a : AgentId} {i : NodeIdx}

theorem entryFor_eq (hi : i < t.arena.size) (event : TraceEvent) :
    entryFor t a i event = .ok (t.entryFor a i event) := by
  rw [entryFor, node_eq hi]
  rfl

theorem enter_eq (hi : i < t.arena.size) : enter t a i = .ok (t.enter a i) := by
  rw [enter, node_eq hi, ok_bind, Tree.enter, Arena.status]
  split
  · rw [entryFor_eq hi, ok_bind, setStatus_eq hi]
    rfl
  · rfl

/-- A composite that is entered records itself. -/
theorem kinds_enter (hi : i < t.arena.size) : ∀ e ∈ (t.enter a i).2, HasKind t.arena e.kind := by
  intro e he
  rw [Tree.enter] at he
  split at he
  · obtain rfl := List.mem_singleton.mp he
    exact ⟨i, hi, rfl⟩
  · cases he

theorem finish_stretches (hi : i < t.arena.size) (succeeded : Bool) :
    Stretches t (finish t a i succeeded) (t.finish a i succeeded) where
  eq := by
    rw [finish, setStatus_eq hi, ok_bind, entryFor_eq hi]
    rfl
  shape := shape_setStatus ..
  kinds e he := by
    obtain rfl := List.mem_singleton.mp he
    exact ⟨i, hi, rfl⟩

theorem successes_eq (ht : t.arena.Linked) (hi : i < t.arena.size) :
    successes t i = .ok (t.successes i) := by
  have hkeep : keep (fun child => return decide ((← node t.arena child).status = .success))
      (t.arena.node i).children = .ok ((t.arena.node i).children.filter
        fun child => decide (t.arena.status child = .success)) :=
    keep_eq fun child hchild => by rw [node_eq (ht.child_lt_size hchild)]; rfl
  rw [successes, node_eq hi, ok_bind, hkeep, Tree.successes, List.countP_eq_length_filter]
  rfl

/-- A stretch that goes on where another one has ended. -/
theorem Stretches.after {ε : Type} {checked : Checked (Walk ε)} {plain : Walk ε} {u : Tree}
    {trace : Trace} (h : Stretches u checked plain) (hshape : u.arena.shape = t.arena.shape)
    (hkinds : ∀ e ∈ trace, HasKind t.arena e.kind) :
    Stretches t (do return (← checked).after trace) (plain.after trace) where
  eq := by
    rw [h.eq]
    rfl
  shape := h.shape.trans hshape
  kinds e he := by
    rcases List.mem_append.mp he with he | he
    · exact hkinds e he
    · exact (h.kinds e he).of_shape hshape

/-- Going through children is valid if each visit is, whatever statuses it finds. -/
theorem scan_stretches {visit : Tree → NodeIdx → Checked (Walk WalkEnd)}
    {visit' : Tree → NodeIdx → Walk WalkEnd} (is : List NodeIdx)
    (hvisit : ∀ u : Tree, u.arena.shape = t.arena.shape → ∀ i ∈ is,
      Stretches u (visit u i) (visit' u i)) (stopsOn : Bool → Bool) :
    Stretches t (scan visit stopsOn t is) (Tree.scan visit' stopsOn t is) := by
  induction is generalizing t with
  | nil => exact ⟨rfl, rfl, nofun⟩
  | cons child rest ih =>
      have hvisited := hvisit t rfl child List.mem_cons_self
      rw [scan, hvisited.eq, ok_bind, Tree.scan]
      cases hend : (visit' t child).ending with
      | halted => exact ⟨rfl, hvisited.shape, hvisited.kinds⟩
      | finished succeeded =>
          dsimp only
          split
          · exact ⟨rfl, hvisited.shape, hvisited.kinds⟩
          · have hrest := ih (t := (visit' t child).tree) fun u hu j hj =>
              hvisit u (hu.trans hvisited.shape) j (List.mem_cons_of_mem _ hj)
            exact hrest.after hvisited.shape hvisited.kinds

/-- A composite is settled where the scan of its children has ended. -/
theorem conclude_stretches {checked : Checked (Walk ScanEnd)} {scanned : Walk ScanEnd}
    (h : Stretches t checked scanned) (ht : t.arena.Linked) (hi : i < t.arena.size)
    (composite : Composite) :
    Stretches t (conclude a i composite scanned) (Tree.conclude a i composite scanned) := by
  have hlinked := ht.of_shape h.shape
  have hlt : i < scanned.tree.arena.size := size_of_shape h.shape ▸ hi
  have hsettle (stopped : Bool) : Stretches t (settle a i composite scanned stopped)
      ((scanned.tree.finish a i (composite.verdict stopped (scanned.tree.successes i))).after
        scanned.trace) := by
    rw [settle, successes_eq hlinked hlt, ok_bind]
    exact (finish_stretches hlt _).after h.shape h.kinds
  rw [conclude, Tree.conclude]
  cases scanned.ending with
  | halted => exact ⟨rfl, h.shape, h.kinds⟩
  | stopped => exact hsettle true
  | exhausted => exact hsettle false

/-- A walk from a row of a linked table is valid if conditions may be asked. -/
theorem walk_stretches (hasks : ∀ c, holds c w a = .ok (c.holds w a)) {depth : Nat}
    (ht : t.arena.Linked) (hi : i < t.arena.size) :
    Stretches t (walk w a depth t i) (Tree.walk w a depth t i) := by
  induction depth generalizing t i with
  | zero => exact ⟨rfl, rfl, nofun⟩
  | succ depth ih =>
      rw [walk, node_eq hi, ok_bind]
      cases hstatus : (t.arena.node i).status.outcome? with
      | some succeeded =>
          rw [Tree.walk_of_finished hstatus]
          exact ⟨rfl, rfl, nofun⟩
      | none =>
          cases hkind : (t.arena.node i).kind with
          | action action =>
              rw [Tree.walk_of_action hstatus hkind]
              exact ⟨rfl, rfl, nofun⟩
          | condition condition =>
              rw [Tree.walk_of_condition hstatus hkind]
              dsimp only
              rw [hasks, ok_bind]
              exact finish_stretches hi _
          | composite composite =>
              have hentered := Tree.shape_enter t a i
              have hvisit (u : Tree) (hu : u.arena.shape = (t.enter a i).1.arena.shape) :
                  ∀ child ∈ (t.arena.node i).children,
                    Stretches u (walk w a depth u child) (Tree.walk w a depth u child) :=
                fun child hchild => ih (ht.of_shape (hu.trans hentered))
                  (size_of_shape (hu.trans hentered) ▸ ht.child_lt_size hchild)
              have hscan := scan_stretches (t.arena.node i).children hvisit composite.stopsOn
              have hended := conclude_stretches (a := a) hscan (ht.of_shape hentered)
                (size_of_shape hentered ▸ hi) composite
              rw [Tree.walk_of_composite hstatus hkind, Arena.children]
              dsimp only
              rw [enter_eq hi, ok_bind, hscan.eq, ok_bind]
              exact hended.after hentered (kinds_enter hi)

end Walks

section Turns

variable {t : Tree} {w : World} {a : AgentId}

theorem firstWalk_stretches (hasks : ∀ c, holds c w a = .ok (c.holds w a)) (ht : t.arena.Linked)
    (hroot : t.root < t.arena.size) : Stretches t (firstWalk t w a) (t.firstWalk w a) :=
  walk_stretches hasks ht hroot

theorem walks_stretches (hasks : ∀ c, holds c w a = .ok (c.holds w a)) (ht : t.Sound) :
    Stretches t (walks t w a) (t.walks w a) := by
  have hfirst := firstWalk_stretches hasks ht.linked ht.root_lt
  have hroot : (t.firstWalk w a).tree.root = t.root := (ht.firstWalk_passes w a).root
  have hlt : (t.firstWalk w a).tree.root < (t.firstWalk w a).tree.arena.size := by
    rw [hroot, size_of_shape hfirst.shape]
    exact ht.root_lt
  rw [walks, hfirst.eq, ok_bind, Tree.walks]
  cases (t.firstWalk w a).ending with
  | halted => exact ⟨rfl, hfirst.shape, hfirst.kinds⟩
  | finished succeeded =>
      have hlinked := ht.linked.of_shape hfirst.shape
      have hreset := shape_resetFrom (t.firstWalk w a).tree.arena (t.firstWalk w a).tree.root
      have hsecond := firstWalk_stretches (t := (t.firstWalk w a).tree.restart) hasks
        (hlinked.of_shape hreset) (size_of_shape hreset ▸ hlt)
      dsimp only
      rw [resetFrom_eq hlinked hlt, ok_bind]
      exact hsecond.after (hreset.trans hfirst.shape) hfirst.kinds

theorem pending?_eq (hcurrent : t.current < t.arena.size) : pending? t = .ok t.pending? := by
  rw [pending?, node_eq hcurrent, ok_bind, Tree.pending?, Arena.kind]
  cases (t.arena.node t.current).kind <;> rfl

/-- **A turn of a sound tree makes valid accesses only**, if its ladybug may ask conditions and
perform actions. It records nodes of the tree. -/
theorem tick_eq (hasks : ∀ c, holds c w a = .ok (c.holds w a))
    (hperforms : ∀ action, perform action w a = .ok (action.perform w a)) (ht : t.Sound) :
    tick t w a = .ok (t.tick w a) ∧ ∀ e ∈ (t.tick w a).trace, HasKind t.arena e.kind := by
  have hwalks := walks_stretches hasks ht
  have hcurrent := (ht.walks_sound w a).current_lt
  rw [tick, hwalks.eq, ok_bind, pending?_eq hcurrent, ok_bind, Tree.tick]
  cases (t.walks w a).tree.pending? with
  | none => exact ⟨rfl, hwalks.kinds⟩
  | some action =>
      have hfinish := finish_stretches (a := a) hcurrent (action.perform w a).2
      have hended := hfinish.after hwalks.shape hwalks.kinds
      dsimp only
      rw [hperforms, ok_bind, hfinish.eq]
      exact ⟨rfl, hended.kinds⟩

end Turns

/-! ### Control -/

/-- Starts the tree over. -/
def reset (t : Tree) : Checked Tree := do
  let arena ← resetFrom t.arena t.root
  return { arena, root := t.root, current := t.root, jumped := false }

/-- The name of the node announced for the next turn. -/
def head (t : Tree) : Checked String := do
  let current ← node t.arena t.current
  if current.kind.isAction then
    match current.parent with
    | none => return current.id
    | some parent =>
      if t.jumped then return current.id
      let above ← node t.arena parent
      match above.children.dropWhile (· != t.current) with
      | _ :: next :: _ => return (← node t.arena next).id
      | _ => return current.id
  else return (← node t.arena t.root).id

/-- The nodes on the way down to the first node of `below`. -/
def climb (t : Tree) : Nat → NodeIdx → List NodeIdx → Checked (List NodeIdx)
  | 0, i, below => .ok (i :: below)
  | fuel + 1, i, below => do
    let n ← node t.arena i
    match n.parent with
    | none => return i :: below
    | some parent => climb t fuel parent (i :: below)

/-- A node that has ended is not entered any more. -/
def reopen (t : Arena) (i : NodeIdx) : Checked Arena := do
  let n ← node t i
  if n.status.isFinished then setStatus t i .notEntered else return t

/-- Makes `parent` stand as if it had just come to its child `onPath`. -/
def leadTo (t : Arena) (parent onPath : NodeIdx) : Checked Arena := do
  let n ← node t parent
  let reopened ← reopen t parent
  let before ← setStatuses reopened (n.children.takeWhile (· != onPath))
    (.ofOutcome (n.kind == .composite .sequence))
  ((n.children.dropWhile (· != onPath)).drop 1).foldlM resetFrom before

/-- Makes every node of a way down lead to the next. -/
def leadAlong : Arena → List NodeIdx → Checked Arena
  | t, parent :: onPath :: rest => do
    let led ← leadTo t parent onPath
    leadAlong led (onPath :: rest)
  | t, _ => .ok t

/-- Moves the resume pointer to the named node. -/
def jumpTo (t : Tree) (id : String) : ExceptT TreeError Checked Tree := do
  match t.arena.lookup? id with
  | none => throw (.unknownNode id)
  | some target =>
    if target = t.root then reset t
    else
      let path ← climb t t.arena.size target []
      let led ← leadAlong t.arena path
      let arena ← resetFrom led target
      return { arena, root := t.root, current := target, jumped := true }

/-- Adds a node directly after the named one. -/
def addSibling (t : Tree) (existing : String) (spec : NodeSpec) :
    ExceptT TreeError Checked (Tree × NodeIdx) := do
  match t.arena.lookup? existing with
  | none => throw (.unknownNode existing)
  | some anchor =>
    if t.arena.hasNode spec.id then throw (.duplicateNode spec.id)
    else
      let n ← node t.arena anchor
      match n.parent with
      | none => throw (.rootSibling existing)
      | some parent =>
        let new := t.arena.size
        let grown ← modify (t.arena.push (Node.ofSpec spec (some parent))) parent fun n =>
          { n with children := Tree.insertAfter anchor new n.children }
        return ({ t with arena := grown }, new)

section Control

variable {t : Tree}

theorem reset_eq (ht : t.Sound) : reset t = .ok t.reset := by
  rw [reset, resetFrom_eq ht.linked ht.root_lt]
  rfl

theorem head_eq (ht : t.Sound) : head t = .ok t.head := by
  rw [head, node_eq ht.current_lt, ok_bind, Tree.head, Tree.pending?, Arena.kind, Arena.parent?]
  cases (t.arena.node t.current).kind with
  | composite _ => simp only [NodeKind.isAction, node_eq ht.root_lt]; rfl
  | condition _ => simp only [NodeKind.isAction, node_eq ht.root_lt]; rfl
  | action action =>
      cases hparent : (t.arena.node t.current).parent with
      | none => rfl
      | some parent =>
          have hmem := (ht.linked.parent?_iff _ _).mp hparent
          have hlt := lt_size_of_mem_children hmem
          simp only [NodeKind.isAction, if_true, Option.isNone_some, Bool.false_eq_true, if_false]
          split
          · rfl
          · -- What follows the pointer among the children is a child.
            have hrows : ∀ i ∈ (t.arena.node parent).children.dropWhile (· != t.current),
                i < t.arena.size := fun i hi =>
              ht.linked.child_lt_size ((List.dropWhile_suffix _).mem hi)
            rw [node_eq hlt, ok_bind, Arena.children]
            generalize (t.arena.node parent).children.dropWhile (· != t.current) = following
              at hrows ⊢
            rcases following with - | ⟨_, - | ⟨next, _⟩⟩
            · rfl
            · rfl
            · dsimp only
              rw [node_eq (hrows next (by simp))]
              rfl

/-- The way up from a row leads over rows. -/
theorem climb_eq (ht : t.arena.Linked) (fuel : Nat) {i : NodeIdx} {below : List NodeIdx}
    (hi : i < t.arena.size) (hbelow : ∀ j ∈ below, j < t.arena.size) :
    climb t fuel i below = .ok (t.climb fuel i below) ∧
      ∀ j ∈ t.climb fuel i below, j < t.arena.size := by
  have hrows : ∀ j ∈ i :: below, j < t.arena.size := List.forall_mem_cons.mpr ⟨hi, hbelow⟩
  induction fuel generalizing i below with
  | zero => exact ⟨rfl, hrows⟩
  | succ fuel ih =>
      rw [climb, node_eq hi, ok_bind, Tree.climb, Arena.parent?]
      cases hparent : (t.arena.node i).parent with
      | none => exact ⟨rfl, hrows⟩
      | some parent =>
          have hlt := lt_size_of_mem_children ((ht.parent?_iff _ _).mp hparent)
          exact ih hlt hrows (List.forall_mem_cons.mpr ⟨hlt, hrows⟩)

theorem leadTo_eq {t : Arena} (ht : t.Linked) {parent : NodeIdx} (hparent : parent < t.size)
    (onPath : NodeIdx) : leadTo t parent onPath = .ok (Tree.leadTo t parent onPath) := by
  have hreopen : reopen t parent =
      .ok (if (t.status parent).isFinished then t.setStatus parent .notEntered else t) := by
    rw [reopen, node_eq hparent, ok_bind, Arena.status]
    split
    · exact setStatus_eq hparent _
    · rfl
  have hshape : (if (t.status parent).isFinished then t.setStatus parent .notEntered
      else t).shape = t.shape := by
    split
    · exact shape_setStatus ..
    · rfl
  rw [leadTo, node_eq hparent, ok_bind, hreopen, ok_bind, Tree.leadTo]
  generalize (if (t.status parent).isFinished then t.setStatus parent .notEntered
    else t) = reopened at hshape ⊢
  have hchild : ∀ i ∈ (t.node parent).children, i < reopened.size := fun i hi =>
    size_of_shape hshape ▸ ht.child_lt_size hi
  rw [setStatuses_eq fun i hi => hchild i ((List.takeWhile_prefix _).mem hi), ok_bind]
  refine foldlM_eq (P := fun u : Arena => u.shape = t.shape) ?_ fun u hu i hi => ?_
  · exact (shape_setStatuses ..).trans hshape
  · have hmem := (List.dropWhile_suffix _).mem (List.mem_of_mem_drop hi)
    exact ⟨resetFrom_eq (ht.of_shape hu) (size_of_shape hu ▸ ht.child_lt_size hmem),
      (shape_resetFrom ..).trans hu⟩

theorem leadAlong_eq {t : Arena} (ht : t.Linked) {path : List NodeIdx}
    (hpath : ∀ i ∈ path, i < t.size) : leadAlong t path = .ok (Tree.leadAlong t path) := by
  induction path generalizing t with
  | nil => rfl
  | cons parent path ih =>
      cases path with
      | nil => rfl
      | cons onPath rest =>
          have hshape := Tree.shape_leadTo t parent onPath
          rw [leadAlong, leadTo_eq ht (hpath parent List.mem_cons_self), ok_bind]
          exact ih (ht.of_shape hshape) fun i hi =>
            size_of_shape hshape ▸ hpath i (List.mem_cons_of_mem _ hi)

/-- **A jump in a sound tree makes valid accesses only.** -/
theorem jumpTo_agrees (ht : t.Sound) (id : String) : Agrees (jumpTo t id) (t.jumpTo id) := by
  rw [jumpTo, Tree.jumpTo, Tree.require]
  cases hlookup : t.arena.lookup? id with
  | none => exact .throw _
  | some target =>
      have hlt := ((ht.linked.lookup?_iff id target).mp hlookup).1
      dsimp only
      change Agrees _ (if target = t.root then .ok t.reset else .ok _)
      split
      · exact .lift (reset_eq ht)
      · obtain ⟨hclimb, hrows⟩ := climb_eq ht.linked t.arena.size hlt
          (fun _ hj => absurd hj List.not_mem_nil)
        have hshape := Tree.shape_leadAlong t.arena (t.climb t.arena.size target [])
        refine .access hclimb (.access (leadAlong_eq ht.linked hrows) (.access ?_ (.pure _)))
        exact resetFrom_eq (ht.linked.of_shape hshape) (by rwa [size_of_shape hshape])

/-- **Adding a sibling in a sound tree makes valid accesses only.** -/
theorem addSibling_agrees (ht : t.Sound) (existing : String) (spec : NodeSpec) :
    Agrees (addSibling t existing spec) (t.addSibling existing spec) := by
  rw [addSibling, Tree.addSibling, Tree.require]
  cases hlookup : t.arena.lookup? existing with
  | none => exact .throw _
  | some anchor =>
      have hlt := ((ht.linked.lookup?_iff existing anchor).mp hlookup).1
      dsimp only
      change Agrees _ (if t.arena.hasNode spec.id then _ else _)
      split
      · exact .throw _
      · refine .access (node_eq hlt) ?_
        rw [Arena.parent?]
        cases hparent : (t.arena.node anchor).parent with
        | none => exact .throw _
        | some parent =>
            have hmem := (ht.linked.parent?_iff _ _).mp hparent
            have hrow : parent < (t.arena.push (Node.ofSpec spec (some parent))).size := by
              rw [size_push]
              exact Nat.lt_succ_of_lt (lt_size_of_mem_children hmem)
            exact .access (modify_eq hrow _) (.pure _)

end Control

end Ladybug.Checked
