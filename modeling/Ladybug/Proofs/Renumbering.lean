import Ladybug.Proofs.OneAction

/-!
# Trees in other rows

The rows of a table are handed out in the order in which nodes are added, so trees that are the
same in all that matters may have their nodes in different rows. Here the nodes of one table are
those of another in other rows, with the same statuses, and whatever is done to the one tree and
to the other, they stay like that: rows are only ever compared with each other, followed, and
handed out at the end of the table.

Nothing is assumed of the tables apart from the renumbering itself. They need not even be trees.

## Main definitions

* `Arena.Renumbers` and `Tree.Renumbers` — the same table, and the same tree, in other rows.
* `Walk.Renumbers` — the same stretch of a walk in other rows.
* `Tree.SameResult` — two operations that are refused alike or have related results.

## Main results

* `Tree.Renumbers.walk` and `Tree.Renumbers.tick` — turns of both trees.
* `Tree.Renumbers.jumpTo` and `Tree.Renumbers.addSibling` — jumps and new siblings.
* `Tree.Renumbers.after` — whatever is done to both trees leaves them the same in other rows.
-/

namespace Ladybug

/-- The node with its parent and its children in other rows. -/
def Node.renumber (σ : NodeIdx → NodeIdx) (n : Node) : Node :=
  { n with parent := n.parent.map σ, children := n.children.map σ }

namespace Arena

/-! ### Tables -/

/-- The second table has the nodes of the first one in other rows. -/
structure Renumbers (σ : NodeIdx → NodeIdx) (t u : Arena) : Prop where
  injective : Function.Injective σ
  size : u.size = t.size
  /-- The rows that are still to be handed out stay in their order. -/
  beyond : ∀ i, t.size ≤ i → σ i = i
  node : ∀ i, u.node (σ i) = (t.node i).renumber σ
  lookup? : ∀ id, u.lookup? id = (t.lookup? id).map σ

namespace Renumbers

variable {σ : NodeIdx → NodeIdx} {t u : Arena}

section Views

variable (h : Renumbers σ t u) (i : NodeIdx)

include h

theorem id_eq : u.id (σ i) = t.id i := by rw [Arena.id, h.node, Node.renumber, Arena.id]

theorem kind_eq : u.kind (σ i) = t.kind i := by rw [kind, h.node, Node.renumber, kind]

theorem parent?_eq : u.parent? (σ i) = (t.parent? i).map σ := by
  rw [parent?, h.node, Node.renumber, parent?]

theorem children_eq : u.children (σ i) = (t.children i).map σ := by
  rw [children, h.node, Node.renumber, children]

theorem status_eq : u.status (σ i) = t.status i := by
  rw [status, h.node, Node.renumber, status]

theorem hasNode_eq (id : String) : u.hasNode id = t.hasNode id := by
  rw [hasNode, h.lookup?, Option.isSome_map, hasNode]

/-- The rows of the two tables are renumbered among themselves. -/
theorem lt_size_iff : σ i < u.size ↔ i < t.size := by
  rw [h.size]
  constructor
  · intro hlt
    by_contra hge
    rw [h.beyond i (Nat.le_of_not_lt hge)] at hlt
    exact hge hlt
  · intro hlt
    by_contra hge
    -- The new row would be one that keeps its number, and two rows would come to it.
    have hfixed := h.injective (h.beyond (σ i) (Nat.le_of_not_lt hge))
    exact hge (hfixed.symm ▸ hlt)

omit i in
/-- The row that is handed out next is the same. -/
theorem next_row : σ t.size = u.size := (h.beyond t.size (Nat.le_refl _)).trans h.size.symm

/-- Two rows are different if and only if they are so after the renumbering. -/
theorem bne_comp (j : NodeIdx) : (· != σ j) ∘ σ = (· != j) := by
  funext k
  rw [Function.comp_apply, Bool.eq_iff_iff, bne_iff_ne, bne_iff_ne, h.injective.ne_iff]

end Views

section Edits

variable (h : Renumbers σ t u)

include h

/-- The same change can be made to a node in both its rows. -/
theorem modify (i : NodeIdx) {f g : Node → Node}
    (hfg : ∀ n, g (n.renumber σ) = (f n).renumber σ) :
    Renumbers σ (t.modify i f) (u.modify (σ i) g) where
  injective := h.injective
  size := by rw [size_modify, size_modify, h.size]
  beyond j hj := h.beyond j (size_modify t i f ▸ hj)
  node j := by
    have hiff : σ j = σ i ∧ σ i < u.size ↔ j = i ∧ i < t.size :=
      and_congr h.injective.eq_iff (h.lt_size_iff i)
    rw [node_modify, node_modify]
    by_cases hrow : j = i ∧ i < t.size
    · rw [if_pos hrow, if_pos (hiff.mpr hrow), h.node, hfg]
    · rw [if_neg hrow, if_neg (mt hiff.mp hrow), h.node]
  lookup? := h.lookup?

theorem setStatus (i : NodeIdx) (s : Status) :
    Renumbers σ (t.setStatus i s) (u.setStatus (σ i) s) :=
  h.modify i fun _ => rfl

/-- A new node comes to the end of both tables. -/
theorem push (n : Node) : Renumbers σ (t.push n) (u.push (n.renumber σ)) where
  injective := h.injective
  size := by rw [size_push, size_push, h.size]
  beyond j hj := by
    rw [size_push] at hj
    exact h.beyond j (Nat.le_of_succ_le hj)
  node j := by
    have hrow : σ j = u.size ↔ j = t.size := by rw [← h.next_row, h.injective.eq_iff]
    rw [node_push, node_push]
    by_cases hj : j = t.size
    · rw [if_pos hj, if_pos (hrow.mpr hj)]
    · rw [if_neg hj, if_neg (mt hrow.mp hj), h.node]
  lookup? id := by
    rw [lookup?_push, lookup?_push, h.lookup?, Node.renumber]
    by_cases hid : id = n.id
    · rw [if_pos hid, if_pos hid, Option.map_some, h.next_row]
    · rw [if_neg hid, if_neg hid]

theorem setStatuses (is : List NodeIdx) (s : Status) :
    Renumbers σ (t.setStatuses is s) (u.setStatuses (is.map σ) s) := by
  induction is generalizing t u with
  | nil => exact h
  | cons i is ih => exact ih (h.setStatus i s)

/-- Nodes are visited in the same order. -/
theorem visit_eq (fuel : Nat) (stack : List NodeIdx) :
    u.visit fuel (stack.map σ) = (t.visit fuel stack).map σ := by
  induction fuel generalizing stack with
  | zero => rfl
  | succ fuel ih =>
      cases stack with
      | nil => rfl
      | cons i stack =>
          rw [List.map_cons, visit, visit, List.map_cons, h.children_eq, ← List.map_append, ih]

theorem preorderFrom_eq (i : NodeIdx) :
    u.preorderFrom (σ i) = (t.preorderFrom i).map σ := by
  rw [preorderFrom, preorderFrom, h.size, ← h.visit_eq]
  rfl

theorem resetFrom (i : NodeIdx) : Renumbers σ (t.resetFrom i) (u.resetFrom (σ i)) := by
  rw [Arena.resetFrom, Arena.resetFrom, h.preorderFrom_eq]
  exact h.setStatuses _ _

theorem foldl_resetFrom (is : List NodeIdx) :
    Renumbers σ (is.foldl Arena.resetFrom t) ((is.map σ).foldl Arena.resetFrom u) := by
  induction is generalizing t u with
  | nil => exact h
  | cons i is ih => exact ih (h.resetFrom i)

theorem leadTo (parent onPath : NodeIdx) :
    Renumbers σ (Tree.leadTo t parent onPath) (Tree.leadTo u (σ parent) (σ onPath)) := by
  have hreopened : Renumbers σ
      (if (t.status parent).isFinished then t.setStatus parent .notEntered else t)
      (if (t.status parent).isFinished then u.setStatus (σ parent) .notEntered else u) := by
    split
    · exact h.setStatus parent .notEntered
    · exact h
  rw [Tree.leadTo, Tree.leadTo, h.status_eq, h.kind_eq, h.children_eq, List.takeWhile_map,
    List.dropWhile_map, h.bne_comp, ← List.map_drop]
  exact (hreopened.setStatuses _ _).foldl_resetFrom _

theorem leadAlong (path : List NodeIdx) :
    Renumbers σ (Tree.leadAlong t path) (Tree.leadAlong u (path.map σ)) := by
  induction path generalizing t u with
  | nil => exact h
  | cons parent rest ih =>
      cases rest with
      | nil => exact h
      | cons onPath rest => exact ih (h.leadTo parent onPath)

end Edits

end Renumbers

end Arena

namespace Tree

open Arena

/-! ### Trees -/

/-- The second tree is the first one in other rows. -/
structure Renumbers (σ : NodeIdx → NodeIdx) (t u : Tree) : Prop where
  arena : t.arena.Renumbers σ u.arena
  root : u.root = σ t.root
  current : u.current = σ t.current
  jumped : u.jumped = t.jumped

/-- Either both results are refusals for the same reason, or both are there, and related. -/
inductive SameResult {α : Type} (R : α → α → Prop) :
    Except TreeError α → Except TreeError α → Prop
  | refused (fault : TreeError) : SameResult R (.error fault) (.error fault)
  | done {x y : α} (h : R x y) : SameResult R (.ok x) (.ok y)

/-- What is made of related values may be related as well. -/
theorem SameResult.map {α β : Type} {R : α → α → Prop} {S : β → β → Prop} {f : α → β}
    {x y : Except TreeError α} (h : SameResult R x y) (hf : ∀ a b, R a b → S (f a) (f b)) :
    SameResult S (x.map f) (y.map f) := by
  cases h with
  | refused fault => exact .refused fault
  | done h => exact .done (hf _ _ h)

end Tree

/-- The two stretches of a walk are the same in other rows. -/
structure Walk.Renumbers {ε : Type} (σ : NodeIdx → NodeIdx) (v w : Walk ε) : Prop where
  tree : v.tree.Renumbers σ w.tree
  trace : w.trace = v.trace
  ending : w.ending = v.ending

/-- Earlier records that are the same change nothing. -/
theorem Walk.Renumbers.after {ε : Type} {σ : NodeIdx → NodeIdx} {v w : Walk ε}
    (h : v.Renumbers σ w) (earlier : Trace) : (v.after earlier).Renumbers σ (w.after earlier) :=
  ⟨h.tree, congrArg (earlier ++ ·) h.trace, h.ending⟩

namespace Tree.Renumbers

variable {σ : NodeIdx → NodeIdx} {t u : Tree} {w : World} {a : AgentId}

/-! ### Walks -/

section Walks

variable (h : t.Renumbers σ u) (i : NodeIdx)

include h

/-- The records of a node are the same. -/
theorem entryFor_eq (event : TraceEvent) : u.entryFor a (σ i) event = t.entryFor a i event := by
  rw [entryFor, entryFor, h.arena.id_eq, h.arena.kind_eq]

theorem setStatus (s : Status) : (t.setStatus i s).Renumbers σ (u.setStatus (σ i) s) where
  arena := h.arena.setStatus i s
  root := h.root
  current := h.current
  jumped := h.jumped

theorem enter : (t.enter a i).1.Renumbers σ (u.enter a (σ i)).1 ∧
    (u.enter a (σ i)).2 = (t.enter a i).2 := by
  rw [Tree.enter, Tree.enter, h.arena.status_eq, h.entryFor_eq]
  split
  · exact ⟨h.setStatus i .running, rfl⟩
  · exact ⟨h, rfl⟩

theorem finish (succeeded : Bool) :
    (t.finish a i succeeded).Renumbers σ (u.finish a (σ i) succeeded) where
  tree := h.setStatus i (.ofOutcome succeeded)
  trace := congrArg ([·]) (h.entryFor_eq i _)
  ending := rfl

/-- As many children have succeeded. -/
theorem successes_eq : u.successes (σ i) = t.successes i := by
  rw [successes, successes, h.arena.children_eq, List.countP_map]
  congr 1
  funext c
  rw [Function.comp_apply, h.arena.status_eq]

end Walks

/-- If the visits of children correspond, going through the children does. -/
theorem scan {visit : Tree → NodeIdx → Walk WalkEnd}
    (hvisit : ∀ {t u : Tree}, t.Renumbers σ u → ∀ i, (visit t i).Renumbers σ (visit u (σ i)))
    (h : t.Renumbers σ u) (stopsOn : Bool → Bool) (is : List NodeIdx) :
    (Tree.scan visit stopsOn t is).Renumbers σ (Tree.scan visit stopsOn u (is.map σ)) := by
  induction is generalizing t u with
  | nil => exact ⟨h, rfl, rfl⟩
  | cons i rest ih =>
      obtain ⟨htree, htrace, hending⟩ := hvisit h i
      rw [List.map_cons]
      cases hend : (visit t i).ending with
      | halted =>
          rw [scan_of_halted hend, scan_of_halted (hending.trans hend), htrace]
          exact ⟨htree, rfl, rfl⟩
      | finished ok =>
          cases hstops : stopsOn ok with
          | true =>
              rw [scan_of_stops hend hstops, scan_of_stops (hending.trans hend) hstops, htrace]
              exact ⟨htree, rfl, rfl⟩
          | false =>
              rw [scan_of_goesOn hend hstops, scan_of_goesOn (hending.trans hend) hstops, htrace]
              exact (ih htree).after _

/-- Composites are ended alike. -/
theorem conclude {v v' : Walk ScanEnd} (h : v.Renumbers σ v') (i : NodeIdx)
    (composite : Composite) :
    (Tree.conclude a i composite v).Renumbers σ (Tree.conclude a (σ i) composite v') := by
  obtain ⟨htree, htrace, hending⟩ := h
  by_cases hend : v.ending = .halted
  · rw [conclude_of_halted hend, conclude_of_halted (hending.trans hend), htrace]
    exact ⟨htree, rfl, rfl⟩
  · have hend' : v'.ending ≠ .halted := hending ▸ hend
    rw [conclude_of_not_halted hend, conclude_of_not_halted hend', hending, htrace,
      htree.successes_eq]
    exact (htree.finish i _).after _

/-- Walks come to the same nodes in the same order, and end alike. -/
theorem walk (h : t.Renumbers σ u) (depth : Nat) (i : NodeIdx) :
    (Tree.walk w a depth t i).Renumbers σ (Tree.walk w a depth u (σ i)) := by
  -- What a walk does at a node depends on its status and its kind, which do not show the row.
  induction depth generalizing t u i with
  | zero => exact ⟨h, rfl, rfl⟩
  | succ depth ih =>
      have hstatus := h.arena.status_eq i
      have hkind := h.arena.kind_eq i
      cases hout : (t.arena.status i).outcome? with
      | some succeeded =>
          rw [walk_of_finished hout, walk_of_finished (hstatus ▸ hout)]
          exact ⟨h, rfl, rfl⟩
      | none =>
          have hout' : (u.arena.status (σ i)).outcome? = none := hstatus ▸ hout
          cases hkind' : t.arena.kind i with
          | action action =>
              rw [walk_of_action hout hkind', walk_of_action hout' (hkind.trans hkind')]
              exact ⟨⟨h.arena, h.root, rfl, h.jumped⟩, rfl, rfl⟩
          | condition condition =>
              rw [walk_of_condition hout hkind', walk_of_condition hout' (hkind.trans hkind')]
              exact h.finish i _
          | composite composite =>
              obtain ⟨hentered, hentry⟩ := h.enter (a := a) i
              rw [walk_of_composite hout hkind', walk_of_composite hout' (hkind.trans hkind'),
                hentry, h.arena.children_eq]
              exact (conclude (scan (fun h i => ih h i) hentered _ _) i composite).after _

/-- So do the first walks of a turn. -/
theorem firstWalk (h : t.Renumbers σ u) :
    (t.firstWalk w a).Renumbers σ (u.firstWalk w a) := by
  rw [Tree.firstWalk, Tree.firstWalk, h.arena.size, h.root]
  exact h.walk _ _

/-- And all walks of a turn. -/
theorem walks (h : t.Renumbers σ u) : (t.walks w a).Renumbers σ (u.walks w a) := by
  obtain ⟨htree, htrace, hending⟩ := h.firstWalk (w := w) (a := a)
  rw [Tree.walks, Tree.walks, hending, htrace]
  split
  · exact ⟨htree, htrace, hending⟩
  · have hrestart : (t.firstWalk w a).tree.restart.Renumbers σ (u.firstWalk w a).tree.restart := by
      refine ⟨?_, htree.root, htree.current, htree.jumped⟩
      rw [restart, restart, htree.root]
      exact htree.arena.resetFrom _
    exact hrestart.firstWalk.after _

/-! ### Operations -/

section Operations

variable (h : t.Renumbers σ u)

include h

/-- The same action is under the resume pointer. -/
theorem pending?_eq : u.pending? = t.pending? := by
  rw [pending?, pending?, h.current, h.arena.kind_eq]

theorem currentId_eq : u.currentId = t.currentId := by
  rw [currentId, currentId, h.current, h.arena.id_eq]

/-- A turn leaves the same world and the same records, and the tree in other rows. -/
theorem tick (w : World) (a : AgentId) : (t.tick w a).tree.Renumbers σ (u.tick w a).tree ∧
    (u.tick w a).world = (t.tick w a).world ∧ (u.tick w a).trace = (t.tick w a).trace := by
  obtain ⟨htree, htrace, -⟩ := h.walks (w := w) (a := a)
  cases hpending : (t.walks w a).tree.pending? with
  | none =>
      rw [tick_of_not_pending hpending, tick_of_not_pending (htree.pending?_eq.trans hpending)]
      exact ⟨⟨htree.arena, htree.root, htree.current, rfl⟩, rfl, htrace⟩
  | some action =>
      rw [tick_of_pending hpending, tick_of_pending (htree.pending?_eq.trans hpending), htrace,
        htree.currentId_eq]
      have hended := htree.setStatus (t.walks w a).tree.current (.ofOutcome (action.perform w a).2)
      rw [← htree.current] at hended
      exact ⟨⟨hended.arena, hended.root, hended.current, rfl⟩, rfl, rfl⟩

theorem reset : t.reset.Renumbers σ u.reset where
  arena := by
    rw [Tree.reset, Tree.reset, h.root]
    exact h.arena.resetFrom _
  root := h.root
  current := h.root
  jumped := rfl

theorem climb_eq (fuel : Nat) (i : NodeIdx) (below : List NodeIdx) :
    u.climb fuel (σ i) (below.map σ) = (t.climb fuel i below).map σ := by
  induction fuel generalizing i below with
  | zero => rfl
  | succ fuel ih =>
      rw [climb, climb, h.arena.parent?_eq]
      cases t.arena.parent? i with
      | none => rfl
      | some parent => exact ih parent (i :: below)

theorem pathTo_eq (i : NodeIdx) : u.pathTo (σ i) = (t.pathTo i).map σ := by
  rw [pathTo, pathTo, h.arena.size, ← h.climb_eq]
  rfl

theorem require_eq (id : String) : u.require id = (t.require id).map σ := by
  rw [require, require, h.arena.lookup?]
  cases t.arena.lookup? id <;> rfl

/-- A jump is refused for the same reason, or it leaves the tree in other rows. -/
theorem jumpTo (id : String) : SameResult (Renumbers σ) (t.jumpTo id) (u.jumpTo id) := by
  rw [Tree.jumpTo, Tree.jumpTo, h.require_eq]
  cases t.require id with
  | error fault => exact .refused fault
  | ok target =>
      change SameResult _ (if target = t.root then .ok t.reset else .ok _)
        (if σ target = u.root then .ok u.reset else .ok _)
      by_cases hroot : target = t.root
      · have hroot' : σ target = u.root := by rw [hroot, h.root]
        rw [if_pos hroot, if_pos hroot']
        exact .done h.reset
      · have hroot' : ¬ σ target = u.root := by rwa [h.root, h.arena.injective.eq_iff]
        rw [if_neg hroot, if_neg hroot']
        refine .done ⟨?_, h.root, rfl, rfl⟩
        rw [h.pathTo_eq]
        exact (h.arena.leadAlong _).resetFrom target

omit h in
/-- A row is inserted in the same place. -/
theorem insertAfter_map (hσ : Function.Injective σ) (anchor new : NodeIdx) (is : List NodeIdx) :
    insertAfter (σ anchor) (σ new) (is.map σ) = (insertAfter anchor new is).map σ := by
  induction is with
  | nil => rfl
  | cons i rest ih =>
      rw [List.map_cons, insertAfter, insertAfter, ih]
      by_cases hi : i = anchor
      · rw [if_pos hi, if_pos (congrArg σ hi)]
        rfl
      · rw [if_neg hi, if_neg (hσ.ne hi)]
        rfl

/-- A new sibling is refused for the same reason, or it comes to the same place in the tree and
to the same row. -/
theorem addSibling (existing : String) (spec : NodeSpec) :
    SameResult (fun grown grown' => grown.1.Renumbers σ grown'.1 ∧ grown'.2 = grown.2)
      (t.addSibling existing spec) (u.addSibling existing spec) := by
  rw [Tree.addSibling, Tree.addSibling, h.require_eq]
  cases t.require existing with
  | error fault => exact .refused fault
  | ok anchor =>
      change SameResult _ (if t.arena.hasNode spec.id then .error _ else _)
        (if u.arena.hasNode spec.id then .error _ else _)
      rw [h.arena.hasNode_eq, h.arena.parent?_eq]
      split
      · exact .refused _
      · cases t.arena.parent? anchor with
        | none => exact .refused _
        | some parent =>
            refine .done ⟨⟨?_, h.root, h.current, h.jumped⟩, h.arena.size⟩
            refine (h.arena.push (Node.ofSpec spec (some parent))).modify parent fun n => ?_
            rw [Node.renumber, Node.renumber, ← h.arena.next_row,
              insertAfter_map h.arena.injective]

/-- Every operation leaves the tree in other rows. -/
theorem after (op : Operation) : (t.after op).Renumbers σ (u.after op) := by
  have hresult : SameResult (Renumbers σ) (op.run t) (op.run u) := by
    cases op with
    | tick w a => exact .done (h.tick w a).1
    | jumpTo target => exact h.jumpTo target
    | reset => exact .done h.reset
    | addSibling existing spec =>
        exact (h.addSibling existing spec).map fun _ _ hgrown => hgrown.1
  rw [Tree.after, Tree.after]
  generalize op.run t = x, op.run u = y at hresult
  cases hresult with
  | refused _ => exact h
  | done h' => exact h'

end Operations

end Tree.Renumbers

end Ladybug
