import Ladybug.Proofs.Building

/-!
# Loops over a stack

What lies below a node is gone through by a loop over a stack: the topmost node is taken off, its
children are put on, and so on until the stack is empty. The loop does not remember where it has
been, and nothing in it bounds how often it turns. Below a node without a parent it ends all the
same, in every table that can be built: each node that waits on the stack has a tree of its own
below it, and with every turn there is one node less in these trees.

The loop that writes down the order of a tree puts the first child on top; those that mark what
is reached and that reset a tree put the last child on top. They take the same nodes.

## Main definitions

* `Arena.Pops` — the loop comes to an end, and this is the order in which it takes nodes.
* `Arena.Surveys` — what is told as out of reach.
* `Tree.Traversed` — what the order and a reset of a tree come to.

## Main results

* `Arena.Wired.exists_pops` — the loop ends.
* `Arena.Pops.eq_flatMap` — with the first child on top, the order is that of the recursion.
* `Arena.Built.loops_end` — all loops in all tables that are built.
-/

namespace Ladybug

namespace Arena

/-- The loop over a stack comes to an end, having taken nodes in this order. The topmost node is
taken off, and its children are put on top as they are arranged. -/
inductive Pops (t : Arena) (arrange : List NodeIdx → List NodeIdx) :
    List NodeIdx → List NodeIdx → Prop
  | done : t.Pops arrange [] []
  | pop {i : NodeIdx} {stack order : List NodeIdx}
      (h : t.Pops arrange (arrange (t.children i) ++ stack) order) :
      t.Pops arrange (i :: stack) (i :: order)

/-- Tables of one shape with the same statuses are the same. -/
theorem eq_of_shape {t u : Arena} (hshape : u.shape = t.shape)
    (hstatus : ∀ i, u.status i = t.status i) : u = t := by
  have hindex : u.shape.index = t.shape.index := congrArg index hshape
  refine ext_node (size_of_shape hshape) hindex fun i _ => ?_
  have hnode (t : Arena) : t.node i = { t.shape.node i with status := t.status i } := by
    rw [node_shape, status]
  rw [hnode u, hnode t, hshape, hstatus i]

variable {t u : Arena} {root : NodeIdx} {arrange : List NodeIdx → List NodeIdx}
  {stack order : List NodeIdx}

/-- The loop depends on the children only. -/
theorem Pops.of_shape (h : t.Pops arrange stack order) (hshape : u.shape = t.shape) :
    u.Pops arrange stack order := by
  induction h with
  | done => exact .done
  | @pop i stack order _ ih => exact .pop (children_of_shape hshape i ▸ ih)

namespace Wired

variable (h : t.Wired) (hring : t.Ringless root) (hlt : root < t.size)

include h hring hlt

/-- A node below the root stands before the trees of its children. -/
theorem preorderFrom_below {i : NodeIdx} (hi : t.Climbs i root) :
    t.preorderFrom i = i :: (t.children i).flatMap t.preorderFrom :=
  h.preorderFrom_eq (hring.of_climbs hi) (lt_size_of_climbs hlt hi)

omit hring hlt in
/-- With the children of its topmost node, a stack still holds what is below the root. -/
theorem climbs_arranged (harrange : ∀ is, (arrange is).Perm is) {i : NodeIdx}
    (hstack : ∀ j ∈ i :: stack, t.Climbs j root) :
    ∀ j ∈ arrange (t.children i) ++ stack, t.Climbs j root := by
  obtain ⟨hi, hrest⟩ := List.forall_mem_cons.mp hstack
  refine List.forall_mem_append.mpr ⟨fun j hj => ?_, hrest⟩
  exact hi.head ((h.parent?_iff i j).mpr ((harrange _).mem_iff.mp hj))

/-- **The loop ends**, and it takes every node of the trees that wait on the stack once. -/
theorem exists_pops (harrange : ∀ is, (arrange is).Perm is)
    (hstack : ∀ i ∈ stack, t.Climbs i root) :
    ∃ order, t.Pops arrange stack order ∧ order.Perm (stack.flatMap t.preorderFrom) := by
  -- With every turn one node less is left in the trees on the stack.
  generalize hleft : (stack.flatMap t.preorderFrom).length = left
  induction left generalizing stack with
  | zero =>
      cases stack with
      | nil => exact ⟨[], .done, .refl _⟩
      | cons i stack =>
          obtain ⟨hi, -⟩ := List.forall_mem_cons.mp hstack
          rw [List.flatMap_cons, h.preorderFrom_below hring hlt hi] at hleft
          cases hleft
  | succ left ih =>
      cases stack with
      | nil => cases hleft
      | cons i stack =>
          obtain ⟨hi, -⟩ := List.forall_mem_cons.mp hstack
          have hnext : ((arrange (t.children i) ++ stack).flatMap t.preorderFrom).Perm
              ((t.children i).flatMap t.preorderFrom ++ stack.flatMap t.preorderFrom) := by
            rw [List.flatMap_append]
            exact ((harrange _).flatMap_right _).append_right _
          rw [List.flatMap_cons, h.preorderFrom_below hring hlt hi, List.cons_append,
            List.length_cons] at hleft
          obtain ⟨order, hpops, hperm⟩ := ih (h.climbs_arranged harrange hstack)
            (hnext.length_eq.trans (Nat.succ.inj hleft))
          refine ⟨i :: order, .pop hpops, ?_⟩
          rw [List.flatMap_cons, h.preorderFrom_below hring hlt hi, List.cons_append]
          exact (hperm.trans hnext).cons i

end Wired

/-- **With the first child on top, the order is that of the recursion.** -/
theorem Pops.eq_flatMap (hpops : t.Pops (fun cs => cs) stack order) (h : t.Wired)
    (hring : t.Ringless root) (hlt : root < t.size) (hstack : ∀ i ∈ stack, t.Climbs i root) :
    order = stack.flatMap t.preorderFrom := by
  induction hpops with
  | done => rfl
  | @pop i stack order hpops ih =>
      obtain ⟨hi, -⟩ := List.forall_mem_cons.mp hstack
      rw [ih (h.climbs_arranged (fun _ => .refl _) hstack), List.flatMap_append,
        List.flatMap_cons, h.preorderFrom_below hring hlt hi, List.cons_append]

/-- The names told as out of reach of a node are those of the rows that it does not reach, in the
order of the table. They are found by a loop that ends. -/
structure Surveys (t : Arena) (root : NodeIdx) : Prop where
  ends : ∃ order, t.Pops List.reverse [root] order ∧ ∀ i, i ∈ order ↔ t.Reaches root i
  unreachableFrom_eq : ∃ missed : List Nat, missed.Pairwise (· < ·) ∧
    (∀ i, i ∈ missed ↔ i < t.size ∧ ¬ t.Reaches root i) ∧
    t.unreachableFrom root = missed.map t.id

section Root

variable (h : t.Wired) (hring : t.Ringless root) (hlt : root < t.size)

include h hring hlt

/-- The loop that marks what is reached ends, and it takes what the order of the table has. -/
theorem Wired.exists_pops_root (harrange : ∀ is, (arrange is).Perm is) :
    ∃ order, t.Pops arrange [root] order ∧ order.Perm (t.preorderFrom root) := by
  obtain ⟨order, hpops, hperm⟩ := h.exists_pops hring hlt harrange
    (List.forall_mem_singleton.mpr (.refl (a := root)))
  rw [List.flatMap_singleton] at hperm
  exact ⟨order, hpops, hperm⟩

/-- What a reset makes of the statuses. -/
theorem Wired.status_resetFrom (i : NodeIdx) :
    (t.resetFrom root).status i = if i ∈ t.preorderFrom root then .notEntered else t.status i :=
  status_setStatuses (fun _ hj => lt_size_of_climbs hlt ((h.mem_preorderFrom_iff hring hlt).mp hj))
    .notEntered i

/-- The order in which the nodes of a reset are taken does not matter. -/
theorem Wired.resetFrom_eq {order : List NodeIdx} (hperm : order.Perm (t.preorderFrom root)) :
    t.resetFrom root = t.setStatuses order .notEntered := by
  refine eq_of_shape ((shape_resetFrom t root).trans (shape_setStatuses ..).symm) fun i => ?_
  have hrows : ∀ j ∈ order, j < t.size := fun j hj =>
    lt_size_of_climbs hlt ((h.mem_preorderFrom_iff hring hlt).mp (hperm.mem_iff.mp hj))
  rw [h.status_resetFrom hring hlt, status_setStatuses hrows]
  simp only [hperm.mem_iff]

/-- **What is out of reach of a node without rings below it is told exactly.** -/
theorem Wired.surveys : t.Surveys root where
  ends := by
    obtain ⟨order, hpops, hperm⟩ := h.exists_pops_root hring hlt List.reverse_perm
    refine ⟨order, hpops, fun i => ?_⟩
    rw [hperm.mem_iff, h.mem_preorderFrom_iff hring hlt, h.reaches_iff]
  unreachableFrom_eq := h.exists_missed hring hlt

end Root

end Arena

/-- The order of a tree and its reset come to an end. The order is the recursive one and has
every node that the root reaches once; the reset forgets the progress of these nodes and nothing
else. -/
structure Tree.Traversed (t : Tree) : Prop where
  preorder_ends : t.arena.Pops (fun cs => cs) [t.root] t.preorder
  /-- A node comes first, and then the orders of its children from left to right. -/
  recursive : ∀ i, t.arena.Reaches t.root i →
    t.arena.preorderFrom i = i :: (t.arena.children i).flatMap t.arena.preorderFrom
  nodup : t.preorder.Nodup
  mem_iff : ∀ i, i ∈ t.preorder ↔ t.arena.Reaches t.root i
  reset_ends : ∃ order, t.arena.Pops List.reverse [t.root] order ∧
    t.reset.arena = t.arena.setStatuses order .notEntered
  status_reset : ∀ i, t.arena.Reaches t.root i → t.reset.arena.status i = .notEntered
  status_detached : ∀ i, ¬ t.arena.Reaches t.root i →
    t.reset.arena.status i = t.arena.status i
  shape_reset : t.reset.arena.shape = t.arena.shape

/-- **A tree without rings is gone through exactly**, whatever the statuses of its nodes. -/
theorem Tree.traversed {t : Tree} (h : t.arena.Wired) (hring : t.arena.Ringless t.root)
    (hlt : t.root < t.arena.size) : t.Traversed where
  preorder_ends := by
    obtain ⟨order, hpops, -⟩ := h.exists_pops_root hring hlt fun is => .refl is
    have horder := hpops.eq_flatMap h hring hlt (List.forall_mem_singleton.mpr .refl)
    rw [List.flatMap_singleton] at horder
    rwa [horder] at hpops
  recursive i hi := h.preorderFrom_below hring hlt (h.reaches_iff.mp hi)
  nodup := h.nodup_preorderFrom hring hlt
  mem_iff i := (h.mem_preorderFrom_iff hring hlt).trans h.reaches_iff.symm
  reset_ends := by
    obtain ⟨order, hpops, hperm⟩ := h.exists_pops_root hring hlt List.reverse_perm
    exact ⟨order, hpops, h.resetFrom_eq hring hlt hperm⟩
  status_reset i hi := by
    have hmem := (h.mem_preorderFrom_iff hring hlt).mpr (h.reaches_iff.mp hi)
    exact (h.status_resetFrom hring hlt i).trans (if_pos hmem)
  status_detached i hi := by
    have hmem : i ∉ t.arena.preorderFrom t.root := fun hmem =>
      hi (h.reaches_iff.mpr ((h.mem_preorderFrom_iff hring hlt).mp hmem))
    exact (h.status_resetFrom hring hlt i).trans (if_neg hmem)
  shape_reset := Arena.shape_resetFrom ..

namespace Arena

/-- **In every table that is built, loops over a stack end** when they begin at a node without a
parent, and they come to exactly what lies below that node. A step that is refused leaves the
table as it was, and the links and the index of the table are in order. -/
theorem Built.loops_end {t : Arena} (h : t.Built) :
    (∀ (s : BuildStep) (error : TreeError) (u : Arena), s.program t = .error error u → u = t) ∧
      t.Wired ∧
      ∀ root < t.size, t.parent? root = none → t.Surveys root ∧
        ∀ u : Tree, u.arena.shape = t.shape → u.root = root → u.Traversed := by
  have hwired := h.wired
  refine ⟨fun s error u hrun => ?_, hwired, fun root hlt hroot => ?_⟩
  · rw [BuildStep.program_eq] at hrun
    split at hrun
    · cases hrun
    · cases hrun
      rfl
  · have hring := hwired.ringless_of_root hroot
    refine ⟨hwired.surveys hring hlt, fun u hshape hu => ?_⟩
    subst hu
    have hparent : u.arena.parent? u.root = none := by rw [parent?_of_shape hshape, hroot]
    have hwired' := hwired.of_shape hshape
    exact Tree.traversed hwired' (hwired'.ringless_of_root hparent) (size_of_shape hshape ▸ hlt)

/-- Two sequences that are below each other are out of reach of the root, and one of them has
failed. -/
theorem loops_end_beside_ring :
    let t := empty.filled [.node ⟨"R", .composite .fallback⟩, .node ⟨"A", .composite .sequence⟩,
      .node ⟨"B", .composite .sequence⟩, .node ⟨"M", .action .move⟩, .child 1 2, .child 2 1,
      .child 3 0, .node ⟨"A", .action .move⟩, .child 0 3]
    t.Built ∧ 0 < t.size ∧ t.parent? 0 = none ∧ t.unreachableFrom 0 = ["A", "B"] ∧
      t.Surveys 0 ∧ (Tree.mk (t.setStatuses [0, 1, 3] .failure) 0 1 true).Traversed := by
  intro t
  have hbuilt : t.Built := ⟨_, by decide +kernel, rfl⟩
  have hlt : 0 < t.size := by decide +kernel
  have hroot : t.parent? 0 = none := by decide +kernel
  obtain ⟨hsurveys, htrees⟩ := (Built.loops_end hbuilt).2.2 0 hlt hroot
  exact ⟨hbuilt, hlt, hroot, by decide +kernel, hsurveys, htrees _ (shape_setStatuses ..) rfl⟩

end Arena

end Ladybug
