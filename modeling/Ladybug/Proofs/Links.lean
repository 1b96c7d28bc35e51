import Ladybug.Behavior.Tree
import Ladybug.Proofs.Forest

/-!
# Edits of linked tables

Two kinds of edits are made on the table of a tree. Most only change statuses, and what a
table is apart from its statuses is its `Arena.shape`: two tables of one shape agree on
everything else. The others let a new leaf sprout below a composite. The reader of
flowcharts does that in two steps, adding a node and linking it, and a new sibling is
linked where it is added, but both come to `Arena.sprout`.

## Main definitions

* `Arena.shape` — a table with all statuses forgotten.
* `Arena.sprout` — a table with a new leaf below a node.

## Main results

* `Arena.Linked.of_shape` — being linked depends only on the shape.
* `Arena.shape_resetFrom`, `Tree.shape_leadAlong` — resets and jumps keep the shape.
* `Arena.Linked.push` and `Arena.Linked.sprout` — growth keeps a table linked.
-/

namespace Ladybug

/-- Steps that may fail succeed one after the other. -/
theorem exists_ok_of_bind {ε α β : Type} {x : Except ε α} {f : α → Except ε β} {b : β}
    (h : x >>= f = .ok b) : ∃ a, x = .ok a ∧ f a = .ok b := by
  cases x with
  | error e => cases h
  | ok a => exact ⟨a, rfl, h⟩

/-- Or they fail one after the other. -/
theorem exists_error_of_bind {ε α β : Type} {x : Except ε α} {f : α → Except ε β} {error : ε}
    (h : x >>= f = .error error) : x = .error error ∨ ∃ a, x = .ok a ∧ f a = .error error := by
  cases x with
  | error e => exact .inl (congrArg Except.error (Except.error.inj h))
  | ok a => exact .inr ⟨a, rfl, h⟩

namespace Arena

/-! ### Shapes -/

/-- The table with every status forgotten. -/
def shape (t : Arena) : Arena :=
  { t with nodes := t.nodes.map fun n => { n with status := .notEntered } }

@[simp] theorem size_shape (t : Arena) : t.shape.size = t.size := by
  simp [shape, size]

@[simp] theorem lookup?_shape (t : Arena) (id : String) : t.shape.lookup? id = t.lookup? id :=
  rfl

theorem node_shape (t : Arena) (i : NodeIdx) :
    t.shape.node i = { t.node i with status := .notEntered } := by
  rw [node, shape, Array.getElem?_map, node]
  cases t.nodes[i]? <;> rfl

@[simp] theorem id_shape (t : Arena) (i : NodeIdx) : t.shape.id i = t.id i := by
  rw [id, node_shape, id]

@[simp] theorem kind_shape (t : Arena) (i : NodeIdx) : t.shape.kind i = t.kind i := by
  rw [kind, node_shape, kind]

@[simp] theorem parent?_shape (t : Arena) (i : NodeIdx) : t.shape.parent? i = t.parent? i := by
  rw [parent?, node_shape, parent?]

@[simp] theorem children_shape (t : Arena) (i : NodeIdx) :
    t.shape.children i = t.children i := by
  rw [children, node_shape, children]

/-- Two tables are equal if their rows and their indices are. -/
theorem ext_node {t u : Arena} (hsize : t.size = u.size) (hindex : t.index = u.index)
    (hnode : ∀ i < t.size, t.node i = u.node i) : t = u := by
  cases t with
  | mk nodes index =>
      cases u with
      | mk nodes' index' =>
          obtain rfl : index = index' := hindex
          congr 1
          refine Array.ext hsize fun i hi hi' => ?_
          have hrow := hnode i hi
          simp only [node, Array.getElem?_eq_getElem hi, Array.getElem?_eq_getElem hi',
            Option.getD_some] at hrow
          exact hrow

@[simp] theorem shape_setStatus (t : Arena) (i : NodeIdx) (s : Status) :
    (t.setStatus i s).shape = t.shape := by
  refine ext_node (by simp) rfl fun j _ => ?_
  rw [node_shape, node_shape, node_setStatus]

@[simp] theorem shape_setStatuses (t : Arena) (is : List NodeIdx) (s : Status) :
    (t.setStatuses is s).shape = t.shape := by
  induction is generalizing t with
  | nil => rfl
  | cons i is ih => exact (ih (t.setStatus i s)).trans (shape_setStatus t i s)

@[simp] theorem shape_resetFrom (t : Arena) (i : NodeIdx) : (t.resetFrom i).shape = t.shape :=
  shape_setStatuses ..

section SameShape

variable {t u : Arena} (h : u.shape = t.shape)

include h

theorem size_of_shape : u.size = t.size := by
  rw [← size_shape, h, size_shape]

theorem lookup?_of_shape (id : String) : u.lookup? id = t.lookup? id := by
  rw [← lookup?_shape, h, lookup?_shape]

theorem id_of_shape (i : NodeIdx) : u.id i = t.id i := by
  rw [← id_shape, h, id_shape]

theorem kind_of_shape (i : NodeIdx) : u.kind i = t.kind i := by
  rw [← kind_shape, h, kind_shape]

theorem parent?_of_shape (i : NodeIdx) : u.parent? i = t.parent? i := by
  rw [← parent?_shape, h, parent?_shape]

theorem children_of_shape (i : NodeIdx) : u.children i = t.children i := by
  rw [← children_shape, h, children_shape]

theorem visit_of_shape (fuel : Nat) (stack : List NodeIdx) :
    u.visit fuel stack = t.visit fuel stack := by
  induction fuel generalizing stack with
  | zero => rfl
  | succ fuel ih =>
      cases stack with
      | nil => rfl
      | cons i stack => rw [visit, visit, children_of_shape h, ih]

/-- Tables of one shape have the same nodes below a node, in the same order. -/
theorem preorderFrom_of_shape (i : NodeIdx) : u.preorderFrom i = t.preorderFrom i := by
  rw [preorderFrom, size_of_shape h, visit_of_shape h, preorderFrom]

/-- The same forests grow in tables of one shape. -/
theorem Grows.of_shape {f : Forest} (hf : t.Grows f) : u.Grows f :=
  hf.congr (children_of_shape h)

/-- Being wired depends only on the shape. -/
theorem Wired.of_shape (ht : t.Wired) : u.Wired where
  parent?_iff i j := by
    rw [parent?_of_shape h, children_of_shape h]
    exact ht.parent?_iff i j
  nodup i := children_of_shape h i ▸ ht.nodup i
  composite i hi := by
    rw [kind_of_shape h]
    exact ht.composite i (children_of_shape h i ▸ hi)
  lookup?_iff id i := by
    rw [lookup?_of_shape h, size_of_shape h, id_of_shape h]
    exact ht.lookup?_iff id i

/-- Being linked depends only on the shape. -/
theorem Linked.of_shape (ht : t.Linked) : u.Linked where
  toWired := ht.toWired.of_shape h
  lt i j hj := ht.lt i j (children_of_shape h i ▸ hj)

end SameShape

/-! ### Statuses after several edits -/

/-- Every status is the old one or the new one. -/
theorem status_setStatus_eq (t : Arena) (i : NodeIdx) (s : Status) (j : NodeIdx) :
    (t.setStatus i s).status j = s ∨ (t.setStatus i s).status j = t.status j := by
  rw [status, setStatus, node_modify]
  split
  · exact .inl rfl
  · exact .inr rfl

/-- Nodes that are not named keep their status. -/
theorem status_setStatus_of_ne (t : Arena) {i j : NodeIdx} (h : j ≠ i) (s : Status) :
    (t.setStatus i s).status j = t.status j := by
  rw [status, setStatus, node_modify, if_neg fun hj => h hj.1, status]

/-- Every status is the old one or the new one. -/
theorem status_setStatuses_eq (t : Arena) (is : List NodeIdx) (s : Status) (j : NodeIdx) :
    (t.setStatuses is s).status j = s ∨ (t.setStatuses is s).status j = t.status j := by
  induction is generalizing t with
  | nil => exact .inr rfl
  | cons i is ih =>
      rcases ih (t.setStatus i s) with hs | hs
      · exact .inl hs
      · rcases status_setStatus_eq t i s j with h | h
        · exact .inl (hs.trans h)
        · exact .inr (hs.trans h)

/-- A reset starts nothing running. -/
theorem running_resetFrom {t : Arena} {i j : NodeIdx}
    (h : (t.resetFrom i).status j = .running) : t.status j = .running := by
  rcases status_setStatuses_eq t (t.preorderFrom i) .notEntered j with hs | hs
  · exact nomatch hs.symm.trans h
  · exact hs.symm.trans h

/-- Nodes that are not named keep their status. -/
theorem status_setStatuses_of_not_mem (t : Arena) {is : List NodeIdx} {j : NodeIdx} (h : j ∉ is)
    (s : Status) : (t.setStatuses is s).status j = t.status j := by
  induction is generalizing t with
  | nil => rfl
  | cons i is ih =>
      obtain ⟨hi, his⟩ := List.ne_and_not_mem_of_not_mem_cons h
      exact (ih (t.setStatus i s) his).trans (status_setStatus_of_ne t hi s)

/-- The named rows get the new status, and the others keep theirs. -/
theorem status_setStatuses {t : Arena} {is : List NodeIdx} (h : ∀ i ∈ is, i < t.size)
    (s : Status) (j : NodeIdx) :
    (t.setStatuses is s).status j = if j ∈ is then s else t.status j := by
  induction is generalizing t with
  | nil => simp [setStatuses]
  | cons i is ih =>
      have hi : i < t.size := h i List.mem_cons_self
      have hstep := ih (t := t.setStatus i s) fun k hk => by
        rw [size_setStatus]
        exact h k (List.mem_cons_of_mem i hk)
      rw [setStatuses, List.foldl_cons, ← setStatuses, hstep, status_setStatus hi]
      by_cases hj : j ∈ is
      · rw [if_pos hj, if_pos (List.mem_cons_of_mem i hj)]
      · by_cases hji : j = i <;> simp [hj, hji]

/-! ### Growth -/

/-- The table with a new leaf below a node, whose children are given with the new one among
them. -/
def sprout (t : Arena) (spec : NodeSpec) (parent : NodeIdx) (siblings : List NodeIdx) : Arena :=
  (t.push (Node.ofSpec spec (some parent))).modify parent fun n => { n with children := siblings }

@[simp] theorem size_sprout (t : Arena) (spec : NodeSpec) (p : NodeIdx) (siblings : List NodeIdx) :
    (t.sprout spec p siblings).size = t.size + 1 := by
  rw [sprout, size_modify, size_push]

/-- The new leaf takes the next row, and its parent gets the given children. -/
theorem node_sprout {t : Arena} {p : NodeIdx} (hp : p < t.size) (spec : NodeSpec)
    (siblings : List NodeIdx) (i : NodeIdx) :
    (t.sprout spec p siblings).node i =
      if i = t.size then Node.ofSpec spec (some p)
      else if i = p then { t.node p with children := siblings } else t.node i := by
  have hne : p ≠ t.size := Nat.ne_of_lt hp
  rw [sprout, node_modify, size_push, node_push, node_push, if_neg hne]
  by_cases hi : i = p
  · subst hi
    rw [if_pos ⟨rfl, Nat.lt_succ_of_lt hp⟩, if_neg hne, if_pos rfl]
  · rw [if_neg fun h => hi h.1, if_neg hi]

section Sprout

variable {t : Arena} {p : NodeIdx} (hp : p < t.size) (spec : NodeSpec) (siblings : List NodeIdx)
  (i : NodeIdx)

include hp

theorem id_sprout :
    (t.sprout spec p siblings).id i = if i = t.size then spec.id else t.id i := by
  rw [id, node_sprout hp, id]
  split
  · rfl
  · split
    · next hi => rw [hi]
    · rfl

theorem kind_sprout :
    (t.sprout spec p siblings).kind i = if i = t.size then spec.kind else t.kind i := by
  rw [kind, node_sprout hp, kind]
  split
  · rfl
  · split
    · next hi => rw [hi]
    · rfl

theorem parent?_sprout :
    (t.sprout spec p siblings).parent? i = if i = t.size then some p else t.parent? i := by
  rw [parent?, node_sprout hp, parent?]
  split
  · rfl
  · split
    · next hi => rw [hi]
    · rfl

theorem children_sprout :
    (t.sprout spec p siblings).children i = if i = p then siblings else t.children i := by
  rw [children, node_sprout hp, children]
  split
  · next hi =>
      rw [if_neg (hi ▸ Nat.ne_of_gt hp), hi, node_of_size_le (Nat.le_refl t.size)]
      rfl
  · split <;> rfl

/-- A new leaf has not been entered, like the missing row before it. -/
theorem status_sprout : (t.sprout spec p siblings).status i = t.status i := by
  rw [status, node_sprout hp, status]
  split
  · next hi =>
      rw [hi, node_of_size_le (Nat.le_refl t.size)]
      rfl
  · split
    · next hi => rw [hi]
    · rfl

end Sprout

/-- Adding a node and then linking it as the last child lets a leaf sprout. -/
theorem addChild_push {t : Arena} {p : NodeIdx} (hp : p < t.size)
    (hkind : (t.kind p).isComposite) (spec : NodeSpec) :
    (t.push (Node.ofSpec spec none)).addChild p t.size =
      .ok (t.sprout spec p (t.children p ++ [t.size])) := by
  have hne : p ≠ t.size := Nat.ne_of_lt hp
  have hpush : (t.push (Node.ofSpec spec none)).kind p = t.kind p := by
    rw [kind, node_push, if_neg hne, kind]
  rw [addChild, hpush, if_pos hkind]
  congr 1
  refine ext_node (by simp) rfl fun i _ => ?_
  rw [node_sprout hp, node_modify, node_modify, node_modify, size_modify, size_push,
    node_push, node_push, node_push]
  by_cases hi : i = t.size
  · subst hi
    simp [Ne.symm hne, Node.ofSpec]
  · by_cases hip : i = p
    · subst hip
      simp [hi, Nat.lt_succ_of_lt hp, children]
    · simp [hi, hip]

@[simp] theorem lookup?_sprout (t : Arena) (spec : NodeSpec) (p : NodeIdx)
    (siblings : List NodeIdx) (id : String) :
    (t.sprout spec p siblings).lookup? id = if id = spec.id then some t.size else t.lookup? id := by
  rw [sprout, lookup?_modify, lookup?_push]
  rfl

/-- A name that is not in the table is not in the index. -/
theorem lookup?_eq_none {t : Arena} {id : String} (hid : t.hasNode id = false) :
    t.lookup? id = none := by
  rwa [hasNode, Option.isSome_eq_false_iff, Option.isNone_iff_eq_none] at hid

/-- A new node without links has no effect on the links of a table. -/
theorem parent?_push (t : Arena) (spec : NodeSpec) (i : NodeIdx) :
    (t.push (Node.ofSpec spec none)).parent? i = t.parent? i := by
  rw [parent?, parent?, node_push]
  split
  · next hi =>
      rw [hi, node_of_size_le (Nat.le_refl t.size)]
      rfl
  · rfl

theorem children_push (t : Arena) (spec : NodeSpec) (i : NodeIdx) :
    (t.push (Node.ofSpec spec none)).children i = t.children i := by
  rw [children, children, node_push]
  split
  · next hi =>
      rw [hi, node_of_size_le (Nat.le_refl t.size)]
      rfl
  · rfl

section Wired

variable {t : Arena} (h : t.Wired)

include h

/-- If a new name enters the index with the next row, the index stays in order. -/
theorem Wired.lookup?_grow {u : Arena} {name : String} (hname : t.hasNode name = false)
    (hsize : u.size = t.size + 1)
    (hlookup : ∀ id, u.lookup? id = if id = name then some t.size else t.lookup? id)
    (hold : ∀ i < t.size, u.id i = t.id i) (hnew : u.id t.size = name) (id : String)
    (i : NodeIdx) : u.lookup? id = some i ↔ i < u.size ∧ u.id i = id := by
  have hnone := lookup?_eq_none hname
  rw [hlookup, hsize]
  by_cases hid : id = name
  · subst hid
    rw [if_pos rfl, Option.some.injEq]
    constructor
    · rintro rfl
      exact ⟨Nat.lt_succ_self _, hnew⟩
    · rintro ⟨hi, hi'⟩
      rcases Nat.lt_succ_iff_lt_or_eq.mp hi with hlt | heq
      · rw [hold i hlt] at hi'
        rw [(h.lookup?_iff id i).mpr ⟨hlt, hi'⟩] at hnone
        cases hnone
      · exact heq.symm
  · rw [if_neg hid, h.lookup?_iff]
    constructor
    · rintro ⟨hi, hi'⟩
      exact ⟨Nat.lt_succ_of_lt hi, (hold i hi).trans hi'⟩
    · rintro ⟨hi, hi'⟩
      rcases Nat.lt_succ_iff_lt_or_eq.mp hi with hlt | rfl
      · exact ⟨hlt, (hold i hlt).symm.trans hi'⟩
      · exact absurd (hi'.symm.trans hnew) hid

/-- A new node without links keeps a table wired. -/
theorem Wired.push {spec : NodeSpec} (hid : t.hasNode spec.id = false) :
    (t.push (Node.ofSpec spec none)).Wired := by
  have hold : ∀ i < t.size, (t.push (Node.ofSpec spec none)).node i = t.node i := by
    intro i hi
    rw [node_push, if_neg (Nat.ne_of_lt hi)]
  exact
    { parent?_iff := fun i j => by rw [parent?_push, children_push]; exact h.parent?_iff i j
      nodup := fun i => by rw [children_push]; exact h.nodup i
      composite := fun i hi => by
        rw [children_push] at hi
        obtain ⟨j, hj⟩ := List.exists_mem_of_ne_nil _ hi
        rw [kind, hold i (lt_size_of_mem_children hj)]
        exact h.composite i hi
      lookup?_iff := h.lookup?_grow hid (size_push ..) (lookup?_push t _)
        (fun i hi => by rw [id, hold i hi, id]) (by rw [id, node_push, if_pos rfl]; rfl) }

end Wired

section Linked

variable {t : Arena} (h : t.Linked)

include h

/-- A new node without links keeps a table linked. -/
theorem Linked.push {spec : NodeSpec} (hid : t.hasNode spec.id = false) :
    (t.push (Node.ofSpec spec none)).Linked where
  toWired := h.toWired.push hid
  lt i j hj := h.lt i j (children_push t spec i ▸ hj)

/-- A new leaf below a composite keeps a table linked, wherever it stands among its
siblings. -/
theorem Linked.sprout {spec : NodeSpec} {p : NodeIdx} {siblings : List NodeIdx}
    (hid : t.hasNode spec.id = false) (hp : p < t.size) (hkind : (t.kind p).isComposite)
    (hsiblings : siblings.Perm (t.size :: t.children p)) :
    (t.sprout spec p siblings).Linked := by
  have hfresh : ∀ i, t.size ∉ t.children i := fun i hi =>
    Nat.lt_irrefl _ (h.child_lt_size hi)
  have hmem : ∀ i j, j ∈ (t.sprout spec p siblings).children i ↔
      j ∈ t.children i ∨ (i = p ∧ j = t.size) := by
    intro i j
    rw [children_sprout hp]
    split
    · next hi => rw [hsiblings.mem_iff, List.mem_cons, hi]; simp [or_comm]
    · next hi => simp [hi]
  exact
    { parent?_iff := by
        intro i j
        rw [hmem, ← h.parent?_iff, parent?_sprout hp]
        split
        · next hj =>
            rw [hj, parent?, node_of_size_le (Nat.le_refl t.size)]
            constructor
            · intro hi
              exact .inr ⟨(Option.some.inj hi).symm, rfl⟩
            · rintro (hnone | ⟨rfl, -⟩)
              · cases hnone
              · rfl
        · next hj => simp [hj]
      nodup := by
        intro i
        rw [children_sprout hp]
        split
        · exact hsiblings.nodup_iff.mpr (List.nodup_cons.mpr ⟨hfresh p, h.nodup p⟩)
        · exact h.nodup i
      lt := by
        intro i j hj
        rcases (hmem i j).mp hj with hj | ⟨rfl, rfl⟩
        · exact h.lt i j hj
        · exact hp
      composite := by
        intro i hi
        obtain ⟨j, hj⟩ := List.exists_mem_of_ne_nil _ hi
        have hlt : i < t.size ∧ (t.kind i).isComposite := by
          rcases (hmem i j).mp hj with hj | ⟨rfl, -⟩
          · exact ⟨lt_size_of_mem_children hj, h.composite i (List.ne_nil_of_mem hj)⟩
          · exact ⟨hp, hkind⟩
        rw [kind_sprout hp, if_neg (Nat.ne_of_lt hlt.1)]
        exact hlt.2
      lookup?_iff :=
        h.lookup?_grow hid (size_sprout ..) (lookup?_sprout t _ _ _)
          (fun i hi => by rw [id_sprout hp, if_neg (Nat.ne_of_lt hi)])
          (by rw [id_sprout hp, if_pos rfl]) }

end Linked

/-- The table without nodes is linked. -/
theorem linked_empty : empty.Linked := by
  have hnode : ∀ i, empty.node i = default := fun i => node_of_size_le (Nat.zero_le i)
  have hchildren : ∀ i, empty.children i = [] := fun i => by rw [children, hnode]; rfl
  exact
    { parent?_iff := fun i j => by
        rw [hchildren, parent?, hnode]
        constructor
        · intro hparent
          cases hparent
        · intro hmem
          cases hmem
      nodup := fun i => by rw [hchildren]; exact List.nodup_nil
      lt := fun i j hj => by rw [hchildren] at hj; cases hj
      composite := fun i hi => absurd (hchildren i) hi
      lookup?_iff := fun id i => by
        constructor
        · intro hlookup
          cases hlookup
        · intro hi
          exact absurd hi.1 (Nat.not_lt_zero i) }

end Arena

/-! ### Jumps -/

namespace Tree

open Arena

@[simp] theorem shape_foldl_resetFrom (t : Arena) (is : List NodeIdx) :
    (is.foldl resetFrom t).shape = t.shape := by
  induction is generalizing t with
  | nil => rfl
  | cons i is ih => exact (ih (t.resetFrom i)).trans (shape_resetFrom t i)

@[simp] theorem shape_leadTo (t : Arena) (parent onPath : NodeIdx) :
    (leadTo t parent onPath).shape = t.shape := by
  rw [leadTo, shape_foldl_resetFrom, shape_setStatuses]
  split
  · exact shape_setStatus ..
  · rfl

/-- Leading along a path changes statuses only. -/
@[simp] theorem shape_leadAlong (t : Arena) (path : List NodeIdx) :
    (leadAlong t path).shape = t.shape := by
  fun_induction leadAlong t path with
  | case1 t parent onPath rest ih => exact ih.trans (shape_leadTo ..)
  | case2 => rfl

theorem running_foldl_resetFrom {t : Arena} {is : List NodeIdx} {j : NodeIdx}
    (h : (is.foldl resetFrom t).status j = .running) : t.status j = .running := by
  induction is generalizing t with
  | nil => exact h
  | cons i is ih => exact running_resetFrom (ih h)

theorem running_leadTo {t : Arena} {parent onPath j : NodeIdx}
    (h : (leadTo t parent onPath).status j = .running) : t.status j = .running := by
  rw [leadTo] at h
  have hbefore := running_foldl_resetFrom h
  rcases status_setStatuses_eq _ ((t.children parent).takeWhile (· != onPath))
    (.ofOutcome (t.kind parent == .composite .sequence)) j with hs | hs
  · have hne := hs.symm.trans hbefore
    cases hk : (t.kind parent == .composite .sequence) <;> rw [hk] at hne <;> cases hne
  · rw [hs] at hbefore
    split at hbefore
    · rcases status_setStatus_eq t parent .notEntered j with hs' | hs'
      · exact nomatch hs'.symm.trans hbefore
      · exact hs'.symm.trans hbefore
    · exact hbefore

/-- Leading along a path starts nothing running. -/
theorem running_leadAlong {t : Arena} {path : List NodeIdx} {j : NodeIdx}
    (h : (leadAlong t path).status j = .running) : t.status j = .running := by
  fun_induction leadAlong t path with
  | case1 t parent onPath rest ih => exact running_leadTo (ih h)
  | case2 => exact h

/-! ### Siblings -/

/-- Only the new node is added to a list of siblings. -/
theorem insertAfter_perm (anchor new : NodeIdx) (siblings : List NodeIdx) :
    (insertAfter anchor new siblings).Perm (new :: siblings) := by
  induction siblings with
  | nil => exact .refl _
  | cons i rest ih =>
      rw [insertAfter]
      split
      · exact .swap new i rest
      · exact (ih.cons i).trans (.swap new i rest)

/-- What a new sibling makes of a tree, when it is not refused. -/
theorem addSibling_eq_ok {t u : Tree} {existing : String} {spec : NodeSpec} {i : NodeIdx}
    (h : t.addSibling existing spec = .ok (u, i)) :
    ∃ anchor parent, t.arena.lookup? existing = some anchor ∧
      t.arena.hasNode spec.id = false ∧ t.arena.parent? anchor = some parent ∧
      u = { t with
        arena := (t.arena.push (Node.ofSpec spec (some parent))).modify parent fun n =>
          { n with children := insertAfter anchor t.arena.size n.children } } ∧
      i = t.arena.size := by
  rw [addSibling, require] at h
  obtain ⟨anchor, hanchor, h⟩ := exists_ok_of_bind h
  have hlookup : t.arena.lookup? existing = some anchor := by
    split at hanchor
    · next i hi => rw [hi, Except.ok.inj hanchor]
    · cases hanchor
  cases hid : t.arena.hasNode spec.id with
  | true =>
      rw [if_pos hid] at h
      cases h
  | false =>
      rw [if_neg (ne_true_of_eq_false hid)] at h
      cases hparent : t.arena.parent? anchor with
      | none =>
          rw [hparent] at h
          cases h
      | some parent =>
          rw [hparent] at h
          obtain ⟨rfl, rfl⟩ := Prod.mk.inj (Except.ok.inj h)
          exact ⟨anchor, parent, hlookup, rfl, hparent, rfl, rfl⟩

/-- A new sibling is a leaf that sprouts directly after the node beside it. -/
theorem push_modify_insertAfter {t : Arena} {parent : NodeIdx} (hp : parent < t.size)
    (spec : NodeSpec) (anchor : NodeIdx) :
    ((t.push (Node.ofSpec spec (some parent))).modify parent fun n =>
        { n with children := insertAfter anchor t.size n.children }) =
      t.sprout spec parent (insertAfter anchor t.size (t.children parent)) := by
  refine ext_node (by simp) rfl fun i _ => ?_
  rw [node_sprout hp, node_modify, size_push, node_push, node_push,
    if_neg (Nat.ne_of_lt hp)]
  by_cases hi : i = parent
  · subst hi
    rw [if_pos ⟨rfl, Nat.lt_succ_of_lt hp⟩, if_neg (Nat.ne_of_lt hp), if_pos rfl, children]
  · rw [if_neg fun h => hi h.1, if_neg hi]

end Tree

end Ladybug
