import Ladybug.Proofs.Walk
import Mathlib.Data.List.Range

/-!
# Sound trees

A tree is *sound* when its table is linked, its root is the one node without a parent, its
resume pointer is a node, and no leaf is running. Turns, jumps, resets and new siblings keep
a tree sound. In a sound tree every node lies below the root, so that one forest below the
root has all other nodes, each of them once: it *spans* the tree. Walks, resets and the
writer of flowcharts go through that forest.

## Main definitions

* `Tree.Sound` — the invariant.
* `Tree.Spans` — a forest below the root has all other nodes.

## Main results

* `Tree.Sound.exists_spans` — a sound tree is spanned by a forest.
* `Tree.Spans.preorder_eq` — the order of the tree is that of the forest.
* `Tree.Sound.tick`, `Tree.Sound.reset`, `Tree.Sound.jumpTo` and `Tree.Sound.addSibling` —
  what is done to a tree keeps it sound.
-/

namespace Ladybug

namespace Tree

open Arena

/-- The links, the resume pointer and the statuses of a tree are in order. -/
structure Sound (t : Tree) : Prop where
  linked : t.arena.Linked
  root_lt : t.root < t.arena.size
  /-- The root is the one node without a parent. -/
  parent?_eq_none_iff : ∀ i < t.arena.size, t.arena.parent? i = none ↔ i = t.root
  current_lt : t.current < t.arena.size
  action : ∃ i < t.arena.size, (t.arena.kind i).isAction
  running : ∀ i, t.arena.status i = .running → (t.arena.kind i).isComposite

/-- The forest below the root has all other nodes of the table, each of them once. -/
structure Spans (t : Tree) (below : Forest) : Prop where
  children : t.arena.children t.root = below.roots
  grows : t.arena.Grows below
  nodup : (t.root :: below.preorder).Nodup
  perm : (t.root :: below.preorder).Perm (List.range t.arena.size)

/-- Trees of one shape and root have the same order. -/
theorem preorder_of_shape {t u : Tree} (hshape : u.arena.shape = t.arena.shape)
    (hroot : u.root = t.root) : u.preorder = t.preorder := by
  rw [preorder, hroot, preorderFrom_of_shape hshape, preorder]

/-- A jump leads to a node of the tree, and it changes statuses only, starting nothing
running. -/
theorem jumpTo_eq_ok {t u : Tree} {id : String} (h : t.jumpTo id = .ok u) :
    ∃ target, t.arena.lookup? id = some target ∧ u.arena.shape = t.arena.shape ∧
      u.root = t.root ∧ (u.current = t.root ∨ u.current = target) ∧
      ∀ i, u.arena.status i = .running → t.arena.status i = .running := by
  rw [Tree.jumpTo, require] at h
  cases hlookup : t.arena.lookup? id with
  | none =>
      rw [hlookup] at h
      cases h
  | some target =>
      rw [hlookup] at h
      change (if target = t.root then Except.ok t.reset else _) = _ at h
      refine ⟨target, rfl, ?_⟩
      split at h
      · obtain rfl := Except.ok.inj h
        exact ⟨shape_resetFrom .., rfl, .inl rfl, fun _ hi => running_resetFrom hi⟩
      · obtain rfl := Except.ok.inj h
        refine ⟨?_, rfl, .inr rfl, fun _ hi => running_leadAlong (running_resetFrom hi)⟩
        rw [shape_resetFrom, shape_leadAlong]

/-! ### Spanning forests -/

namespace Spans

variable {t : Tree} {below : Forest} (h : t.Spans below)

include h

theorem length_preorder : below.preorder.length + 1 = t.arena.size := by
  have hlen := h.perm.length_eq
  rwa [List.length_cons, List.length_range] at hlen

theorem mem_iff {i : Nat} : i ∈ t.root :: below.preorder ↔ i < t.arena.size := by
  rw [h.perm.mem_iff, List.mem_range]

/-- A walk from the root has enough depth. -/
theorem height_lt : below.height < t.arena.size := by
  have hlen := h.length_preorder
  have hle := below.height_le_length
  omega

/-- The order of the tree is that of the forest. -/
theorem preorder_eq : t.preorder = t.root :: below.preorder :=
  preorderFrom_tree h.children h.grows (Nat.le_of_eq h.length_preorder)

end Spans

namespace Sound

variable {t : Tree} (h : t.Sound)

include h

/-- Every node climbs to the root. -/
theorem climbs_root {i : Nat} (hi : i < t.arena.size) : t.arena.Climbs i t.root := by
  induction i using Nat.strongRecOn with
  | ind i ih =>
      cases hp : t.arena.parent? i with
      | none =>
          obtain rfl := (h.parent?_eq_none_iff i hi).mp hp
          exact .refl
      | some p =>
          have hlt : p < i := h.linked.lt p i ((h.linked.parent?_iff p i).mp hp)
          exact .head hp (ih p hlt (Nat.lt_trans hlt hi))

/-- A sound tree is spanned by a forest. -/
theorem exists_spans : ∃ below, t.Spans below := by
  obtain ⟨below, hroots, hgrows⟩ := h.linked.exists_grows (t.arena.children t.root)
  have htree : t.arena.Grows (.cons t.root below .nil) := ⟨hroots.symm, hgrows, trivial⟩
  have horder := Forest.preorder_tree t.root below
  have hnodup : (t.root :: below.preorder).Nodup := horder ▸ h.linked.nodup_preorder htree rfl
  refine ⟨below, hroots.symm, hgrows, hnodup, ?_⟩
  refine (List.perm_ext_iff_of_nodup hnodup List.nodup_range).mpr fun i => ?_
  rw [← horder, h.linked.mem_preorder_iff htree, List.mem_range]
  constructor
  · rintro ⟨r, hr, hir⟩
    obtain rfl := List.mem_singleton.mp hr
    rcases Relation.ReflTransGen.cases_head hir with rfl | ⟨p, hp, -⟩
    · exact h.root_lt
    · exact lt_size_of_parent? hp
  · intro hi
    exact ⟨t.root, List.mem_singleton_self _, h.climbs_root hi⟩

/-- The order of a sound tree has every node once. -/
theorem preorder_perm : t.preorder.Perm (List.range t.arena.size) := by
  obtain ⟨below, hspans⟩ := h.exists_spans
  rw [hspans.preorder_eq]
  exact hspans.perm

/-- A tree of the same shape and root is sound, if its resume pointer is a node and no leaf
has started running. -/
theorem of_shape {u : Tree} (hshape : u.arena.shape = t.arena.shape) (hroot : u.root = t.root)
    (hcurrent : u.current < t.arena.size)
    (hrunning : ∀ i, u.arena.status i = .running →
      t.arena.status i = .running ∨ (t.arena.kind i).isComposite) : u.Sound where
  linked := h.linked.of_shape hshape
  root_lt := by rw [hroot, size_of_shape hshape]; exact h.root_lt
  parent?_eq_none_iff i hi := by
    rw [parent?_of_shape hshape, hroot]
    exact h.parent?_eq_none_iff i (size_of_shape hshape ▸ hi)
  current_lt := by rw [size_of_shape hshape]; exact hcurrent
  action := by
    obtain ⟨i, hi, hkind⟩ := h.action
    exact ⟨i, by rwa [size_of_shape hshape], by rwa [kind_of_shape hshape]⟩
  running i hi := by
    rw [kind_of_shape hshape]
    exact (hrunning i hi).elim (h.running i) fun hk => hk

/-! ### Turns -/

/-- A stretch of a walk keeps a tree sound. -/
theorem passes {w : World} {a : AgentId} {u : Tree} {nodes : List NodeIdx} {trace : Trace}
    {halted : Prop} (hpasses : Passes w a t nodes trace u halted)
    (hnodes : ∀ i : Nat, i ∈ nodes → i < t.arena.size) : u.Sound := by
  refine h.of_shape hpasses.shape hpasses.root ?_ hpasses.running
  by_cases hhalted : halted
  · exact hnodes _ (hpasses.halts hhalted).1
  · rw [hpasses.stays hhalted]
    exact h.current_lt

/-- The first walk of a turn passes the nodes of the tree. -/
theorem firstWalk_passes (w : World) (a : AgentId) :
    Passes w a t t.preorder (t.firstWalk w a).trace (t.firstWalk w a).tree
      ((t.firstWalk w a).ending = .halted) := by
  obtain ⟨below, hspans⟩ := h.exists_spans
  rw [hspans.preorder_eq]
  exact walk_passes hspans.children hspans.grows hspans.height_lt

/-- The walks of a turn pass the nodes of the tree. -/
theorem walks_passes (w : World) (a : AgentId) :
    Passes w a t t.preorder (t.walks w a).trace (t.walks w a).tree
      ((t.walks w a).ending = .halted) := by
  have hfirst := h.firstWalk_passes w a
  rw [walks]
  cases hend : (t.firstWalk w a).ending with
  | halted => exact hfirst.iff (by simp [hend])
  | finished ok =>
      have hmem : ∀ i : Nat, i ∈ t.preorder → i < t.arena.size := fun i hi =>
        List.mem_range.mp (h.preorder_perm.mem_iff.mp hi)
      have hrestart : Passes w a t t.preorder ((t.firstWalk w a).trace ++ [])
          (t.firstWalk w a).tree.restart False := by
        refine (hfirst.iff (by simp [hend])).trans ?_
        rw [← preorder_of_shape hfirst.shape hfirst.root]
        exact .restart _
      have hsecond := (h.passes hrestart hmem).firstWalk_passes w a
      rw [preorder_of_shape hrestart.shape hrestart.root] at hsecond
      rw [List.append_nil] at hrestart
      exact hrestart.trans hsecond

/-- The resume pointer is at a node after the walks of a turn. -/
theorem walks_sound (w : World) (a : AgentId) : (t.walks w a).tree.Sound :=
  h.passes (h.walks_passes w a) fun _ hi => List.mem_range.mp (h.preorder_perm.mem_iff.mp hi)

/-- A turn keeps a tree sound. -/
theorem tick (w : World) (a : AgentId) : (t.tick w a).tree.Sound := by
  have hwalks := h.walks_sound w a
  rw [Tree.tick]
  cases hp : (t.walks w a).tree.pending? with
  | none => exact hwalks.of_shape rfl rfl hwalks.current_lt fun _ hi => .inl hi
  | some action =>
      refine hwalks.of_shape (shape_setStatus ..) rfl hwalks.current_lt fun i hi => ?_
      rcases status_setStatus_eq (t.walks w a).tree.arena (t.walks w a).tree.current
        (.ofOutcome (action.perform w a).2) i with hs | hs
      · have hne : Status.ofOutcome (action.perform w a).2 = .running := hs.symm.trans hi
        cases hok : (action.perform w a).2 <;> rw [hok] at hne <;> cases hne
      · exact .inl (hs.symm.trans hi)

/-- A turn changes statuses only. -/
theorem shape_tick (w : World) (a : AgentId) :
    (t.tick w a).tree.arena.shape = t.arena.shape ∧ (t.tick w a).tree.root = t.root := by
  have hwalks := h.walks_passes w a
  rw [Tree.tick]
  cases (t.walks w a).tree.pending? with
  | none => exact ⟨hwalks.shape, hwalks.root⟩
  | some action => exact ⟨(shape_setStatus ..).trans hwalks.shape, hwalks.root⟩

/-! ### Resets and jumps -/

/-- A reset keeps a tree sound. -/
theorem reset : t.reset.Sound :=
  h.of_shape (shape_resetFrom ..) rfl h.root_lt fun _ hi => .inl (running_resetFrom hi)

/-- A jump keeps a tree sound. -/
theorem jumpTo {id : String} {u : Tree} (hjump : t.jumpTo id = .ok u) : u.Sound := by
  obtain ⟨target, hlookup, hshape, hroot, hcurrent, hrunning⟩ := jumpTo_eq_ok hjump
  refine h.of_shape hshape hroot ?_ fun i hi => .inl (hrunning i hi)
  rcases hcurrent with hcurrent | hcurrent <;> rw [hcurrent]
  · exact h.root_lt
  · exact ((h.linked.lookup?_iff id target).mp hlookup).1

/-! ### Growth -/

/-- A new sibling keeps a tree sound. -/
theorem addSibling {existing : String} {spec : NodeSpec} {u : Tree} {i : NodeIdx}
    (hgrow : t.addSibling existing spec = .ok (u, i)) : u.Sound := by
  obtain ⟨anchor, parent, hanchor, hid, hparent, rfl, rfl⟩ := addSibling_eq_ok hgrow
  have hchild : anchor ∈ t.arena.children parent :=
    (h.linked.parent?_iff parent anchor).mp hparent
  have hlt : parent < t.arena.size := lt_size_of_mem_children hchild
  have hkind := h.linked.composite parent (List.ne_nil_of_mem hchild)
  rw [push_modify_insertAfter hlt]
  exact
    { linked := h.linked.sprout hid hlt hkind (insertAfter_perm ..)
      root_lt := by rw [size_sprout]; exact Nat.lt_succ_of_lt h.root_lt
      parent?_eq_none_iff := by
        intro i hi
        rw [parent?_sprout hlt]
        split
        · next hnew => exact ⟨nofun, fun hroot => absurd (hnew.symm.trans hroot)
            (Nat.ne_of_gt h.root_lt)⟩
        · next hold =>
            rw [size_sprout] at hi
            exact h.parent?_eq_none_iff i (Nat.lt_of_le_of_ne (Nat.le_of_lt_succ hi) hold)
      current_lt := by rw [size_sprout]; exact Nat.lt_succ_of_lt h.current_lt
      action := by
        obtain ⟨i, hi, haction⟩ := h.action
        refine ⟨i, by rw [size_sprout]; exact Nat.lt_succ_of_lt hi, ?_⟩
        rwa [kind_sprout hlt, if_neg (Nat.ne_of_lt hi)]
      running := by
        intro i hi
        rw [status_sprout hlt] at hi
        have hrow : i ≠ t.arena.size := by
          rintro rfl
          rw [status, node_of_size_le (Nat.le_refl _)] at hi
          cases hi
        rw [kind_sprout hlt, if_neg hrow]
        exact h.running i hi }

end Sound

end Tree

end Ladybug
