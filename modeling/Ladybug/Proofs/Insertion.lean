import Ladybug.Proofs.Reachable

/-!
# A new sibling changes nothing else

A new sibling is linked into the middle of a list of children, while the order of the tree comes
from a stack that goes through all of them. On the forest that spans the tree it is the same
insertion everywhere: one more tree, which is a single leaf, stands directly after the tree of
the anchor. So the order before the insertion and the one after it differ by one entry, directly
after everything below the anchor, and all other nodes keep what they had.

## Main definitions

* `Forest.insertAfter` — the forest with a new leaf after the tree of a node.
* `Tree.Inserts` — between two trees, one leaf has been inserted.

## Main results

* `Arena.Linked.grows_insertAfter` — that forest grows in the table with the new leaf.
* `Arena.exists_preorder_insertAfter` — its order has one more entry.
* `Tree.Reachable.addSibling_inserts` — a new sibling is refused without a trace, or inserted
  without another one.
-/

namespace Ladybug

/-! ### Inserting a tree into a forest -/

namespace Forest

variable {anchor new : NodeIdx}

/-- The forest with a new leaf directly after the tree of the anchor. -/
def insertAfter (anchor new : NodeIdx) : Forest → Forest
  | nil => nil
  | cons i below rest =>
    if i = anchor then cons i below (cons new nil rest)
    else cons i (below.insertAfter anchor new) (rest.insertAfter anchor new)

/-- If the anchor is a root, the leaf becomes a root directly after it. -/
theorem roots_insertAfter {f : Forest} (h : anchor ∈ f.roots) :
    (f.insertAfter anchor new).roots = Tree.insertAfter anchor new f.roots := by
  induction f with
  | nil => cases h
  | cons i below rest _ ih =>
      rw [insertAfter, roots, Tree.insertAfter]
      split
      · rfl
      · next hi =>
          have hrest := (List.mem_cons.mp h).resolve_left fun he => hi he.symm
          rw [roots, ih hrest]

/-- Otherwise the roots are the same. -/
theorem roots_insertAfter_of_not_mem {f : Forest} (h : anchor ∉ f.roots) :
    (f.insertAfter anchor new).roots = f.roots := by
  induction f with
  | nil => rfl
  | cons i below rest _ ih =>
      obtain ⟨hi, hrest⟩ := List.ne_and_not_mem_of_not_mem_cons h
      rw [insertAfter, if_neg (Ne.symm hi), roots, roots, ih hrest]

/-- Without the anchor there is nothing to insert after. -/
theorem insertAfter_of_not_mem {f : Forest} (h : anchor ∉ f.preorder) :
    f.insertAfter anchor new = f := by
  induction f with
  | nil => rfl
  | cons i below rest ihBelow ihRest =>
      obtain ⟨hi, hmem⟩ := List.ne_and_not_mem_of_not_mem_cons h
      rw [List.mem_append, not_or] at hmem
      rw [insertAfter, if_neg (Ne.symm hi), ihBelow hmem.1, ihRest hmem.2]

end Forest

namespace Arena

variable {t u : Arena} {p anchor new : NodeIdx} {f : Forest}

/-- If a new leaf is linked directly after the anchor, the forest with that leaf grows. -/
theorem Linked.grows_insertAfter (h : t.Linked) (hanchor : anchor ∈ t.children p)
    (hchildren : ∀ i, u.children i =
      if i = p then Tree.insertAfter anchor new (t.children p) else t.children i)
    (hnew : u.children new = []) (hf : t.Grows f) (hnodup : f.preorder.Nodup) :
    u.Grows (f.insertAfter anchor new) := by
  induction f with
  | nil => trivial
  | cons i below rest ihBelow ihRest =>
      obtain ⟨hi, hbelow, hrest⟩ := hf
      obtain ⟨hnot, hnodup⟩ := List.nodup_cons.mp hnodup
      obtain ⟨hnodupBelow, hnodupRest, -⟩ := List.nodup_append.mp hnodup
      rw [List.mem_append, not_or] at hnot
      rw [Forest.insertAfter]
      split
      · next hia =>
          -- The parent stands elsewhere, or it would have the anchor once more.
          subst hia
          have hsame : ∀ g : Forest, t.Grows g → i ∉ g.preorder → u.Grows g := by
            refine fun g hg hmem => hg.congr_of_mem fun j hj => ?_
            rw [hchildren, if_neg]
            rintro rfl
            exact hmem (h.mem_preorder_of_mem_children hg hj hanchor)
          have hip : i ≠ p := Nat.ne_of_gt (h.lt p i hanchor)
          exact ⟨by rw [hchildren, if_neg hip, hi], hsame below hbelow hnot.1, hnew, trivial,
            hsame rest hrest hnot.2⟩
      · next hia =>
          refine ⟨?_, ihBelow hbelow hnodupBelow, ihRest hrest hnodupRest⟩
          rw [hchildren]
          split
          · next hip =>
              subst hip
              rw [Forest.roots_insertAfter (hi ▸ hanchor), hi]
          · next hip =>
              rw [Forest.roots_insertAfter_of_not_mem, hi]
              intro hmem
              rw [← hi, ← h.parent?_iff, (h.parent?_iff p anchor).mpr hanchor] at hmem
              exact hip (Option.some.inj hmem).symm

/-- The order of the forest with the leaf has one more entry, directly after everything below the
anchor. -/
theorem exists_preorder_insertAfter (new : NodeIdx) (hf : t.Grows f) (hnodup : f.preorder.Nodup)
    (hanchor : anchor ∈ f.preorder) :
    ∃ before below after, t.children anchor = below.roots ∧ t.Grows below ∧
      f.preorder = before ++ (anchor :: below.preorder) ++ after ∧
      (f.insertAfter anchor new).preorder =
        before ++ (anchor :: below.preorder) ++ new :: after := by
  induction f with
  | nil => cases hanchor
  | cons i below rest ihBelow ihRest =>
      obtain ⟨hi, hbelow, hrest⟩ := hf
      obtain ⟨hnot, hnodup⟩ := List.nodup_cons.mp hnodup
      obtain ⟨hnodupBelow, hnodupRest, hdisjoint⟩ := List.nodup_append.mp hnodup
      by_cases hia : i = anchor
      · subst hia
        refine ⟨[], below, rest.preorder, hi, hbelow, rfl, ?_⟩
        rw [Forest.insertAfter, if_pos rfl]
        simp [Forest.preorder]
      · rw [Forest.insertAfter, if_neg hia]
        rcases List.mem_append.mp ((List.mem_cons.mp hanchor).resolve_left (Ne.symm hia)) with
          hmem | hmem
        · obtain ⟨before, tree, after, htree, hgrows, horder, horder'⟩ :=
            ihBelow hbelow hnodupBelow hmem
          refine ⟨i :: before, tree, after ++ rest.preorder, htree, hgrows, ?_, ?_⟩
          · rw [Forest.preorder, horder]
            simp
          · rw [Forest.preorder, horder', Forest.insertAfter_of_not_mem fun hmem' =>
              hdisjoint anchor hmem anchor hmem' rfl]
            simp
        · obtain ⟨before, tree, after, htree, hgrows, horder, horder'⟩ :=
            ihRest hrest hnodupRest hmem
          refine ⟨i :: (below.preorder ++ before), tree, after, htree, hgrows, ?_, ?_⟩
          · rw [Forest.preorder, horder]
            simp
          · rw [Forest.preorder, horder', Forest.insertAfter_of_not_mem fun hmem' =>
              hdisjoint anchor hmem' anchor hmem rfl]
            simp

end Arena

namespace Tree

open Arena

/-! ### Inserting a node into a tree -/

/-- Between the two trees a new node has been inserted directly after the anchor. -/
structure Inserts (t : Tree) (anchor : NodeIdx) (spec : NodeSpec) (u : Tree) : Prop where
  size : u.arena.size = t.arena.size + 1
  /-- The new node takes the next row, has the anchor's parent and no children, and has not been
  entered. -/
  node : u.arena.node t.arena.size = .ofSpec spec (t.arena.parent? anchor)
  /-- It stands directly after the anchor, and the other children of the parent stand in the
  same order. -/
  siblings : ∃ p left right, t.arena.parent? anchor = some p ∧
    t.arena.children p = left ++ anchor :: right ∧
    u.arena.children p = left ++ anchor :: t.arena.size :: right
  /-- Other nodes have the same children. -/
  children : ∀ i, t.arena.parent? anchor ≠ some i → u.arena.children i = t.arena.children i
  /-- All nodes of before have the same names, kinds, parents and statuses. -/
  same : ∀ i < t.arena.size, u.arena.id i = t.arena.id i ∧ u.arena.kind i = t.arena.kind i ∧
    u.arena.parent? i = t.arena.parent? i ∧ u.arena.status i = t.arena.status i
  lookup? : ∀ id, u.arena.lookup? id =
    if id = spec.id then some t.arena.size else t.arena.lookup? id
  /-- The order has one more entry, directly after everything below the anchor. -/
  preorder : ∃ before after, t.preorder = before ++ t.arena.preorderFrom anchor ++ after ∧
    u.preorder = before ++ t.arena.preorderFrom anchor ++ t.arena.size :: after
  /-- What is below the anchor are the nodes that climb to it. -/
  below : ∀ i, i ∈ t.arena.preorderFrom anchor ↔ t.arena.Climbs i anchor
  root : u.root = t.root
  current : u.current = t.current
  jumped : u.jumped = t.jumped

/-- The new one stands directly after the anchor in a list of siblings. -/
theorem insertAfter_append {anchor : NodeIdx} {left : List NodeIdx} (h : anchor ∉ left)
    (new : NodeIdx) (right : List NodeIdx) :
    insertAfter anchor new (left ++ anchor :: right) = left ++ anchor :: new :: right := by
  induction left with
  | nil => rw [List.nil_append, insertAfter, if_pos rfl, List.nil_append]
  | cons i left ih =>
      obtain ⟨hi, hleft⟩ := List.ne_and_not_mem_of_not_mem_cons h
      rw [List.cons_append, insertAfter, if_neg (Ne.symm hi), ih hleft, List.cons_append]

variable {t : Tree} {existing : String} {spec : NodeSpec} {anchor p : NodeIdx}

/-- A new sibling that is not refused makes a leaf sprout after the anchor. -/
theorem addSibling_eq_sprout (hlookup : t.arena.lookup? existing = some anchor)
    (hid : t.arena.hasNode spec.id = false) (hparent : t.arena.parent? anchor = some p)
    (hp : p < t.arena.size) :
    t.addSibling existing spec =
      .ok ({ t with
        arena := t.arena.sprout spec p (insertAfter anchor t.arena.size (t.arena.children p)) },
        t.arena.size) := by
  rw [← push_modify_insertAfter hp, addSibling, require, hlookup]
  change (if t.arena.hasNode spec.id then _ else _) = _
  rw [if_neg (ne_true_of_eq_false hid), hparent]
  rfl

/-- A forest has the order of a sound tree. -/
theorem Sound.exists_forest (h : t.Sound) :
    ∃ f : Forest, f.roots = [t.root] ∧ t.arena.Grows f ∧ f.preorder = t.preorder ∧
      f.preorder.Nodup ∧ f.preorder.length = t.arena.size := by
  obtain ⟨below, hspans⟩ := h.exists_spans
  have horder := Forest.preorder_tree t.root below
  refine ⟨.cons t.root below .nil, rfl, ⟨hspans.children, hspans.grows, trivial⟩, ?_, ?_, ?_⟩
  · rw [horder, hspans.preorder_eq]
  · rw [horder]
    exact hspans.nodup
  · rw [horder, List.length_cons, hspans.length_preorder]

/-- In the order of a tree in which a leaf has sprouted after the anchor, the leaf stands directly
after everything below the anchor. -/
theorem Sound.exists_preorder_sprout (h : t.Sound) (spec : NodeSpec) (hanchor : anchor ≠ t.root)
    (hchild : anchor ∈ t.arena.children p) {u : Tree}
    (hu : u = { t with
      arena := t.arena.sprout spec p (insertAfter anchor t.arena.size (t.arena.children p)) }) :
    (∃ before after, t.preorder = before ++ t.arena.preorderFrom anchor ++ after ∧
      u.preorder = before ++ t.arena.preorderFrom anchor ++ t.arena.size :: after) ∧
      ∀ i, i ∈ t.arena.preorderFrom anchor ↔ t.arena.Climbs i anchor := by
  have hp : p < t.arena.size := lt_size_of_mem_children hchild
  obtain ⟨f, hroots, hgrows, horder, hnodup, hlen⟩ := h.exists_forest
  have hmem : anchor ∈ f.preorder := by
    rw [horder, h.preorder_perm.mem_iff, List.mem_range]
    exact h.linked.child_lt_size hchild
  obtain ⟨before, below, after, hchildren, hbelow, hbefore, hafter⟩ :=
    exists_preorder_insertAfter t.arena.size hgrows hnodup hmem
  have hfrom := preorderFrom_tree hchildren hbelow (by
    rw [← hlen, hbefore]
    simp only [List.length_append]
    omega)
  refine ⟨⟨before, after, by rw [← horder, hfrom, hbefore], ?_⟩, fun i => by
    rw [hfrom, h.linked.mem_tree_iff hchildren hbelow]⟩
  have hgrows' : u.arena.Grows (f.insertAfter anchor t.arena.size) := by
    refine h.linked.grows_insertAfter hchild (fun i => ?_) ?_ hgrows hnodup
    · rw [hu, children_sprout hp]
    · rw [hu, children_sprout hp, if_neg (Nat.ne_of_gt hp), Arena.children,
        node_of_size_le (Nat.le_refl _)]
      rfl
  have hroots' : (f.insertAfter anchor t.arena.size).roots = [t.root] := by
    rw [Forest.roots_insertAfter_of_not_mem (by rw [hroots]; simpa using hanchor), hroots]
  have hlen' : (f.insertAfter anchor t.arena.size).preorder.length ≤ u.arena.size := by
    rw [hbefore] at hlen
    rw [hu, size_sprout, hafter]
    simp only [List.length_append, List.length_cons] at hlen ⊢
    omega
  have hroot : u.root = t.root := by rw [hu]
  rw [Tree.preorder, hroot, preorderFrom_of_grows hgrows' hroots' hlen', hafter, hfrom]

/-- A leaf that has sprouted after the anchor has been inserted. -/
theorem Sound.inserts_sprout (h : t.Sound) (spec : NodeSpec) (hanchor : anchor ≠ t.root)
    (hchild : anchor ∈ t.arena.children p) :
    t.Inserts anchor spec { t with
      arena := t.arena.sprout spec p (insertAfter anchor t.arena.size (t.arena.children p)) } := by
  have hp : p < t.arena.size := lt_size_of_mem_children hchild
  have hparent := (h.linked.parent?_iff p anchor).mpr hchild
  obtain ⟨hpreorder, hbelow⟩ := h.exists_preorder_sprout spec hanchor hchild rfl
  obtain ⟨left, right, hchildren, hleft⟩ := List.eq_append_cons_of_mem hchild
  exact
    { size := size_sprout ..
      node := by rw [node_sprout hp, if_pos rfl, hparent]
      siblings := by
        refine ⟨p, left, right, hparent, hchildren, ?_⟩
        rw [children_sprout hp, if_pos rfl, hchildren, insertAfter_append hleft]
      children := fun i hi => by
        rw [children_sprout hp, if_neg]
        rintro rfl
        exact hi hparent
      same := fun i hi => by
        have hne : i ≠ t.arena.size := Nat.ne_of_lt hi
        exact ⟨by rw [id_sprout hp, if_neg hne], by rw [kind_sprout hp, if_neg hne],
          by rw [parent?_sprout hp, if_neg hne], status_sprout hp ..⟩
      lookup? := lookup?_sprout _ _ _ _
      preorder := hpreorder
      below := hbelow
      root := rfl
      current := rfl
      jumped := rfl }

/-- An insertion that is refused leaves the tree as it was. -/
theorem after_addSibling_of_error {e : TreeError} (h : t.addSibling existing spec = .error e) :
    t.after (.addSibling existing spec) = t := by
  rw [Tree.after, Operation.run, h]
  rfl

/-- **A new sibling is refused without a trace, or inserted without another one.** The node
beside it must be in the tree, its own name must not, and the root has no siblings; these are
asked in this order. Otherwise the new node takes the next row, directly after the other one and
everything below it, and nothing else has changed. -/
theorem Reachable.addSibling_inserts {Admitted : NodeSpec → Prop} (h : t.Reachable Admitted)
    (existing : String) (spec : NodeSpec) :
    (t.arena.lookup? existing = none →
      t.addSibling existing spec = .error (.unknownNode existing) ∧
        t.after (.addSibling existing spec) = t) ∧
    ∀ anchor, t.arena.lookup? existing = some anchor →
      (t.arena.hasNode spec.id → t.addSibling existing spec = .error (.duplicateNode spec.id) ∧
        t.after (.addSibling existing spec) = t) ∧
      (t.arena.hasNode spec.id = false → anchor = t.root →
        t.addSibling existing spec = .error (.rootSibling existing) ∧
          t.after (.addSibling existing spec) = t) ∧
      (t.arena.hasNode spec.id = false → anchor ≠ t.root →
        t.addSibling existing spec = .ok (t.after (.addSibling existing spec), t.arena.size) ∧
          t.Inserts anchor spec (t.after (.addSibling existing spec))) := by
  have hsound := h.sound
  refine ⟨fun hunknown => ?_, fun anchor hlookup => ⟨fun hid => ?_, fun hid hroot => ?_,
    fun hid hroot => ?_⟩⟩
  · have herror : t.addSibling existing spec = .error (.unknownNode existing) := by
      rw [addSibling, require, hunknown]
      rfl
    exact ⟨herror, after_addSibling_of_error herror⟩
  · have herror : t.addSibling existing spec = .error (.duplicateNode spec.id) := by
      rw [addSibling, require, hlookup]
      exact if_pos hid
    exact ⟨herror, after_addSibling_of_error herror⟩
  · have herror : t.addSibling existing spec = .error (.rootSibling existing) := by
      have hparent := (hsound.parent?_eq_none_iff t.root hsound.root_lt).mpr rfl
      rw [addSibling, require, hlookup]
      change (if t.arena.hasNode spec.id then _ else _) = _
      rw [if_neg (ne_true_of_eq_false hid), hroot, hparent]
    exact ⟨herror, after_addSibling_of_error herror⟩
  · obtain ⟨hlt, -⟩ := (hsound.linked.lookup?_iff existing anchor).mp hlookup
    obtain ⟨p, hp, hparent, -⟩ := hsound.exists_parent hlt hroot
    have hgrown := addSibling_eq_sprout hlookup hid hparent hp
    have hafter : t.after (.addSibling existing spec) = { t with
        arena := t.arena.sprout spec p
          (insertAfter anchor t.arena.size (t.arena.children p)) } := by
      rw [Tree.after, Operation.run, hgrown]
      rfl
    rw [hafter]
    exact ⟨hgrown, hsound.inserts_sprout spec hroot ((hsound.linked.parent?_iff p anchor).mp hparent)⟩

/-- In the middle of a run a node is inserted after a fallback with two actions below it. The root
gets no sibling. -/
theorem addSibling_inserts_nested :
    let w : World := ⟨Grid.blank 3 1, Colony.ofSpawns [⟨⟨0, 0⟩, .left⟩]⟩
    let spec : NodeSpec := ⟨"F", .composite .sequence⟩
    ∃ t : Tree,
      Flowchart.readTrees ["flowchart TD", "A[->] --> B[?]", "B --> C[move]", "B --> D[turnLeft]",
        "A --> E[placeLeaf]"] 1 = .ok [t] ∧
      let u := t.after (.tick w .first)
      u.preorder = [0, 1, 2, 3, 4] ∧ u.arena.status 1 = .running ∧
      u.addSibling "A" spec = .error (.rootSibling "A") ∧
      u.Inserts 1 spec (u.after (.addSibling "B" spec)) ∧
      (u.after (.addSibling "B" spec)).preorder = [0, 1, 2, 3, 5, 4] := by
  intro w spec
  have hread (t : Tree)
      (ht : Flowchart.readTrees ["flowchart TD", "A[->] --> B[?]", "B --> C[move]",
        "B --> D[turnLeft]", "A --> E[placeLeaf]"] 1 = .ok [t]) :
      Reachable (fun _ => True) (t.after (.tick w .first)) := by
    have hread : Reachable (fun _ => True) t := .read ht (List.mem_singleton_self t)
    exact .after hread trivial
  have hreached := hread _ rfl
  refine ⟨_, rfl, by decide, by decide, ?_, ?_, by decide⟩
  · exact ((hreached.addSibling_inserts "A" spec).2 0 (by decide)).2.1 (by decide) (by decide) |>.1
  · exact ((hreached.addSibling_inserts "B" spec).2 1 (by decide)).2.2 (by decide) (by decide) |>.2

end Tree

end Ladybug
