import Ladybug.Behavior.Arena
import Mathlib.Data.List.Nodup
import Mathlib.Data.List.Perm.Basic
import Mathlib.Logic.Relation

/-!
# Forests in a table of nodes

A table of nodes links rows by numbers, and what goes through it does so by fuel or by a
stack. A `Forest` is the same shape as a datatype: each tree is its root with the forest
below it, so what is said about a table can be proved by induction over the shape. A forest
grows in a table when the children of each of its nodes are the roots of the forest below
that node.

A table is *wired* when its two ways of linking agree, only composites have children and
every name is in the index. It is *linked* when, besides, a parent always stands in an earlier
row than its children. Reading flowcharts and adding siblings make no other tables, and the
order of the rows rules out rings: in a linked table a forest grows below every list of nodes,
and it names every node at most once.

## Main definitions

* `Forest`, with `Forest.roots`, `Forest.preorder` and `Forest.height`.
* `Arena.Grows` — a forest grows in a table.
* `Arena.Wired` — the links and the index of a table are in order.
* `Arena.Linked` — besides, parents stand before their children.
* `Arena.Climbs` — the links to parents lead from one node up to another.

## Main results

* `Arena.visit_of_grows` — the stack visits a forest in the order of the recursion.
* `Arena.Linked.exists_grows` — below any nodes of a linked table a forest grows.
* `Arena.Linked.nodup_preorder` — no node occurs twice in the forest below the children of
  one node.
-/

namespace Ladybug

/-! ### Forests -/

/-- Trees side by side: the first one is its root `i` with the forest below it. -/
inductive Forest where
  | nil
  | cons (i : NodeIdx) (below rest : Forest)

namespace Forest

/-- The roots of the trees, from left to right. -/
def roots : Forest → List NodeIdx
  | nil => []
  | cons i _ rest => i :: rest.roots

/-- All nodes, each before those below it, and from left to right. -/
def preorder : Forest → List NodeIdx
  | nil => []
  | cons i below rest => i :: (below.preorder ++ rest.preorder)

/-- The number of nodes on the longest way down. -/
def height : Forest → Nat
  | nil => 0
  | cons _ below rest => max (below.height + 1) rest.height

/-- A single tree is its root with everything below it. -/
theorem preorder_tree (i : NodeIdx) (below : Forest) :
    (cons i below nil).preorder = i :: below.preorder := by
  rw [preorder, preorder, List.append_nil]

/-- No way down is longer than the number of nodes. -/
theorem height_le_length (f : Forest) : f.height ≤ f.preorder.length := by
  induction f with
  | nil => exact Nat.le_refl 0
  | cons i below rest ihBelow ihRest =>
      simp only [height, preorder, List.length_cons, List.length_append]
      omega

/-- The roots are among the nodes. -/
theorem mem_preorder_of_mem_roots {f : Forest} {i : NodeIdx} (h : i ∈ f.roots) :
    i ∈ f.preorder := by
  induction f with
  | nil => exact h
  | cons j below rest _ ihRest =>
      rcases List.mem_cons.mp h with rfl | h
      · exact List.mem_cons_self
      · exact List.mem_cons_of_mem j (List.mem_append_right _ (ihRest h))

end Forest

namespace Arena

/-! ### Growing in a table -/

/-- The children of each node of the forest are the roots of the forest below it. -/
def Grows (t : Arena) : Forest → Prop
  | .nil => True
  | .cons i below rest => t.children i = below.roots ∧ t.Grows below ∧ t.Grows rest

/-- The stack visits a forest in the order of the recursion, and then what was below it on
the stack. -/
theorem visit_of_grows {t : Arena} {f : Forest} (h : t.Grows f) (stack : List NodeIdx)
    (fuel : Nat) :
    t.visit (f.preorder.length + fuel) (f.roots ++ stack) = f.preorder ++ t.visit fuel stack := by
  induction f generalizing stack fuel with
  | nil => simp [Forest.preorder, Forest.roots]
  | cons i below rest ihBelow ihRest =>
      obtain ⟨hi, hbelow, hrest⟩ := h
      have hfuel : (Forest.cons i below rest).preorder.length + fuel =
          below.preorder.length + (rest.preorder.length + fuel) + 1 := by
        simp only [Forest.preorder, List.length_cons, List.length_append]
        omega
      rw [hfuel, Forest.roots, List.cons_append, visit, hi, ihBelow hbelow, ihRest hrest,
        Forest.preorder, List.cons_append, List.append_assoc]

/-- An empty stack has nothing to visit. -/
@[simp] theorem visit_nil (t : Arena) (fuel : Nat) : t.visit fuel [] = [] := by
  cases fuel <;> rfl

/-- What lies below a node is the tree that grows there, provided it has no more nodes than
the table. -/
theorem preorderFrom_of_grows {t : Arena} {i : NodeIdx} {f : Forest} (h : t.Grows f)
    (hroots : f.roots = [i]) (hlen : f.preorder.length ≤ t.size) :
    t.preorderFrom i = f.preorder := by
  obtain ⟨fuel, hfuel⟩ := Nat.exists_eq_add_of_le hlen
  have hvisit := visit_of_grows h [] fuel
  rwa [hroots, List.append_nil, visit_nil, List.append_nil, ← hfuel] at hvisit

/-- What lies below a node is the node and the forest that grows there. -/
theorem preorderFrom_tree {t : Arena} {i : NodeIdx} {below : Forest}
    (hi : t.children i = below.roots) (hbelow : t.Grows below)
    (hlen : (i :: below.preorder).length ≤ t.size) :
    t.preorderFrom i = i :: below.preorder := by
  rw [← Forest.preorder_tree] at hlen ⊢
  exact preorderFrom_of_grows ⟨hi, hbelow, trivial⟩ rfl hlen

/-- Growing depends only on the children of the nodes of the forest. -/
theorem Grows.congr_of_mem {t u : Arena} {f : Forest} (h : t.Grows f)
    (hchildren : ∀ i ∈ f.preorder, u.children i = t.children i) : u.Grows f := by
  induction f with
  | nil => trivial
  | cons i below rest ihBelow ihRest =>
      obtain ⟨hi, hmem⟩ := List.forall_mem_cons.mp hchildren
      obtain ⟨hbelow, hrest⟩ := List.forall_mem_append.mp hmem
      exact ⟨hi.trans h.1, ihBelow h.2.1 hbelow, ihRest h.2.2 hrest⟩

/-- In tables with the same children the same forests grow. -/
theorem Grows.congr {t u : Arena} {f : Forest} (h : t.Grows f)
    (hchildren : ∀ i, u.children i = t.children i) : u.Grows f :=
  h.congr_of_mem fun i _ => hchildren i

/-- If a tree grows below each of the roots, they grow side by side. -/
theorem exists_grows_of_forall {t : Arena} {is : List NodeIdx}
    (h : ∀ i ∈ is, ∃ below : Forest, below.roots = t.children i ∧ t.Grows below) :
    ∃ f : Forest, f.roots = is ∧ t.Grows f := by
  induction is with
  | nil => exact ⟨.nil, rfl, trivial⟩
  | cons i is ih =>
      obtain ⟨below, hbelow, hgrows⟩ := h i List.mem_cons_self
      obtain ⟨rest, hrest, hgrows'⟩ := ih fun j hj => h j (List.mem_cons_of_mem i hj)
      exact ⟨.cons i below rest, by rw [Forest.roots, hrest], hbelow.symm, hgrows, hgrows'⟩

/-! ### Wired tables -/

/-- The links and the index of a table are in order. -/
structure Wired (t : Arena) : Prop where
  /-- The links to parents and to children are the same links. -/
  parent?_iff : ∀ i j, t.parent? j = some i ↔ j ∈ t.children i
  /-- No child is linked twice. -/
  nodup : ∀ i, (t.children i).Nodup
  /-- Only composites have children. -/
  composite : ∀ i, t.children i ≠ [] → (t.kind i).isComposite
  /-- The index has every name with its row, and nothing else. -/
  lookup?_iff : ∀ id i, t.lookup? id = some i ↔ i < t.size ∧ t.id i = id

/-- The links to parents lead from the first node up to the second. -/
def Climbs (t : Arena) : NodeIdx → NodeIdx → Prop :=
  Relation.ReflTransGen fun i p => t.parent? i = some p

/-- What stands behind the last row has no links. -/
theorem node_of_size_le {t : Arena} {i : NodeIdx} (h : t.size ≤ i) : t.node i = default := by
  rw [node, Array.getElem?_eq_none h, Option.getD_none]

/-- Only the rows of the table have a parent. -/
theorem lt_size_of_parent? {t : Arena} {i p : NodeIdx} (h : t.parent? i = some p) :
    i < t.size := by
  by_contra hi
  rw [parent?, node_of_size_le (Nat.le_of_not_lt hi)] at h
  cases h

/-- Only the rows of the table have children. -/
theorem lt_size_of_mem_children {t : Arena} {i j : NodeIdx} (h : j ∈ t.children i) :
    i < t.size := by
  by_contra hi
  rw [children, node_of_size_le (Nat.le_of_not_lt hi)] at h
  cases h

/-- A node has one parent, so of two nodes above it one is above the other. -/
theorem Climbs.total {t : Arena} {i j k : NodeIdx} (hj : t.Climbs i j) (hk : t.Climbs i k) :
    t.Climbs j k ∨ t.Climbs k j := by
  refine Relation.ReflTransGen.total_of_right_unique ?_ hj hk
  intro i p q hp hq
  exact Option.some.inj (hp.symm.trans hq)

namespace Wired

variable {t : Arena}

/-- The children of a node are rows of the table. -/
theorem child_lt_size (h : t.Wired) {i j : NodeIdx} (hj : j ∈ t.children i) : j < t.size :=
  lt_size_of_parent? ((h.parent?_iff i j).mpr hj)

/-- The nodes of a forest are those that climb to one of its roots. -/
theorem mem_preorder_iff (h : t.Wired) {f : Forest} (hf : t.Grows f) {j : NodeIdx} :
    j ∈ f.preorder ↔ ∃ i ∈ f.roots, t.Climbs j i := by
  induction f with
  | nil => simp [Forest.preorder, Forest.roots]
  | cons k below rest ihBelow ihRest =>
      obtain ⟨hk, hbelow, hrest⟩ := hf
      simp only [Forest.preorder, Forest.roots, List.mem_cons, List.mem_append,
        ihBelow hbelow, ihRest hrest, ← hk]
      constructor
      · rintro (rfl | ⟨i, hi, hji⟩ | ⟨i, hi, hji⟩)
        · exact ⟨j, .inl rfl, .refl⟩
        · exact ⟨k, .inl rfl, hji.tail ((h.parent?_iff k i).mpr hi)⟩
        · exact ⟨i, .inr hi, hji⟩
      · rintro ⟨i, rfl | hi, hji⟩
        · rcases Relation.ReflTransGen.cases_tail hji with rfl | ⟨c, hjc, hc⟩
          · exact .inl rfl
          · exact .inr (.inl ⟨c, (h.parent?_iff i c).mp hc, hjc⟩)
        · exact .inr (.inr ⟨i, hi, hji⟩)

/-- The nodes of a tree are those that climb to its root. -/
theorem mem_tree_iff (h : t.Wired) {i : NodeIdx} {below : Forest}
    (hi : t.children i = below.roots) (hbelow : t.Grows below) {j : NodeIdx} :
    j ∈ i :: below.preorder ↔ t.Climbs j i := by
  have htree : t.Grows (.cons i below .nil) := ⟨hi, hbelow, trivial⟩
  rw [← Forest.preorder_tree, h.mem_preorder_iff htree]
  exact ⟨fun ⟨r, hr, hjr⟩ => List.mem_singleton.mp hr ▸ hjr,
    fun hji => ⟨i, List.mem_singleton_self i, hji⟩⟩

/-- A forest has the children of its nodes. -/
theorem mem_preorder_of_mem_children (h : t.Wired) {f : Forest} (hf : t.Grows f) {p c : NodeIdx}
    (hp : p ∈ f.preorder) (hc : c ∈ t.children p) : c ∈ f.preorder := by
  obtain ⟨i, hi, hclimb⟩ := (h.mem_preorder_iff hf).mp hp
  exact (h.mem_preorder_iff hf).mpr ⟨i, hi, hclimb.head ((h.parent?_iff p c).mpr hc)⟩

/-- If no ring goes through a node, its children do not climb to each other. -/
theorem eq_of_climbs_sibling (h : t.Wired) {p i j : NodeIdx}
    (hring : ∀ c ∈ t.children p, ¬ t.Climbs p c) (hi : i ∈ t.children p)
    (hj : j ∈ t.children p) (hij : t.Climbs i j) : i = j := by
  rcases Relation.ReflTransGen.cases_head hij with rfl | ⟨q, hq, hqj⟩
  · rfl
  · obtain rfl := Option.some.inj (hq.symm.trans ((h.parent?_iff p i).mpr hi))
    exact absurd hqj (hring j hj)

/-- No node occurs twice in a forest without rings none of whose roots climbs to another. -/
theorem nodup_preorder_of_apart (h : t.Wired) {f : Forest} (hf : t.Grows f)
    (hrings : ∀ i ∈ f.preorder, ∀ c ∈ t.children i, ¬ t.Climbs i c)
    (hapart : f.roots.Pairwise fun i j => ¬ t.Climbs i j ∧ ¬ t.Climbs j i) :
    f.preorder.Nodup := by
  induction f with
  | nil => exact List.nodup_nil
  | cons i below rest ihBelow ihRest =>
      obtain ⟨hi, hbelow, hrest⟩ := hf
      obtain ⟨hring, hrings⟩ := List.forall_mem_cons.mp hrings
      obtain ⟨hringsBelow, hringsRest⟩ := List.forall_mem_append.mp hrings
      obtain ⟨hhead, htail⟩ := List.pairwise_cons.mp hapart
      have hbelowNodup : below.preorder.Nodup := by
        refine ihBelow hbelow hringsBelow ?_
        rw [← hi]
        refine (h.nodup i).imp_of_mem ?_
        intro j k hj hk hjk
        exact ⟨fun hc => hjk (h.eq_of_climbs_sibling hring hj hk hc),
          fun hc => hjk (h.eq_of_climbs_sibling hring hk hj hc).symm⟩
      have hclimb : ∀ j ∈ below.preorder, ∃ k ∈ t.children i, t.Climbs j k := by
        intro j hj
        rw [hi]
        exact (h.mem_preorder_iff hbelow).mp hj
      have hdisjoint : ∀ j ∈ rest.preorder, ¬ t.Climbs j i := by
        intro j hj hji
        obtain ⟨k, hk, hjk⟩ := (h.mem_preorder_iff hrest).mp hj
        rcases hji.total hjk with hc | hc
        · exact (hhead k hk).1 hc
        · exact (hhead k hk).2 hc
      rw [Forest.preorder, List.nodup_cons, List.mem_append, List.nodup_append]
      refine ⟨?_, hbelowNodup, ihRest hrest hringsRest htail, ?_⟩
      · rintro (hj | hj)
        · obtain ⟨k, hk, hik⟩ := hclimb i hj
          exact hring k hk hik
        · exact hdisjoint i hj .refl
      · rintro j hj k hk rfl
        obtain ⟨c, hc, hjc⟩ := hclimb j hj
        exact hdisjoint j hk (hjc.tail ((h.parent?_iff i c).mpr hc))

end Wired

/-! ### Linked tables -/

/-- The links and the index of a table are in order, and parents stand before their children. -/
structure Linked (t : Arena) : Prop extends Wired t where
  /-- A parent stands before its children. -/
  lt : ∀ i j : Nat, j ∈ t.children i → i < j

namespace Linked

variable {t : Arena}

/-- Climbing leads to earlier rows. -/
theorem le_of_climbs (h : t.Linked) {i j : Nat} (hij : t.Climbs i j) : j ≤ i := by
  induction hij with
  | refl => exact Nat.le_refl i
  | tail _ hp ih => exact Nat.le_trans (Nat.le_of_lt (h.lt _ _ ((h.parent?_iff _ _).mp hp))) ih

/-- A node does not climb to what stands below it. -/
theorem not_climbs_child (h : t.Linked) {p c : NodeIdx} (hc : c ∈ t.children p) :
    ¬ t.Climbs p c := fun hclimb =>
  absurd (h.lt p c hc) (Nat.not_lt_of_le (h.le_of_climbs hclimb))

/-- A child does not climb to another child of the same node. -/
theorem eq_of_climbs_sibling (h : t.Linked) {p i j : NodeIdx} (hi : i ∈ t.children p)
    (hj : j ∈ t.children p) (hij : t.Climbs i j) : i = j :=
  h.toWired.eq_of_climbs_sibling (fun _ hc => h.not_climbs_child hc) hi hj hij

/-- Below any nodes of a linked table a forest grows. -/
theorem exists_grows (h : t.Linked) (is : List NodeIdx) :
    ∃ f : Forest, f.roots = is ∧ t.Grows f := by
  -- Children stand in later rows, so the induction is on the number of rows behind a node.
  have key : ∀ (n : Nat) (i : NodeIdx), t.size ≤ i + n →
      ∃ below : Forest, below.roots = t.children i ∧ t.Grows below := by
    intro n
    induction n with
    | zero =>
        intro i hi
        have hnode : t.node i = default := node_of_size_le hi
        exact ⟨.nil, by rw [children, hnode]; rfl, trivial⟩
    | succ n ih =>
        intro i hi
        refine exists_grows_of_forall fun j hj => ih j ?_
        have hlt := h.lt i j hj
        omega
  exact exists_grows_of_forall fun i _ => key t.size i (Nat.le_add_left ..)

/-- Below nodes from some row on, no way down is longer than the rows that are left. -/
theorem height_add_le (h : t.Linked) {f : Forest} (hf : t.Grows f) {k : Nat} (hk : k ≤ t.size)
    (hroots : ∀ i : Nat, i ∈ f.roots → k ≤ i ∧ i < t.size) : f.height + k ≤ t.size := by
  induction f generalizing k with
  | nil => rwa [Forest.height, Nat.zero_add]
  | cons i below rest ihBelow ihRest =>
      obtain ⟨hi, hbelow, hrest⟩ := hf
      obtain ⟨hhere, hbeside⟩ := List.forall_mem_cons.mp hroots
      have hdown : below.height + (k + 1) ≤ t.size := by
        refine ihBelow hbelow (by omega) fun j hj => ?_
        have hj' : j ∈ t.children i := hi ▸ hj
        have hlt := h.lt i j hj'
        exact ⟨by omega, h.child_lt_size hj'⟩
      have hright := ihRest hrest hk hbeside
      rw [Forest.height]
      omega

/-- No node occurs twice in a tree. -/
theorem nodup_preorder (h : t.Linked) {i : NodeIdx} {f : Forest} (hf : t.Grows f)
    (hroots : f.roots = [i]) : f.preorder.Nodup := by
  refine h.nodup_preorder_of_apart hf (fun _ _ c hc => h.not_climbs_child hc) ?_
  rw [hroots]
  exact List.pairwise_singleton ..

end Linked

end Arena

end Ladybug
