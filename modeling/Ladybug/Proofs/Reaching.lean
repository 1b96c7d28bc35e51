import Ladybug.Proofs.Links
import Mathlib.Data.Finset.Card

/-!
# What a node reaches

In a table that is only wired, links may form rings, and what goes through the children of a
node, their children and so on may come back to where it was. This does not happen below a node
without a parent: whatever is reached from there climbs back on one way only, which ends at that
node, and a ring has no end. Nor does it happen anywhere in a linked table.

Where no ring lies below a node, a tree grows there, and the order of the table is what a
recursion over the children would make of it: a node, followed by the orders of its children
from left to right. The order has every node that is reached exactly once.

## Main definitions

* `Arena.Reaches` — the links to children lead from one node down to another.
* `Arena.Ringless` — no ring lies below a node.
* `Arena.KeptIn` — a table has the rows of another one, with their names and parents.

## Main results

* `Arena.Wired.ringless_of_root` — no ring lies below a node without a parent.
* `Arena.Wired.exists_tree` — a tree grows where there are no rings.
* `Arena.Wired.preorderFrom_eq` — the order of a table is that of the recursion.
* `Arena.Wired.mem_preorderFrom_iff` — the order has what is reached.
* `Arena.Wired.exists_missed` — the names that are told as out of reach.
* `Arena.KeptIn.unreachableFrom_prefix` — what is out of reach stays so when a table grows.
-/

namespace Ladybug.Arena

/-- The links to children lead from the first node down to the second. -/
def Reaches (t : Arena) : NodeIdx → NodeIdx → Prop :=
  Relation.ReflTransGen fun p c => c ∈ t.children p

/-- No ring lies below the node: nothing there is above itself. -/
def Ringless (t : Arena) (i : NodeIdx) : Prop :=
  ∀ j, t.Climbs j i → ∀ c ∈ t.children j, ¬ t.Climbs j c

variable {t : Arena} {root i j : NodeIdx}

/-- What lies below a node below a node lies below that node as well. -/
theorem Ringless.of_climbs (h : t.Ringless i) (hj : t.Climbs j i) : t.Ringless j :=
  fun k hk => h k (hk.trans hj)

/-- What climbs to a row is a row. -/
theorem lt_size_of_climbs (hlt : i < t.size) (hj : t.Climbs j i) : j < t.size := by
  rcases Relation.ReflTransGen.cases_head hj with rfl | ⟨p, hp, -⟩
  · exact hlt
  · exact lt_size_of_parent? hp

/-- In a linked table there are no rings. -/
theorem Linked.ringless (h : t.Linked) (i : NodeIdx) : t.Ringless i :=
  fun _ _ _ hc => h.not_climbs_child hc

/-- A forest is listed root by root. -/
theorem Grows.preorder_eq_flatMap {f : Forest} (hf : t.Grows f)
    (hle : f.preorder.length ≤ t.size) : f.preorder = f.roots.flatMap t.preorderFrom := by
  induction f with
  | nil => rfl
  | cons k below rest _ ihRest =>
      obtain ⟨hk, hbelow, hrest⟩ := hf
      rw [Forest.preorder, List.length_cons, List.length_append] at hle
      have htree := preorderFrom_tree hk hbelow (by rw [List.length_cons]; omega)
      rw [Forest.preorder, Forest.roots, List.flatMap_cons, htree, ← ihRest hrest (by omega),
        List.cons_append]

namespace Wired

variable (h : t.Wired)

include h

/-- The ways down are the ways up, from the other end. -/
theorem reaches_iff : t.Reaches i j ↔ t.Climbs j i := by
  rw [Reaches, Climbs, ← Relation.reflTransGen_swap]
  simp only [h.parent?_iff]

/-- **No ring lies below a node without a parent.** -/
theorem ringless_of_root (hroot : t.parent? root = none) : t.Ringless root := by
  intro j hj
  -- Climbing from the ring leads around in it, so the node above lies on it too.
  induction hj using Relation.ReflTransGen.head_induction_on with
  | refl =>
      intro c hc hclimb
      rcases Relation.ReflTransGen.cases_head hclimb with rfl | ⟨p, hp, -⟩
      · rw [(h.parent?_iff root root).mpr hc] at hroot
        cases hroot
      · rw [hp] at hroot
        cases hroot
  | @head j p hp _ ih =>
      intro c hc hclimb
      have hchild : j ∈ t.children p := (h.parent?_iff p j).mp hp
      have hup : t.parent? c = some j := (h.parent?_iff j c).mpr hc
      rcases Relation.ReflTransGen.cases_head hclimb with rfl | ⟨q, hq, hqc⟩
      · obtain rfl := Option.some.inj (hp.symm.trans hup)
        exact ih _ hc .refl
      · obtain rfl := Option.some.inj (hp.symm.trans hq)
        exact ih j hchild (hqc.tail hup)

/-- Below a node without rings a forest grows. -/
theorem exists_grows_of_ringless (hring : t.Ringless i) :
    ∃ below : Forest, below.roots = t.children i ∧ t.Grows below := by
  classical
  -- A child has fewer nodes below it, since its parent is not among them.
  have key : ∀ (n : Nat) (i : NodeIdx), t.Ringless i →
      ((Finset.range t.size).filter fun j => t.Climbs j i).card = n →
      ∃ below : Forest, below.roots = t.children i ∧ t.Grows below := by
    intro n
    induction n using Nat.strongRecOn with
    | ind n ih =>
        rintro i hring rfl
        refine exists_grows_of_forall fun c hc => ?_
        have hup : t.Climbs c i := .single ((h.parent?_iff i c).mpr hc)
        have hsub : ((Finset.range t.size).filter fun j => t.Climbs j c) ⊆
            (Finset.range t.size).filter fun j => t.Climbs j i :=
          Finset.monotone_filter_right _ fun j _ hj => hj.trans hup
        refine ih _ (Finset.card_lt_card ?_) c (hring.of_climbs hup) rfl
        refine (Finset.ssubset_iff_of_subset hsub).mpr
          ⟨i, Finset.mem_filter.mpr ⟨?_, .refl⟩, fun hi => ?_⟩
        · exact Finset.mem_range.mpr (lt_size_of_mem_children hc)
        · exact hring i .refl c hc (Finset.mem_filter.mp hi).2
  exact key _ i hring rfl

/-- **Where there are no rings, a tree grows**, which has no row twice. -/
theorem exists_tree (hring : t.Ringless i) (hlt : i < t.size) :
    ∃ below : Forest, t.children i = below.roots ∧ t.Grows below ∧
      (i :: below.preorder).Nodup ∧ (i :: below.preorder).length ≤ t.size := by
  obtain ⟨below, hroots, hgrows⟩ := h.exists_grows_of_ringless hring
  have htree : t.Grows (.cons i below .nil) := ⟨hroots.symm, hgrows, trivial⟩
  have hmem : ∀ j, j ∈ i :: below.preorder → t.Climbs j i := fun j =>
    (h.mem_tree_iff hroots.symm hgrows).mp
  have hnodup : (i :: below.preorder).Nodup := by
    rw [← Forest.preorder_tree] at hmem ⊢
    exact h.nodup_preorder_of_apart htree (fun j hj => hring j (hmem j hj))
      (List.pairwise_singleton ..)
  have hsub : i :: below.preorder ⊆ List.range t.size := fun j hj =>
    List.mem_range.mpr (lt_size_of_climbs hlt (hmem j hj))
  have hle := hnodup.length_le_of_subset hsub
  rw [List.length_range] at hle
  exact ⟨below, hroots.symm, hgrows, hnodup, hle⟩

/-! ### The order below a node -/

/-- The order has what climbs to the node. -/
theorem mem_preorderFrom_iff (hring : t.Ringless i) (hlt : i < t.size) :
    j ∈ t.preorderFrom i ↔ t.Climbs j i := by
  obtain ⟨below, hroots, hgrows, -, hle⟩ := h.exists_tree hring hlt
  rw [preorderFrom_tree hroots hgrows hle]
  exact h.mem_tree_iff hroots hgrows

/-- The order has no node twice. -/
theorem nodup_preorderFrom (hring : t.Ringless i) (hlt : i < t.size) :
    (t.preorderFrom i).Nodup := by
  obtain ⟨below, hroots, hgrows, hnodup, hle⟩ := h.exists_tree hring hlt
  rwa [preorderFrom_tree hroots hgrows hle]

/-- **The order of a table is that of the recursion**: a node, followed by the orders of its
children from left to right. -/
theorem preorderFrom_eq (hring : t.Ringless i) (hlt : i < t.size) :
    t.preorderFrom i = i :: (t.children i).flatMap t.preorderFrom := by
  obtain ⟨below, hroots, hgrows, -, hle⟩ := h.exists_tree hring hlt
  rw [preorderFrom_tree hroots hgrows hle, hroots, hgrows.preorder_eq_flatMap]
  exact Nat.le_of_succ_le hle

/-- The names that are told as out of reach are those of the rows that are not reached, in the
order of the table. -/
theorem exists_missed (hring : t.Ringless i) (hlt : i < t.size) :
    ∃ missed : List Nat, missed.Pairwise (· < ·) ∧
      (∀ j, j ∈ missed ↔ j < t.size ∧ ¬ t.Reaches i j) ∧
      t.unreachableFrom i = missed.map t.id := by
  refine ⟨_, (List.pairwise_lt_range (n := t.size)).filter fun j =>
    !(t.preorderFrom i).contains j, fun j => ?_, rfl⟩
  rw [List.mem_filter, List.mem_range, h.reaches_iff, ← h.mem_preorderFrom_iff hring hlt]
  simp

end Wired

/-! ### Growth -/

/-- The rows of the first table are rows of the second one, with their names and parents. -/
structure KeptIn (t u : Arena) : Prop where
  size_le : t.size ≤ u.size
  id_eq : ∀ i < t.size, u.id i = t.id i
  parent?_eq : ∀ i < t.size, u.parent? i = t.parent? i

namespace KeptIn

variable {u v : Arena}

theorem refl (t : Arena) : t.KeptIn t := ⟨Nat.le_refl _, fun _ _ => rfl, fun _ _ => rfl⟩

theorem trans (h : t.KeptIn u) (h' : u.KeptIn v) : t.KeptIn v where
  size_le := h.size_le.trans h'.size_le
  id_eq i hi := (h'.id_eq i (hi.trans_le h.size_le)).trans (h.id_eq i hi)
  parent?_eq i hi := (h'.parent?_eq i (hi.trans_le h.size_le)).trans (h.parent?_eq i hi)

/-- A new node leaves the rows before it. -/
theorem push (t : Arena) (spec : NodeSpec) : t.KeptIn (t.push (Node.ofSpec spec none)) where
  size_le := by
    rw [size_push]
    exact Nat.le_succ _
  id_eq i hi := by rw [id, node_push, if_neg (Nat.ne_of_lt hi), id]
  parent?_eq i _ := parent?_push t spec i

/-- A new leaf leaves the rows before it. -/
theorem sprout {p : NodeIdx} (hp : p < t.size) (spec : NodeSpec) (siblings : List NodeIdx) :
    t.KeptIn (t.sprout spec p siblings) where
  size_le := by
    rw [size_sprout]
    exact Nat.le_succ _
  id_eq i hi := by rw [id_sprout hp, if_neg (Nat.ne_of_lt hi)]
  parent?_eq i hi := by rw [parent?_sprout hp, if_neg (Nat.ne_of_lt hi)]

/-- The rows climb as before. -/
theorem climbs_iff (h : t.KeptIn u) (ht : t.Wired) (hi : i < t.size) :
    u.Climbs i root ↔ t.Climbs i root := by
  constructor
  · intro hclimb
    induction hclimb using Relation.ReflTransGen.head_induction_on with
    | refl => exact .refl
    | @head j p hp _ ih =>
        rw [h.parent?_eq j hi] at hp
        exact (ih (lt_size_of_mem_children ((ht.parent?_iff p j).mp hp))).head hp
  · intro hclimb
    induction hclimb using Relation.ReflTransGen.head_induction_on with
    | refl => exact .refl
    | @head j p hp _ ih =>
        have hlt := lt_size_of_mem_children ((ht.parent?_iff p j).mp hp)
        exact (ih hlt).head ((h.parent?_eq j hi).trans hp)

/-- **What is out of reach stays so when a table grows**, and whatever else comes to be out of
reach is told behind it. -/
theorem unreachableFrom_prefix (h : t.KeptIn u) (ht : t.Linked) (hu : u.Linked)
    (hlt : root < t.size) : t.unreachableFrom root <+: u.unreachableFrom root := by
  obtain ⟨more, hmore⟩ := Nat.exists_eq_add_of_le h.size_le
  have hsame : ∀ i ∈ List.range t.size,
      (!(u.preorderFrom root).contains i) = !(t.preorderFrom root).contains i := by
    intro i hi
    have hmem : i ∈ u.preorderFrom root ↔ i ∈ t.preorderFrom root := by
      rw [hu.mem_preorderFrom_iff (hu.ringless root) (hlt.trans_le h.size_le),
        ht.mem_preorderFrom_iff (ht.ringless root) hlt,
        h.climbs_iff ht.toWired (List.mem_range.mp hi)]
    simpa using hmem
  rw [unreachableFrom, unreachableFrom, hmore, List.range_add, List.filter_append,
    List.map_append, List.filter_congr hsame]
  have hnames : ∀ i ∈ (List.range t.size).filter fun i => !(t.preorderFrom root).contains i,
      u.id i = t.id i := fun i hi => h.id_eq i (List.mem_range.mp (List.mem_of_mem_filter hi))
  rw [List.map_congr_left hnames]
  exact List.prefix_append ..

end KeptIn

end Ladybug.Arena
