import Ladybug.Proofs.Outline
import Ladybug.Proofs.WrittenOrder

/-!
# Copies of a tree

A tree that is written and read again has its rows in the order of the text and not where
they were, so nodes are found by their names. After some of the links of a tree have been
read, the new table holds a copy of every node that they declare, and each copy has the
children that the links so far give it. The next link leads from one of these nodes to a
new one. Attaching the new node below the copy of its parent makes one more copy, and it
leaves the others what they were.

## Main definitions

* `Tree.Copy` — a row is the copy of a node, as far as some links go.
* `Tree.CopiedBy` — a table has the copies of the nodes that some links declare.

## Main results

* `Tree.CopiedBy.root` — with no links, a table with the root alone is such a table.
* `Tree.CopiedBy.attach` — one more link makes one more copy.
* `Tree.CopiedBy.exists_twin` — with all links, the copies are twins.
-/

namespace Ladybug

namespace Tree

open Arena Flowchart

/-! ### Single copies -/

/-- A row of the second table has the name and kind of a node of the first, and the children
that some links give it. -/
structure Copy (t : Arena) (done : List (NodeIdx × NodeIdx)) (u : Arena) (i j : NodeIdx) :
    Prop where
  lt : j < u.size
  id_eq : u.id j = t.id i
  kind_eq : u.kind j = t.kind i
  children_eq : (u.children j).map u.id = ((done.filter (·.1 = i)).map Prod.snd).map t.id

section Attach

variable {t u v : Arena} {done : List (NodeIdx × NodeIdx)} {p c q : NodeIdx}
  (hu : u.Linked) (hq : q < u.size)
  (hv : v = u.sprout ⟨t.id c, t.kind c⟩ q (u.children q ++ [u.size]))

include hv

theorem size_of_attached : v.size = u.size + 1 := by
  rw [hv, size_sprout]

include hq

theorem id_of_attached : v.id u.size = t.id c := by
  rw [hv, id_sprout hq, if_pos rfl]

theorem id_of_attached_of_lt {j : NodeIdx} (hj : j < u.size) : v.id j = u.id j := by
  rw [hv, id_sprout hq, if_neg (Nat.ne_of_lt hj)]

include hu

/-- The copies so far stay copies when a new node is attached below the copy of its
parent. -/
theorem Copy.attach (ht : t.Linked) {i j : NodeIdx} (h : Copy t done u i j) (hi : i < t.size)
    (hp : p < t.size) (hid : u.id q = t.id p) : Copy t (done ++ [(p, c)]) v i j := by
  have hids : (u.children j).map v.id = (u.children j).map u.id :=
    List.map_congr_left fun k hk => id_of_attached_of_lt hq hv (hu.child_lt_size hk)
  have hchildren : (v.children j).map v.id =
      (((done ++ [(p, c)]).filter (·.1 = i)).map Prod.snd).map t.id := by
    rw [hv, children_sprout hq, ← hv, List.filter_append, List.map_append, List.map_append,
      ← h.children_eq]
    by_cases hip : i = p
    · subst hip
      obtain rfl := hu.eq_of_id_eq h.lt hq (h.id_eq.trans hid.symm)
      rw [if_pos rfl, List.map_append, hids, List.map_singleton, id_of_attached hq hv]
      simp
    · have hjq : j ≠ q := by
        rintro rfl
        exact hip (ht.eq_of_id_eq hi hp (h.id_eq.symm.trans hid))
      rw [if_neg hjq, hids]
      simp [Ne.symm hip]
  exact
    { lt := by rw [size_of_attached hv]; exact Nat.lt_succ_of_lt h.lt
      id_eq := (id_of_attached_of_lt hq hv h.lt).trans h.id_eq
      kind_eq := by rw [hv, kind_sprout hq, if_neg (Nat.ne_of_lt h.lt), h.kind_eq]
      children_eq := hchildren }

omit hu in
/-- The new node is a copy as long as no link leads from it. -/
theorem Copy.new (hnone : ∀ link ∈ done ++ [(p, c)], link.1 ≠ c) :
    Copy t (done ++ [(p, c)]) v c u.size := by
  have hleaf : u.children u.size = [] := by
    rw [Arena.children, node_of_size_le (Nat.le_refl _)]
    rfl
  have hfilter : (done ++ [(p, c)]).filter (·.1 = c) = [] := by
    rw [List.filter_eq_nil_iff]
    intro link hlink
    rw [decide_eq_true_eq]
    exact hnone link hlink
  exact
    { lt := by rw [size_of_attached hv]; exact Nat.lt_succ_self _
      id_eq := id_of_attached hq hv
      kind_eq := by rw [hv, kind_sprout hq, if_pos rfl]
      children_eq := by
        rw [hfilter, hv, children_sprout hq, if_neg (Nat.ne_of_gt hq), hleaf]
        rfl }

end Attach

/-! ### Whole tables -/

/-- The table has copies of the nodes that some links of a tree declare, and nothing else. -/
structure CopiedBy (t : Tree) (done : List (NodeIdx × NodeIdx)) (u : Arena) : Prop where
  rows : ∀ i ∈ known t.root done, i < t.arena.size
  parents : ∀ link ∈ done, link.1 ∈ known t.root done
  copy : ∀ i ∈ known t.root done, ∃ j, Copy t.arena done u i j
  names : ∀ j < u.size, ∃ i ∈ known t.root done, u.id j = t.arena.id i
  first : 0 < u.size ∧ u.id 0 = t.rootId

namespace CopiedBy

variable {t : Tree} {done : List (NodeIdx × NodeIdx)} {u : Arena}

/-- A node that is not declared yet has no copy. -/
theorem hasNode_eq_false (h : t.CopiedBy done u) (ht : t.arena.Linked) (hu : u.Linked)
    {i : NodeIdx} (hi : i < t.arena.size) (hnew : i ∉ known t.root done) :
    u.hasNode (t.arena.id i) = false := by
  cases hlookup : u.lookup? (t.arena.id i) with
  | none => rw [hasNode, hlookup, Option.isSome_none]
  | some j =>
      obtain ⟨hj, hid⟩ := (hu.lookup?_iff _ _).mp hlookup
      obtain ⟨k, hk, hname⟩ := h.names j hj
      obtain rfl := ht.eq_of_id_eq hi (h.rows k hk) (hid.symm.trans hname)
      exact absurd hk hnew

/-- The root is the first node to be copied. -/
theorem root (hroot : t.root < t.arena.size) :
    t.CopiedBy [] (Arena.empty.push (Node.ofSpec ⟨t.rootId, t.arena.kind t.root⟩ none)) := by
  have hnode : (Arena.empty.push (Node.ofSpec ⟨t.rootId, t.arena.kind t.root⟩ none)).node 0 =
      Node.ofSpec ⟨t.rootId, t.arena.kind t.root⟩ none := (node_push ..).trans (if_pos rfl)
  have hid : (Arena.empty.push (Node.ofSpec ⟨t.rootId, t.arena.kind t.root⟩ none)).id 0 =
      t.rootId := by rw [Arena.id, hnode, Node.ofSpec]
  have honly : ∀ i ∈ known t.root [], i = t.root := fun i hi => List.mem_singleton.mp hi
  exact
    { rows := fun i hi => honly i hi ▸ hroot
      parents := fun _ hmem => by cases hmem
      copy := fun i hi => by
        obtain rfl := honly i hi
        refine ⟨0, Nat.zero_lt_one, hid, ?_, ?_⟩
        · rw [Arena.kind, hnode, Node.ofSpec]
        · rw [Arena.children, hnode, Node.ofSpec]
          rfl
      names := fun j hj => by
        obtain rfl := Nat.lt_one_iff.mp hj
        exact ⟨t.root, List.mem_cons_self, hid⟩
      first := ⟨Nat.zero_lt_one, hid⟩ }

/-- Attaching a new node below the copy of its parent makes one more copy. -/
theorem attach (h : t.CopiedBy done u) (ht : t.arena.Linked) (hu : u.Linked) {p c q : NodeIdx}
    (hp : p ∈ known t.root done) (hc : c < t.arena.size) (hnew : c ∉ known t.root done)
    (hq : q < u.size) (hid : u.id q = t.arena.id p) {v : Arena}
    (hv : v = u.sprout ⟨t.arena.id c, t.arena.kind c⟩ q (u.children q ++ [u.size])) :
    t.CopiedBy (done ++ [(p, c)]) v := by
  have hknown := known_concat t.root done p c
  have hparents : ∀ link ∈ done ++ [(p, c)], link.1 ∈ known t.root done := by
    intro link hlink
    rcases List.mem_append.mp hlink with hlink | hlink
    · exact h.parents link hlink
    · obtain rfl := List.mem_singleton.mp hlink
      exact hp
  refine
    { rows := ?_
      parents := fun link hlink => hknown ▸ List.mem_append_left _ (hparents link hlink)
      copy := ?_
      names := ?_
      first := ?_ } <;> try rw [hknown]
  · intro i hi
    rcases List.mem_append.mp hi with hi | hi
    · exact h.rows i hi
    · obtain rfl := List.mem_singleton.mp hi
      exact hc
  · intro i hi
    rcases List.mem_append.mp hi with hi | hi
    · obtain ⟨j, hj⟩ := h.copy i hi
      exact ⟨j, hj.attach hu hq hv ht (h.rows i hi) (h.rows p hp) hid⟩
    · obtain rfl := List.mem_singleton.mp hi
      exact ⟨u.size, .new hq hv fun link hlink heq => hnew (heq ▸ hparents link hlink)⟩
  · intro j hj
    rw [size_of_attached hv] at hj
    rcases Nat.lt_succ_iff_lt_or_eq.mp hj with hlt | rfl
    · obtain ⟨i, hi, hname⟩ := h.names j hlt
      exact ⟨i, List.mem_append_left _ hi, (id_of_attached_of_lt hq hv hlt).trans hname⟩
    · exact ⟨c, List.mem_append_right _ (List.mem_singleton_self c), id_of_attached hq hv⟩
  · rw [size_of_attached hv, id_of_attached_of_lt hq hv h.first.1]
    exact ⟨Nat.succ_pos _, h.first.2⟩

/-- When all links have been read, every node has its twin. -/
theorem exists_twin (h : t.CopiedBy (links t) u) (ht : t.Sound) {i : NodeIdx}
    (hi : i < t.arena.size) : ∃ j, Twin t.arena u i j := by
  obtain ⟨j, hj⟩ := h.copy i (ht.mem_known_links.mpr hi)
  refine ⟨j, hi, hj.lt, hj.id_eq, hj.kind_eq, ?_⟩
  rw [hj.children_eq, ht.children_links hi]

/-- The first row is then the twin of the root. -/
theorem twin_root (h : t.CopiedBy (links t) u) (ht : t.Sound) (hu : u.Linked) :
    Twin t.arena u t.root 0 := by
  obtain ⟨j, hj⟩ := h.exists_twin ht ht.root_lt
  obtain rfl := hj.eq_right hu h.first.1 h.first.2
  exact hj

/-- Every other row then has a parent. -/
theorem eq_zero_of_parent?_eq_none (h : t.CopiedBy (links t) u) (ht : t.Sound)
    (hu : u.Linked) {j : NodeIdx} (hj : j < u.size) (hparent : u.parent? j = none) : j = 0 := by
  obtain ⟨i, hi, hname⟩ := h.names j hj
  have hlt : i < t.arena.size := h.rows i hi
  cases hp : t.arena.parent? i with
  | none =>
      obtain rfl := (ht.parent?_eq_none_iff i hlt).mp hp
      exact (h.twin_root ht hu).eq_right hu hj hname
  | some p =>
      have hmem : i ∈ t.arena.children p := (ht.linked.parent?_iff p i).mp hp
      obtain ⟨q, hpq⟩ := h.exists_twin ht (lt_size_of_mem_children hmem)
      obtain ⟨k, hk, hid⟩ := hpq.exists_child hmem
      obtain rfl := hu.eq_of_id_eq (hu.child_lt_size hk) hj (hid.trans hname.symm)
      rw [(hu.parent?_iff q k).mpr hk] at hparent
      cases hparent

end CopiedBy

end Tree

end Ladybug
