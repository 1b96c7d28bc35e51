import Ladybug.Proofs.Resuming
import Ladybug.Proofs.RoundTrip
import Ladybug.Proofs.Transcripts

/-!
# Starting over is reading again

There are two ways of starting a tree over: to reset it, or to write it down and read its text.
The tree that is read has its nodes in the order of the text, while siblings that were added to
the old one stand at the end of its table, so the two have the same nodes in different rows.
Names tell which row of one table stands for which row of the other. As long as no node of either
has been entered, all the rest is the same, and from then on nobody can tell the one tree from
the other.

## Main definitions

* `Arena.namesake` — the row that a node has in another table, by its name.

## Main results

* `Tree.Resembles.renumbers` — fresh trees that resemble each other differ in their rows only.
* `Tree.Reachable.reset_eq_reread` — a tree that was reset behaves like the one that is read from
  its text.
-/

namespace Ladybug

namespace Arena

/-- The row of the node with the same name in another table. Rows without a node stay as they
are. -/
def namesake (t u : Arena) (i : NodeIdx) : NodeIdx :=
  if i < t.size then (u.lookup? (t.id i)).getD i else i

variable {t t' u : Arena} {i j : NodeIdx}

/-- Statuses do not matter to twins. -/
theorem Twin.of_shape (h : Twin t u i j) (hshape : t'.shape = t.shape) : Twin t' u i j where
  left_lt := size_of_shape hshape ▸ h.left_lt
  right_lt := h.right_lt
  id_eq := h.id_eq.trans (id_of_shape hshape i).symm
  kind_eq := h.kind_eq.trans (kind_of_shape hshape i).symm
  children_eq := by
    rw [h.children_eq, children_of_shape hshape]
    exact List.map_congr_left fun c _ => (id_of_shape hshape c).symm

/-- The twin of a node is its namesake. -/
theorem Twin.eq_namesake (hu : u.Linked) (h : Twin t u i j) : j = t.namesake u i := by
  rw [namesake, if_pos h.left_lt, (hu.lookup?_iff _ _).mpr ⟨h.right_lt, h.id_eq⟩]
  rfl

/-- Rows without a node stay as they are. -/
theorem namesake_of_size_le (h : t.size ≤ i) : t.namesake u i = i :=
  if_neg (Nat.not_lt_of_le h)

/-- Lists of twins are lists of namesakes. -/
theorem map_namesake (hu : u.Linked) {is js : List NodeIdx} (h : List.Forall₂ (Twin t u) is js) :
    js = is.map (t.namesake u) := by
  induction h with
  | nil => rfl
  | cons hij _ ih => rw [List.map_cons, ← hij.eq_namesake hu, ← ih]

end Arena

namespace Tree

open Arena

namespace Resembles

variable {t u : Tree} (h : t.Resembles u)

include h

/-- A tree that was reset resembles the same trees as before. -/
theorem reset : t.reset.Resembles u where
  left := h.left.reset
  right := h.right
  root := h.root.of_shape (shape_resetFrom ..)
  twin i hi := by
    have hshape : t.reset.arena.shape = t.arena.shape := shape_resetFrom ..
    obtain ⟨j, hij⟩ := h.twin i (size_of_shape hshape ▸ hi)
    exact ⟨j, hij.of_shape hshape⟩

/-! ### Namesakes -/

/-- Every node is the twin of its namesake. -/
theorem twin_namesake {i : NodeIdx} (hi : i < t.arena.size) :
    Twin t.arena u.arena i (t.arena.namesake u.arena i) := by
  obtain ⟨j, hij⟩ := h.twin i hi
  exact hij.eq_namesake h.right.linked ▸ hij

/-- The trees have the same number of nodes. -/
theorem size_eq : u.arena.size = t.arena.size := by
  have hleft := h.left.preorder_perm.length_eq
  have hright := h.right.preorder_perm.length_eq
  rw [List.length_range] at hleft hright
  rw [← hleft, ← hright, h.preorder.length_eq]

/-- Only nodes have nodes for namesakes. -/
theorem namesake_lt_iff (i : NodeIdx) : t.arena.namesake u.arena i < t.arena.size ↔
    i < t.arena.size := by
  by_cases hi : i < t.arena.size
  · exact iff_of_true (h.size_eq ▸ (h.twin_namesake hi).right_lt) hi
  · rw [namesake_of_size_le (Nat.le_of_not_lt hi)]

/-- No two rows have the same namesake. -/
theorem injective_namesake : Function.Injective (t.arena.namesake u.arena) := by
  intro i j hij
  have hlt : i < t.arena.size ↔ j < t.arena.size := by
    rw [← h.namesake_lt_iff i, hij, h.namesake_lt_iff j]
  by_cases hi : i < t.arena.size
  · have hj := hlt.mp hi
    refine h.left.linked.eq_of_id_eq hi hj ?_
    rw [← (h.twin_namesake hi).id_eq, hij, (h.twin_namesake hj).id_eq]
  · have hj : ¬ j < t.arena.size := mt hlt.mpr hi
    rwa [namesake_of_size_le (Nat.le_of_not_lt hi), namesake_of_size_le (Nat.le_of_not_lt hj)]
      at hij

/-- The parent of a namesake is the namesake of the parent. -/
theorem parent?_namesake {i : NodeIdx} (hi : i < t.arena.size) :
    u.arena.parent? (t.arena.namesake u.arena i) =
      (t.arena.parent? i).map (t.arena.namesake u.arena) := by
  have hparent := h.parent_eq (h.twin_namesake hi)
  cases hp : t.arena.parent? i with
  | none =>
      rw [hp] at hparent
      exact Option.map_eq_none_iff.mp hparent
  | some p =>
      rw [hp] at hparent
      obtain ⟨q, hq, hid⟩ := Option.map_eq_some_iff.mp hparent
      have hp' := lt_size_of_mem_children ((h.left.linked.parent?_iff p i).mp hp)
      have hq' := lt_size_of_mem_children ((h.right.linked.parent?_iff q _).mp hq)
      rw [hq, (h.twin_namesake hp').eq_right h.right.linked hq' hid]
      rfl

/-- In fresh trees, a node and its namesake differ in the rows of their links only. -/
theorem node_namesake (hleft : t.Fresh) (hright : u.Fresh) (i : NodeIdx) :
    u.arena.node (t.arena.namesake u.arena i) =
      (t.arena.node i).renumber (t.arena.namesake u.arena) := by
  by_cases hi : i < t.arena.size
  · have htwin := h.twin_namesake hi
    have hchildren := map_namesake h.right.linked
      (htwin.children h.left.linked h.right.linked h.twin)
    have hstatus := (hright (t.arena.namesake u.arena i)).trans (hleft i).symm
    calc u.arena.node (t.arena.namesake u.arena i)
        = ⟨u.arena.id _, u.arena.kind _, u.arena.parent? _, u.arena.children _,
            u.arena.status _⟩ := rfl
      _ = (t.arena.node i).renumber (t.arena.namesake u.arena) := by
          rw [htwin.id_eq, htwin.kind_eq, h.parent?_namesake hi, hchildren, hstatus]
          rfl
  · have hi' := Nat.le_of_not_lt hi
    rw [namesake_of_size_le hi', node_of_size_le hi', node_of_size_le (h.size_eq ▸ hi')]
    rfl

/-- A name is found in both indexes or in none of them. -/
theorem lookup?_namesake (id : String) :
    u.arena.lookup? id = (t.arena.lookup? id).map (t.arena.namesake u.arena) := by
  cases hlookup : t.arena.lookup? id with
  | some i =>
      obtain ⟨hi, hid⟩ := (h.left.linked.lookup?_iff id i).mp hlookup
      have htwin := h.twin_namesake hi
      exact (h.right.linked.lookup?_iff id _).mpr ⟨htwin.right_lt, htwin.id_eq.trans hid⟩
  | none =>
      -- Every node of the second tree is a namesake, as the orders of the trees have all nodes.
      refine Option.eq_none_iff_forall_ne_some.mpr fun j hj => ?_
      obtain ⟨hj, hid⟩ := (h.right.linked.lookup?_iff id j).mp hj
      have hmem : j ∈ u.preorder := h.right.preorder_perm.mem_iff.mpr (List.mem_range.mpr hj)
      rw [map_namesake h.right.linked h.preorder] at hmem
      obtain ⟨i, hi, rfl⟩ := List.mem_map.mp hmem
      have hi' := List.mem_range.mp (h.left.preorder_perm.mem_iff.mp hi)
      have hfound := (h.left.linked.lookup?_iff id i).mpr
        ⟨hi', (h.twin_namesake hi').id_eq.symm.trans hid⟩
      cases hlookup.symm.trans hfound

/-- **Fresh trees that resemble each other differ in their rows only.** -/
theorem renumbers (hleft : t.Fresh) (hright : u.Fresh) :
    t.arena.Renumbers (t.arena.namesake u.arena) u.arena where
  injective := h.injective_namesake
  size := h.size_eq
  beyond _ hi := namesake_of_size_le hi
  node := h.node_namesake hleft hright
  lookup? := h.lookup?_namesake

end Resembles

end Tree

/-- A tree that was just read is about to begin at its root. -/
theorem Flowchart.begins_of_readTrees {lines : List String} {ladybugs : Nat} {trees : List Tree}
    (h : readTrees lines ladybugs = .ok trees) {t : Tree} (ht : t ∈ trees) :
    t.current = t.root ∧ t.jumped = false := by
  refine forall_of_readTrees (P := fun _ => True)
    (Q := fun t => t.current = t.root ∧ t.jumped = false) (fun _ => trivial)
    (fun _ _ _ _ _ => trivial) (fun b u _ hclose => ?_) h t ht
  obtain ⟨root, -, -, -, rfl⟩ := Block.close_eq_ok hclose
  exact ⟨rfl, rfl⟩

namespace Tree

/-- **To reset a tree is to read it again.** If the new nodes of a reachable tree have been read,
its text is read as one tree, however many ladybugs there are. That tree and the old one, once it
was reset, show the same, and they go on doing so: whatever turns, jumps, resets and new siblings
come next, both of them tell the same each time, with the same world and the same records of a
turn, and they show the same after it. -/
theorem Reachable.reset_eq_reread {t : Tree}
    (h : t.Reachable fun spec => ∃ text, Flowchart.readNode text = .ok spec) {ladybugs : Nat}
    (hladybugs : 1 ≤ ladybugs) :
    ∃ u, Flowchart.readTrees ((Text.lines (Flowchart.treeText t).toList).map String.ofList)
        ladybugs = .ok [u] ∧
      u.appearance = t.reset.appearance ∧ ∀ ops, u.transcript ops = t.reset.transcript ops := by
  have hlegible : t.Legible := by
    refine h.legible fun spec hspec => ?_
    obtain ⟨text, htext⟩ := hspec
    exact Flowchart.legible_of_readNode htext
  obtain ⟨u, hread, hu⟩ := Flowchart.exists_readTrees_treeLines h.sound hlegible hladybugs
  obtain ⟨hcurrent, hjumped⟩ := Flowchart.begins_of_readTrees hread (List.mem_singleton_self u)
  -- Nothing has been entered in either tree, so that they differ in their rows only.
  have hroot := hu.reset.root.eq_namesake hu.right.linked
  have hfresh := Flowchart.fresh_of_readTrees hread (List.mem_singleton_self u)
  have hrows : t.reset.Renumbers (t.reset.arena.namesake u.arena) u :=
    ⟨hu.reset.renumbers h.sound.fresh_reset hfresh, hroot, hcurrent.trans hroot, hjumped⟩
  exact ⟨u, by rw [Flowchart.lines_treeText h.sound hlegible, hread], hrows.appearance_eq,
    hrows.transcript_eq⟩

/-- In a tree that has grown, the new node stands in the last row and is the third one in the
text. -/
theorem reset_eq_reread_grown : ∃ t : Tree, ∃ spec,
    Flowchart.readTrees ["flowchart TD", "A[->] --> B[move]", "A --> C[?]", "C --> D[turnLeft]"]
      1 = .ok [t] ∧
    Flowchart.readNode "E[turnRight]" = .ok spec ∧
    ∃ u, Flowchart.readTrees ((Text.lines (Flowchart.treeText
        ((t.after (.jumpTo "D")).after (.addSibling "B" spec))).toList).map String.ofList) 1 =
          .ok [u] ∧
      u.appearance = ((t.after (.jumpTo "D")).after (.addSibling "B" spec)).reset.appearance ∧
      ∀ ops, u.transcript ops =
        ((t.after (.jumpTo "D")).after (.addSibling "B" spec)).reset.transcript ops := by
  obtain ⟨t, ht⟩ : ∃ t, Flowchart.readTrees
      ["flowchart TD", "A[->] --> B[move]", "A --> C[?]", "C --> D[turnLeft]"] 1 = .ok [t] :=
    ⟨_, rfl⟩
  obtain ⟨spec, hspec⟩ : ∃ spec, Flowchart.readNode "E[turnRight]" = .ok spec := ⟨_, rfl⟩
  have hread : t.Reachable fun spec => ∃ text, Flowchart.readNode text = .ok spec :=
    .read ht (List.mem_singleton_self t)
  have hjumped : (t.after (.jumpTo "D")).Reachable fun spec =>
    ∃ text, Flowchart.readNode text = .ok spec := .after hread trivial
  have hgrown : ((t.after (.jumpTo "D")).after (.addSibling "B" spec)).Reachable fun spec =>
    ∃ text, Flowchart.readNode text = .ok spec := .after hjumped ⟨_, hspec⟩
  exact ⟨t, spec, ht, hspec, Reachable.reset_eq_reread hgrown (by decide)⟩

end Tree

end Ladybug
