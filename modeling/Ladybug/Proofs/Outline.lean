import Ladybug.Flowchart.Printer
import Ladybug.Proofs.Sound
import Mathlib.Data.List.Forall2

/-!
# Trees of one outline

What a flowchart says of a node is its outline: the name, the kind, and the names of the
parent and the children. Rows do not occur in it, so trees with different tables can have
the same outlines in the same order. Names are unique, so it is the names that tell which
node of one tree stands for which node of the other: two nodes are *twins* if they agree in
name and kind and in the names of their children. If every node has a twin, the two trees
are written alike.

## Main definitions

* `Arena.outline` — what a flowchart says of a node.
* `Arena.Twin` — two nodes that stand for each other.
* `Tree.Resembles` — every node of a tree has a twin in another.

## Main results

* `Tree.Resembles.outlines_eq` — such trees have the same outlines, in the same order.
* `Tree.Resembles.treeText_eq` — they are written as the same text.
-/

namespace Ladybug

/-- What a flowchart says of a node. -/
structure Outline where
  id : String
  kind : NodeKind
  parent : Option String
  children : List String
deriving DecidableEq

namespace Arena

/-- The outline of a node. -/
def outline (t : Arena) (i : NodeIdx) : Outline where
  id := t.id i
  kind := t.kind i
  parent := (t.parent? i).map t.id
  children := (t.children i).map t.id

/-- Only one row has a name. -/
theorem Linked.eq_of_id_eq {t : Arena} (h : t.Linked) {i j : NodeIdx} (hi : i < t.size)
    (hj : j < t.size) (hid : t.id i = t.id j) : i = j := by
  have hfirst := (h.lookup?_iff (t.id j) i).mpr ⟨hi, hid⟩
  have hsecond := (h.lookup?_iff (t.id j) j).mpr ⟨hj, rfl⟩
  exact Option.some.inj (hfirst.symm.trans hsecond)

/-! ### Twins -/

/-- A node of one table and a node of another agree in what is below a header. -/
structure Twin (t u : Arena) (i j : NodeIdx) : Prop where
  left_lt : i < t.size
  right_lt : j < u.size
  id_eq : u.id j = t.id i
  kind_eq : u.kind j = t.kind i
  children_eq : (u.children j).map u.id = (t.children i).map t.id

variable {t u : Arena}

/-- A row that has the name of a node is its twin, if there is one. -/
theorem Twin.eq_right (hu : u.Linked) {i j k : NodeIdx} (h : Twin t u i j) (hk : k < u.size)
    (hid : u.id k = t.id i) : k = j :=
  hu.eq_of_id_eq hk h.right_lt (hid.trans h.id_eq.symm)

/-- Every child of a node has a namesake below the twin of the node. -/
theorem Twin.exists_child {i j c : NodeIdx} (h : Twin t u i j) (hc : c ∈ t.children i) :
    ∃ d ∈ u.children j, u.id d = t.id c := by
  have hname : t.id c ∈ (u.children j).map u.id := h.children_eq ▸ List.mem_map_of_mem hc
  exact List.mem_map.mp hname

/-- Rows of the same names are twins one by one, if every node has a twin. -/
theorem forall₂_twin (hu : u.Linked) (htwin : ∀ i < t.size, ∃ j, Twin t u i j)
    {is js : List NodeIdx} (his : ∀ i ∈ is, i < t.size) (hjs : ∀ j ∈ js, j < u.size)
    (hnames : js.map u.id = is.map t.id) : List.Forall₂ (Twin t u) is js := by
  induction is generalizing js with
  | nil =>
      obtain rfl := List.map_eq_nil_iff.mp hnames
      exact .nil
  | cons i is ih =>
      obtain ⟨j, js', rfl, hid, hrest⟩ := List.map_eq_cons_iff.mp hnames
      obtain ⟨hi, his⟩ := List.forall_mem_cons.mp his
      obtain ⟨hj, hjs⟩ := List.forall_mem_cons.mp hjs
      obtain ⟨k, hk⟩ := htwin i hi
      obtain rfl := hk.eq_right hu hj hid
      exact .cons hk (ih his hjs hrest)

/-- The children of twins are twins. -/
theorem Twin.children (ht : t.Linked) (hu : u.Linked)
    (htwin : ∀ i < t.size, ∃ j, Twin t u i j) {i j : NodeIdx} (h : Twin t u i j) :
    List.Forall₂ (Twin t u) (t.children i) (u.children j) :=
  forall₂_twin hu htwin (fun _ hc => ht.child_lt_size hc) (fun _ hc => hu.child_lt_size hc)
    h.children_eq

/-- Forests whose roots are twins have twins all the way down. -/
theorem Grows.twins (ht : t.Linked) (hu : u.Linked) (htwin : ∀ i < t.size, ∃ j, Twin t u i j)
    {f g : Forest} (hf : t.Grows f) (hg : u.Grows g)
    (hroots : List.Forall₂ (Twin t u) f.roots g.roots) :
    List.Forall₂ (Twin t u) f.preorder g.preorder := by
  induction f generalizing g with
  | nil =>
      cases g with
      | nil => exact .nil
      | cons => cases hroots
  | cons i below rest ihBelow ihRest =>
      cases g with
      | nil => cases hroots
      | cons j below' rest' =>
          obtain ⟨hi, hbelow, hrest⟩ := hf
          obtain ⟨hj, hbelow', hrest'⟩ := hg
          obtain ⟨hij, hroots⟩ := List.forall₂_cons.mp hroots
          have hchildren := hij.children ht hu htwin
          rw [hi, hj] at hchildren
          exact .cons hij
            (List.rel_append (ihBelow hbelow hbelow' hchildren) (ihRest hrest hrest' hroots))

end Arena

namespace Tree

open Arena

/-! ### Whole trees -/

/-- The outlines of the nodes of a tree, in its order. -/
def outlines (t : Tree) : List Outline := t.preorder.map t.arena.outline

/-- Every node of a tree has a twin in another, and the roots are twins. -/
structure Resembles (t u : Tree) : Prop where
  left : t.Sound
  right : u.Sound
  root : Twin t.arena u.arena t.root u.root
  twin : ∀ i < t.arena.size, ∃ j, Twin t.arena u.arena i j

namespace Resembles

variable {t u : Tree} (h : t.Resembles u)

include h

/-- The nodes of the trees are twins one by one. -/
theorem preorder : List.Forall₂ (Twin t.arena u.arena) t.preorder u.preorder := by
  obtain ⟨below, ht⟩ := h.left.exists_spans
  obtain ⟨below', hu⟩ := h.right.exists_spans
  have hchildren := h.root.children h.left.linked h.right.linked h.twin
  rw [ht.children, hu.children] at hchildren
  rw [ht.preorder_eq, hu.preorder_eq]
  exact .cons h.root (Grows.twins h.left.linked h.right.linked h.twin ht.grows hu.grows hchildren)

/-- The parents of twins have the same name. -/
theorem parent_eq {i j : NodeIdx} (hij : Twin t.arena u.arena i j) :
    (u.arena.parent? j).map u.arena.id = (t.arena.parent? i).map t.arena.id := by
  cases hp : t.arena.parent? i with
  | none =>
      obtain rfl := (h.left.parent?_eq_none_iff i hij.left_lt).mp hp
      obtain rfl := h.root.eq_right h.right.linked hij.right_lt hij.id_eq
      rw [(h.right.parent?_eq_none_iff _ hij.right_lt).mpr rfl]
      rfl
  | some p =>
      have hmem : i ∈ t.arena.children p := (h.left.linked.parent?_iff p i).mp hp
      obtain ⟨q, hpq⟩ := h.twin p (lt_size_of_mem_children hmem)
      obtain ⟨k, hk, hid⟩ := hpq.exists_child hmem
      obtain rfl := hij.eq_right h.right.linked (h.right.linked.child_lt_size hk) hid
      rw [(h.right.linked.parent?_iff q k).mpr hk, Option.map_some, Option.map_some, hpq.id_eq]

/-- Twins have the same outline. -/
theorem outline_eq {i j : NodeIdx} (hij : Twin t.arena u.arena i j) :
    u.arena.outline j = t.arena.outline i := by
  rw [outline, outline, hij.id_eq, hij.kind_eq, h.parent_eq hij, hij.children_eq]

/-- The trees have the same outlines, in the same order. -/
theorem outlines_eq : u.outlines = t.outlines := by
  rw [outlines, outlines, ← List.forall₂_eq_eq_eq, List.forall₂_map_left_iff,
    List.forall₂_map_right_iff]
  exact h.preorder.flip.imp fun j i hij => h.outline_eq hij

/-- The links of the trees join twins. -/
theorem links : List.Forall₂ (fun l l' => Twin t.arena u.arena l.1 l'.1 ∧
    Twin t.arena u.arena l.2 l'.2) (Flowchart.links t) (Flowchart.links u) := by
  refine List.rel_flatMap h.preorder fun i j hij => ?_
  rw [List.forall₂_map_left_iff, List.forall₂_map_right_iff]
  exact (hij.children h.left.linked h.right.linked h.twin).imp fun c d hcd => ⟨hij, hcd⟩

omit h in
/-- Twins are declared alike. -/
theorem declaration_eq {i j : NodeIdx} (hij : Twin t.arena u.arena i j) :
    Flowchart.declaration u.arena j = Flowchart.declaration t.arena i := by
  rw [Flowchart.declaration, Flowchart.declaration, hij.id_eq, hij.kind_eq]

omit h in
/-- The lines above twins are the same. -/
theorem linkLine_eq {i j : NodeIdx} (hij : Twin t.arena u.arena i j) (parent : String) :
    Flowchart.linkLine u.arena parent j = Flowchart.linkLine t.arena parent i := by
  rw [Flowchart.linkLine, Flowchart.linkLine, declaration_eq hij]

/-- The trees are written in the same lines. -/
theorem treeLines_eq : Flowchart.treeLines u = Flowchart.treeLines t := by
  have hlinks := h.links
  rw [Flowchart.treeLines, Flowchart.treeLines]
  cases hl : Flowchart.links t with
  | nil =>
      rw [hl, List.forall₂_nil_left_iff] at hlinks
      rw [hlinks, declaration_eq h.root]
  | cons l ls =>
      rw [hl] at hlinks
      obtain ⟨l', ls', ⟨hparent, hchild⟩, hrest, hl'⟩ := List.forall₂_cons_left_iff.mp hlinks
      have hlines : (ls'.map fun l => Flowchart.linkLine u.arena (u.arena.id l.1) l.2) =
          ls.map fun l => Flowchart.linkLine t.arena (t.arena.id l.1) l.2 := by
        rw [← List.forall₂_eq_eq_eq, List.forall₂_map_left_iff, List.forall₂_map_right_iff]
        exact hrest.flip.imp fun b a hab => by rw [hab.1.id_eq, linkLine_eq hab.2]
      rw [hl']
      simp only [declaration_eq hparent, linkLine_eq hchild, hlines]

/-- They are written as the same text. -/
theorem treeText_eq : Flowchart.treeText u = Flowchart.treeText t := by
  rw [Flowchart.treeText, Flowchart.treeText, h.treeLines_eq]

end Resembles

end Tree

end Ladybug
