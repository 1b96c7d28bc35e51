import Ladybug.Flowchart.Printer
import Ladybug.Proofs.Sound

/-!
# The order in which nodes are written

A flowchart declares the root first and then one node with every link. In a sound tree that
makes every node declared once, and since a tree is written from the root downwards, the
parent of a link has always been declared before. Siblings that were added later stand in
later rows than the nodes written after them, so none of this follows from the order of the
table. It is shown along the forest that spans the tree.

## Main definitions

* `linksFrom` — the links from some nodes, in the order in which they are written.
* `known` — the nodes that a root and some links declare.
* `Declares` — each of some links leads from a known node to a new one.

## Main results

* `Tree.Sound.nodup_known_links` and `Tree.Sound.mem_known_links` — every node is declared,
  and none twice.
* `Tree.Sound.declares_links` — nodes are declared before links lead from them.
* `Tree.Sound.children_links` — the links from a node lead to its children, in their order.
-/

namespace Ladybug

namespace Flowchart

open Arena

/-- The links from some nodes to their children, node by node. -/
def linksFrom (t : Arena) (nodes : List NodeIdx) : List (NodeIdx × NodeIdx) :=
  nodes.flatMap fun parent => (t.children parent).map fun child => (parent, child)

/-- The nodes that are known from a root and some links below it. -/
def known (root : NodeIdx) (links : List (NodeIdx × NodeIdx)) : List NodeIdx :=
  root :: links.map Prod.snd

/-- Each link leads from a known node to a new one, which is known from then on. -/
def Declares : List NodeIdx → List (NodeIdx × NodeIdx) → Prop
  | _, [] => True
  | before, (parent, child) :: rest =>
    parent ∈ before ∧ child ∉ before ∧ Declares (before ++ [child]) rest

/-- A further link makes its second node known. -/
theorem known_concat (root : NodeIdx) (links : List (NodeIdx × NodeIdx)) (p c : NodeIdx) :
    known root (links ++ [(p, c)]) = known root links ++ [c] := by
  rw [known, known, List.map_append, List.cons_append, List.map_singleton]

/-! ### Links from nodes -/

/-- The links to siblings lead to them. -/
theorem map_snd_siblings (parent : NodeIdx) (siblings : List NodeIdx) :
    (siblings.map fun child => (parent, child)).map Prod.snd = siblings := by
  rw [List.map_map]
  exact List.map_id _

theorem linksFrom_append (t : Arena) (is js : List NodeIdx) :
    linksFrom t (is ++ js) = linksFrom t is ++ linksFrom t js :=
  List.flatMap_append

/-- The links from some nodes lead to the children of those nodes. -/
theorem map_snd_linksFrom (t : Arena) (nodes : List NodeIdx) :
    (linksFrom t nodes).map Prod.snd = nodes.flatMap t.children := by
  rw [linksFrom, List.map_flatMap]
  exact congrArg (List.flatMap · nodes) (funext fun parent => map_snd_siblings parent _)

theorem mem_linksFrom {t : Arena} {nodes : List NodeIdx} {parent child : NodeIdx} :
    (parent, child) ∈ linksFrom t nodes ↔ parent ∈ nodes ∧ child ∈ t.children parent := by
  simp only [linksFrom, List.mem_flatMap, List.mem_map, Prod.mk.injEq]
  constructor
  · rintro ⟨p, hp, c, hc, rfl, rfl⟩
    exact ⟨hp, hc⟩
  · rintro ⟨hp, hc⟩
    exact ⟨parent, hp, child, hc, rfl, rfl⟩

/-- Among the links from nodes that are named once, those from one of them lead to its
children. -/
theorem children_linksFrom {t : Arena} {nodes : List NodeIdx} (h : nodes.Nodup) {i : NodeIdx}
    (hi : i ∈ nodes) : ((linksFrom t nodes).filter (·.1 = i)).map Prod.snd = t.children i := by
  have hnone : ∀ js : List NodeIdx, i ∉ js → (linksFrom t js).filter (·.1 = i) = [] := by
    intro js hjs
    rw [List.filter_eq_nil_iff]
    rintro ⟨parent, child⟩ hlink
    rw [decide_eq_true_eq]
    rintro rfl
    exact hjs (mem_linksFrom.mp hlink).1
  obtain ⟨front, back, rfl⟩ := List.append_of_mem hi
  obtain ⟨-, hback, hfront⟩ := List.nodup_append.mp h
  have hself : (linksFrom t [i]).filter (·.1 = i) = linksFrom t [i] := by
    rw [List.filter_eq_self]
    rintro ⟨parent, child⟩ hlink
    rw [decide_eq_true_eq]
    exact List.mem_singleton.mp (mem_linksFrom.mp hlink).1
  rw [← List.singleton_append, linksFrom_append, linksFrom_append, List.filter_append,
    List.filter_append, hnone front fun hin => hfront i hin i List.mem_cons_self rfl,
    hnone back (List.nodup_cons.mp hback).1, hself, List.nil_append, List.append_nil,
    map_snd_linksFrom, List.flatMap_singleton]

/-! ### Declaring before use -/

/-- Links that declare their nodes may be followed by more of them. -/
theorem Declares.append {before : List NodeIdx} {links rest : List (NodeIdx × NodeIdx)}
    (h : Declares before links) (hrest : Declares (before ++ links.map Prod.snd) rest) :
    Declares before (links ++ rest) := by
  induction links generalizing before with
  | nil => rwa [List.map_nil, List.append_nil] at hrest
  | cons link links ih =>
      obtain ⟨parent, child⟩ := link
      obtain ⟨hparent, hchild, hlinks⟩ := h
      refine ⟨hparent, hchild, ih hlinks ?_⟩
      rwa [List.append_assoc, List.singleton_append]

/-- The links from a known node declare its children. -/
theorem declares_siblings {before siblings : List NodeIdx} {parent : NodeIdx}
    (hparent : parent ∈ before) (h : (before ++ siblings).Nodup) :
    Declares before (siblings.map fun child => (parent, child)) := by
  induction siblings generalizing before with
  | nil => trivial
  | cons child rest ih =>
      rw [List.append_cons] at h
      refine ⟨hparent, fun hmem => ?_, ih (List.mem_append_left _ hparent) h⟩
      obtain ⟨-, -, hdisjoint⟩ := List.nodup_append.mp (List.nodup_append.mp h).1
      exact hdisjoint child hmem child (List.mem_singleton_self child) rfl

/-- The links of a forest with known roots declare its other nodes, if all of them are
new. -/
theorem declares_linksFrom {t : Arena} {f : Forest} (hf : t.Grows f) {before : List NodeIdx}
    (hroots : f.roots ⊆ before) (h : (before ++ (linksFrom t f.preorder).map Prod.snd).Nodup) :
    Declares before (linksFrom t f.preorder) := by
  induction f generalizing before with
  | nil => trivial
  | cons i below rest ihBelow ihRest =>
      obtain ⟨hi, hbelow, hrest⟩ := hf
      have hsplit : linksFrom t (Forest.cons i below rest).preorder =
          ((t.children i).map fun child => (i, child)) ++
            (linksFrom t below.preorder ++ linksFrom t rest.preorder) := by
        rw [Forest.preorder, ← linksFrom_append]
        rfl
      have hsnd := map_snd_siblings i (t.children i)
      rw [hsplit, List.map_append, List.map_append, hsnd, ← List.append_assoc,
        ← List.append_assoc] at h
      rw [hsplit]
      have hfirst := (List.nodup_append.mp h).1
      refine (declares_siblings (hroots List.mem_cons_self) (List.nodup_append.mp hfirst).1).append
        ?_
      rw [hsnd]
      refine (ihBelow hbelow ?_ hfirst).append (ihRest hrest ?_ h)
      · rw [← hi]
        exact List.subset_append_right _ _
      · intro j hj
        exact List.mem_append_left _ (List.mem_append_left _
          (hroots (List.mem_cons_of_mem i hj)))

end Flowchart

namespace Tree

open Arena Flowchart

namespace Sound

variable {t : Tree} (h : t.Sound)

include h

/-- The nodes that are declared are those of the tree. -/
theorem mem_known_links {i : NodeIdx} : i ∈ known t.root (links t) ↔ i < t.arena.size := by
  have hmem : ∀ j, j ∈ t.preorder ↔ j < t.arena.size := fun j => by
    rw [h.preorder_perm.mem_iff, List.mem_range]
  have hsnd : (links t).map Prod.snd = t.preorder.flatMap t.arena.children :=
    map_snd_linksFrom t.arena t.preorder
  rw [known, List.mem_cons, hsnd, List.mem_flatMap]
  constructor
  · rintro (rfl | ⟨p, -, hp⟩)
    · exact h.root_lt
    · exact h.linked.child_lt_size hp
  · intro hi
    cases hparent : t.arena.parent? i with
    | none => exact .inl ((h.parent?_eq_none_iff i hi).mp hparent)
    | some p =>
        have hchild := (h.linked.parent?_iff p i).mp hparent
        exact .inr ⟨p, (hmem p).mpr (lt_size_of_mem_children hchild), hchild⟩

/-- A tree without links is a single node. -/
theorem size_of_links_eq_nil (hnil : links t = []) : t.arena.size = 1 := by
  have hrows : ∀ i, i = t.root ↔ i < t.arena.size := fun i => by
    rw [← h.mem_known_links, hnil, known, List.map_nil, List.mem_singleton]
  refine Nat.le_antisymm (Nat.le_of_not_lt fun hlt => ?_) (Nat.zero_lt_of_lt h.root_lt)
  have hzero : 0 = t.root := (hrows 0).mpr (Nat.zero_lt_of_lt hlt)
  have hone : 1 = t.root := (hrows 1).mpr hlt
  exact Nat.zero_ne_one (hzero.trans hone.symm)

/-- No node is declared twice. -/
theorem nodup_known_links : (known t.root (links t)).Nodup := by
  have hsnd : (links t).map Prod.snd = t.preorder.flatMap t.arena.children :=
    map_snd_linksFrom t.arena t.preorder
  have hparent : ∀ p i, i ∈ t.arena.children p → t.arena.parent? i = some p := fun p i =>
    (h.linked.parent?_iff p i).mpr
  rw [known, List.nodup_cons, hsnd, List.mem_flatMap, List.nodup_flatMap]
  refine ⟨?_, fun p _ => h.linked.nodup p, ?_⟩
  · rintro ⟨p, -, hp⟩
    have hnone := (h.parent?_eq_none_iff t.root h.root_lt).mpr rfl
    rw [hparent p t.root hp] at hnone
    cases hnone
  · have hnodup : t.preorder.Nodup := h.preorder_perm.nodup_iff.mpr List.nodup_range
    refine hnodup.imp fun hne => ?_
    intro i hp hq
    exact hne (Option.some.inj ((hparent _ i hp).symm.trans (hparent _ i hq)))

/-- Nodes are declared before links lead from them. -/
theorem declares_links : Declares [t.root] (links t) := by
  obtain ⟨below, hspans⟩ := h.exists_spans
  have hgrows : t.arena.Grows (.cons t.root below .nil) := ⟨hspans.children, hspans.grows, trivial⟩
  have horder : (Forest.cons t.root below .nil).preorder = t.preorder := by
    rw [hspans.preorder_eq, Forest.preorder, Forest.preorder, List.append_nil]
  have hnodup : ([t.root] ++ (links t).map Prod.snd).Nodup := h.nodup_known_links
  rw [links, ← horder] at hnodup ⊢
  exact declares_linksFrom hgrows (List.Subset.refl _) hnodup

/-- The links from a node lead to its children, in their order. -/
theorem children_links {i : NodeIdx} (hi : i < t.arena.size) :
    ((links t).filter (·.1 = i)).map Prod.snd = t.arena.children i :=
  children_linksFrom (h.preorder_perm.nodup_iff.mpr List.nodup_range)
    (h.preorder_perm.mem_iff.mpr (List.mem_range.mpr hi))

end Sound

end Tree

end Ladybug
