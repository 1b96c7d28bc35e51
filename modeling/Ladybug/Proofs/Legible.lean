import Ladybug.Proofs.Reachable
import Ladybug.Proofs.WrittenLines

/-!
# Legible trees

A tree is *legible* when a flowchart can say what it is: the names of its nodes are ids, and
their kinds are such that what is written for them can be read. A node that is all there is
of a tree must also be able to stand alone on a line, which not every id can. Trees that are
read are legible, and so is everything that is made of them as long as the new nodes have
been read too. An id that cannot stand alone may well occur in a legible tree, since no
operation removes the nodes around it.

## Main definitions

* `NodeSpec.Legible`, `Arena.Legible` and `Tree.Legible`.

## Main results

* `Flowchart.legible_of_readNode` — a node that is read is legible.
* `Flowchart.legible_of_readTrees` — so are trees.
* `Tree.Reachable.legible` — and what operations make of them.
-/

namespace Ladybug

open Flowchart

/-- The node can be declared in a flowchart. -/
structure NodeSpec.Legible (spec : NodeSpec) : Prop where
  isId : IsId spec.id.toList
  writable : spec.kind.Writable

namespace Arena

/-- Every node of the table can be declared in a flowchart. -/
def Legible (t : Arena) : Prop := ∀ i < t.size, NodeSpec.Legible ⟨t.id i, t.kind i⟩

/-- Being legible depends only on the shape. -/
theorem Legible.of_shape {t u : Arena} (ht : t.Legible) (h : u.shape = t.shape) : u.Legible := by
  intro i hi
  rw [id_of_shape h, kind_of_shape h]
  exact ht i (size_of_shape h ▸ hi)

/-- A legible node may be added to a legible table. -/
theorem Legible.grow {t u : Arena} {spec : NodeSpec} (ht : t.Legible) (hspec : spec.Legible)
    (hsize : u.size = t.size + 1) (hid : ∀ i, u.id i = if i = t.size then spec.id else t.id i)
    (hkind : ∀ i, u.kind i = if i = t.size then spec.kind else t.kind i) : u.Legible := by
  intro i hi
  rw [hsize] at hi
  rw [hid, hkind]
  rcases Nat.lt_succ_iff_lt_or_eq.mp hi with hlt | rfl
  · rw [if_neg (Nat.ne_of_lt hlt), if_neg (Nat.ne_of_lt hlt)]
    exact ht i hlt
  · rw [if_pos rfl, if_pos rfl]
    exact hspec

theorem Legible.push {t : Arena} (ht : t.Legible) {spec : NodeSpec} (hspec : spec.Legible)
    (parent : Option NodeIdx) : (t.push (Node.ofSpec spec parent)).Legible := by
  refine ht.grow hspec (size_push ..) (fun i => ?_) fun i => ?_
  · rw [id, node_push, id]
    split <;> rfl
  · rw [kind, node_push, kind]
    split <;> rfl

theorem Legible.sprout {t : Arena} (ht : t.Legible) {spec : NodeSpec} (hspec : spec.Legible)
    {p : NodeIdx} (hp : p < t.size) (siblings : List NodeIdx) :
    (t.sprout spec p siblings).Legible :=
  ht.grow hspec (size_sprout ..) (id_sprout hp spec siblings) (kind_sprout hp spec siblings)

end Arena

namespace Flowchart

/-! ### Nodes and blocks that are read -/

/-- A declared node is legible, if its id is one. -/
theorem legible_of_kind {id : List Char} {b : Bracket} {kind : NodeKind} (hid : IsId id)
    (hkind : b.kind = .ok kind) : NodeSpec.Legible ⟨String.ofList id, kind⟩ :=
  ⟨by rwa [String.toList_ofList], Bracket.writable_of_kind hkind⟩

/-- A node that is read was declared by a token with a bracket. -/
theorem exists_token_of_readNode {text : String} {spec : NodeSpec} (h : readNode text = .ok spec) :
    ∃ id b kind, Token.read? (Text.trim text.toList) = some ⟨id, some b⟩ ∧ b.kind = .ok kind ∧
      spec = ⟨String.ofList id, kind⟩ := by
  rw [readNode, readSpec] at h
  split at h
  · next id b htoken =>
      cases hkind : b.kind with
      | error e =>
          rw [hkind] at h
          cases h
      | ok kind =>
          rw [hkind] at h
          exact ⟨id, b, kind, htoken, hkind, (Except.ok.inj h).symm⟩
  · cases h

/-- A node that is read is legible. -/
theorem legible_of_readNode {text : String} {spec : NodeSpec} (h : readNode text = .ok spec) :
    spec.Legible := by
  obtain ⟨id, b, kind, htoken, hkind, rfl⟩ := exists_token_of_readNode h
  exact legible_of_kind (Token.read?_eq_some htoken).1 hkind

namespace Block

/-- The nodes of a block can be declared, and if there is just one, it can stand alone. -/
structure Legible (b : Block) : Prop where
  arena : b.arena.Legible
  alone : b.arena.size = 1 → StandsAlone (b.arena.id 0).toList

theorem Legible.start (number : Nat) : (Block.start number).Legible where
  arena i hi := absurd hi (Nat.not_lt_zero i)
  alone h := nomatch h

/-- Resolving a token keeps the nodes of a block legible. -/
theorem legible_of_resolve {b b' : Block} {token : Token} {i : NodeIdx} (h : b.arena.Legible)
    (hid : IsId token.id) (hresolve : b.resolve token = .ok (b', i)) : b'.arena.Legible := by
  rcases resolve_eq_ok_iff.mp hresolve with ⟨-, -, rfl⟩ | ⟨bracket, kind, -, hkind, -, -, rfl⟩
  · exact h
  · exact h.push (legible_of_kind hid hkind) none

/-- A line keeps a block legible. -/
theorem Legible.readLine {b b' : Block} (h : b.Legible) (hsound : b.Sound) {line : List Char}
    (hline : b.readLine line = .ok b') : b'.Legible := by
  rcases readLine_eq_ok hline with ⟨edge, hedge, hadd⟩ |
    ⟨token, found, root, hnone, hempty, htoken, hbracket, hresolve, rfl⟩
  · obtain ⟨hparent, hchild⟩ := Edge.isId_of_read? hedge
    obtain ⟨found, parent, bracket, kind, hresolve, hlt, -, -, hkind, -, rfl⟩ :=
      (addEdge_eq_ok_iff hsound.linked (Edge.isSome_bracket_of_read? hedge)).mp hadd
    have hfound := legible_of_resolve h.arena hparent hresolve
    refine ⟨hfound.sprout (legible_of_kind hchild hkind) hlt _, fun hone => ?_⟩
    -- Two nodes are named, so the block has more than one.
    rw [attach, Arena.size_sprout] at hone
    have hpos : found.arena.size ≠ 0 := Nat.ne_zero_of_lt hlt
    omega
  · have hid := (Token.read?_eq_some htoken).1
    have hfound : found.arena.Legible := legible_of_resolve h.arena hid hresolve
    refine ⟨hfound, fun _ => ?_⟩
    have hzero : b.arena.size = 0 := by simpa [Arena.isEmpty, Arena.size] using hempty
    rcases resolve_eq_ok_iff.mp hresolve with ⟨hbare, -, -⟩ | ⟨bracket, kind, hsome, -, -, -, rfl⟩
    · rw [hbare] at hbracket
      cases hbracket
    · obtain ⟨id, bracket'⟩ := token
      obtain rfl : bracket' = some bracket := hsome
      refine ⟨line, bracket, hnone, ?_⟩
      rw [htoken, Block.declare, Arena.id, Arena.node_push, if_pos hzero.symm, Node.ofSpec,
        String.toList_ofList]

end Block

end Flowchart

namespace Tree

/-- The nodes of a tree can be declared, and if there is just one, it can stand alone. -/
structure Legible (t : Tree) : Prop where
  arena : t.arena.Legible
  alone : t.arena.size = 1 → StandsAlone t.rootId.toList

end Tree

/-- Trees that are read are legible. -/
theorem Flowchart.legible_of_readTrees {lines : List String} {ladybugs : Nat}
    {trees : List Tree} (h : readTrees lines ladybugs = .ok trees) {t : Tree} (ht : t ∈ trees) :
    t.Legible := by
  refine forall_of_readTrees (P := fun b => b.Sound ∧ b.Legible) (fun n => ⟨.start n, .start n⟩)
    (fun b b' line hb hline => ⟨hb.1.readLine hline, hb.2.readLine hb.1 hline⟩)
    (fun b u hb hclose => ?_) h t ht
  obtain ⟨root, hroot, -, -, rfl⟩ := Block.close_eq_ok hclose
  obtain ⟨rfl, -⟩ := hb.1.root_eq root hroot
  exact ⟨hb.2.arena, hb.2.alone⟩

namespace Tree

open Arena

/-- A new sibling that is legible keeps a tree legible. -/
theorem Legible.addSibling {t u : Tree} (h : t.Legible) (hsound : t.Sound) {existing : String}
    {spec : NodeSpec} {i : NodeIdx} (hspec : spec.Legible)
    (hgrow : t.addSibling existing spec = .ok (u, i)) : u.Legible := by
  obtain ⟨anchor, parent, hanchor, -, hparent, rfl, rfl⟩ := addSibling_eq_ok hgrow
  have hlt : parent < t.arena.size :=
    lt_size_of_mem_children ((hsound.linked.parent?_iff parent anchor).mp hparent)
  rw [push_modify_insertAfter hlt]
  refine ⟨h.arena.sprout hspec hlt _, fun hone => ?_⟩
  rw [size_sprout] at hone
  have hpos : t.arena.size ≠ 0 := Nat.ne_zero_of_lt hlt
  omega

/-- Reachable trees are legible, if their new nodes have been read. -/
theorem Reachable.legible {t : Tree} {Admitted : NodeSpec → Prop}
    (hadmitted : ∀ spec, Admitted spec → spec.Legible) (h : t.Reachable Admitted) :
    t.Legible := by
  induction h with
  | read hread hmem => exact legible_of_readTrees hread hmem
  | @after t op hreach hadds ih =>
      rcases hreach.sound.after_cases op with ⟨hshape, hroot⟩ | ⟨existing, spec, i, rfl, hgrow⟩
      · refine ⟨ih.arena.of_shape hshape, fun hone => ?_⟩
        rw [size_of_shape hshape] at hone
        rw [rootId, id_of_shape hshape, hroot]
        exact ih.alone hone
      · exact ih.addSibling hreach.sound (hadmitted spec hadds) hgrow

end Tree

end Ladybug
