import Ladybug.Proofs.Reading

/-!
# Reachable trees

A tree begins as one that was read from a flowchart. From then on turns, jumps, resets and
new siblings are all that happens to it, in any order and in any worlds, and one that is
refused leaves it as it was. The trees that come about in this way are the *reachable* ones.
What holds of all of them is shown for the trees that are read and for each of the four
operations.

A reachable tree really is a tree: its parents, children and index tell the same story, and
that story has no rings.

## Main definitions

* `Tree.Operation` and `Tree.after` — what can be done to a tree, and the tree after it.
* `Tree.Reachable` — the trees that come about, with the new nodes limited to admitted ones.
* `Tree.WellFormed` — the representation of a tree is consistent.

## Main results

* `Tree.Reachable.sound` — reachable trees are sound.
* `Tree.Reachable.wellFormed` — reachable trees are well-formed.
-/

namespace Ladybug

namespace Tree

open Arena

/-! ### What happens to a tree -/

/-- What can be done to a tree. -/
inductive Operation where
  | tick (w : World) (a : AgentId)
  | jumpTo (target : String)
  | reset
  | addSibling (existing : String) (spec : NodeSpec)

/-- The tree that an operation makes, unless it is refused. -/
def Operation.run : Operation → Tree → Except TreeError Tree
  | tick w a, t => .ok (t.tick w a).tree
  | jumpTo target, t => t.jumpTo target
  | reset, t => .ok t.reset
  | addSibling existing spec, t => (t.addSibling existing spec).map Prod.fst

/-- The tree after an operation. One that is refused changes nothing. -/
def after (t : Tree) (op : Operation) : Tree :=
  match op.run t with
  | .ok u => u
  | .error _ => t

/-- A node that the operation adds is an admitted one. -/
def Operation.Adds (Admitted : NodeSpec → Prop) : Operation → Prop
  | addSibling _ spec => Admitted spec
  | _ => True

/-- The trees that are read from flowcharts, and what operations make of them. -/
inductive Reachable (Admitted : NodeSpec → Prop) : Tree → Prop
  | read {lines : List String} {ladybugs : Nat} {trees : List Tree} {t : Tree} :
      Flowchart.readTrees lines ladybugs = .ok trees → t ∈ trees → Reachable Admitted t
  | after {t : Tree} {op : Operation} :
      Reachable Admitted t → op.Adds Admitted → Reachable Admitted (t.after op)

/-- An operation that adds a sibling does so. -/
theorem addSibling_of_run {t u : Tree} {existing : String} {spec : NodeSpec}
    (h : (Operation.addSibling existing spec).run t = .ok u) :
    ∃ i, t.addSibling existing spec = .ok (u, i) := by
  rw [Operation.run] at h
  cases hgrow : t.addSibling existing spec with
  | error e =>
      rw [hgrow] at h
      cases h
  | ok grown =>
      rw [hgrow] at h
      obtain rfl := Except.ok.inj h
      exact ⟨grown.2, rfl⟩

/-- Operations keep a tree sound, whether or not they are refused. -/
theorem Sound.after {t : Tree} (h : t.Sound) (op : Operation) : (t.after op).Sound := by
  rw [Tree.after]
  split
  · next u hu =>
      cases op with
      | tick w a =>
          obtain rfl := Except.ok.inj hu
          exact h.tick w a
      | jumpTo target => exact h.jumpTo hu
      | reset =>
          obtain rfl := Except.ok.inj hu
          exact h.reset
      | addSibling existing spec =>
          obtain ⟨i, hgrow⟩ := addSibling_of_run hu
          exact h.addSibling hgrow
  · exact h

/-- An operation keeps the shape and the root of a tree, or it adds a sibling. -/
theorem Sound.after_cases {t : Tree} (h : t.Sound) (op : Operation) :
    ((t.after op).arena.shape = t.arena.shape ∧ (t.after op).root = t.root) ∨
      ∃ existing spec i, op = .addSibling existing spec ∧
        t.addSibling existing spec = .ok (t.after op, i) := by
  rw [Tree.after]
  split
  · next u hu =>
      cases op with
      | tick w a =>
          obtain rfl := Except.ok.inj hu
          exact .inl (h.shape_tick w a)
      | jumpTo target =>
          obtain ⟨-, -, hshape, hroot, -⟩ := jumpTo_eq_ok hu
          exact .inl ⟨hshape, hroot⟩
      | reset =>
          obtain rfl := Except.ok.inj hu
          exact .inl ⟨shape_resetFrom .., rfl⟩
      | addSibling existing spec =>
          obtain ⟨i, hgrow⟩ := addSibling_of_run hu
          exact .inr ⟨existing, spec, i, rfl, hgrow⟩
  · exact .inl ⟨rfl, rfl⟩

/-- Reachable trees are sound. -/
theorem Reachable.sound {Admitted : NodeSpec → Prop} {t : Tree} (h : t.Reachable Admitted) :
    t.Sound := by
  induction h with
  | read hread hmem => exact (Flowchart.sound_of_readTrees hread hmem).1
  | after _ _ ih => exact ih.after _

/-! ### Well-formed trees -/

/-- The links, the index, the resume pointer and the statuses of a tree are consistent. -/
structure WellFormed (t : Tree) : Prop where
  root_lt : t.root < t.arena.size
  /-- The root has no parent and is nobody's child. -/
  root_parent : t.arena.parent? t.root = none ∧ ∀ p, t.root ∉ t.arena.children p
  /-- Every other node has a parent, which has it once among its children, and no other node
  has it among its children. -/
  parent : ∀ i < t.arena.size, i ≠ t.root → ∃ p < t.arena.size, t.arena.parent? i = some p ∧
    (t.arena.children p).count i = 1 ∧ ∀ q, q ≠ p → i ∉ t.arena.children q
  /-- Children are nodes. -/
  child_lt : ∀ p i, i ∈ t.arena.children p → i < t.arena.size
  /-- Only composites have children. -/
  composite : ∀ p, t.arena.children p ≠ [] → (t.arena.kind p).isComposite
  /-- The index has the name of every node with its row, and nothing else. -/
  lookup?_iff : ∀ id i, t.arena.lookup? id = some i ↔ i < t.arena.size ∧ t.arena.id i = id
  /-- The links to parents lead from every node to the root. -/
  climbs_root : ∀ i < t.arena.size, t.arena.Climbs i t.root
  /-- No way along the links to parents comes back to where it began. -/
  acyclic : ∀ i p, t.arena.parent? i = some p → ¬ t.arena.Climbs p i
  /-- The order of the tree has every node exactly once. -/
  preorder : t.preorder.Perm (List.range t.arena.size)
  /-- There is something to do. -/
  action : ∃ i < t.arena.size, (t.arena.kind i).isAction
  current_lt : t.current < t.arena.size
  /-- Only composites run. -/
  running : ∀ i, t.arena.status i = .running → (t.arena.kind i).isComposite

/-- In a sound tree every node but the root stands exactly once below its one parent. -/
theorem Sound.exists_parent {t : Tree} (h : t.Sound) {i : Nat} (hi : i < t.arena.size)
    (hne : i ≠ t.root) : ∃ p < t.arena.size, t.arena.parent? i = some p ∧
      (t.arena.children p).count i = 1 ∧ ∀ q, q ≠ p → i ∉ t.arena.children q := by
  cases hp : t.arena.parent? i with
  | none => exact absurd ((h.parent?_eq_none_iff i hi).mp hp) hne
  | some p =>
      have hmem := (h.linked.parent?_iff p i).mp hp
      refine ⟨p, lt_size_of_mem_children hmem, rfl,
        List.count_eq_one_of_mem (h.linked.nodup p) hmem, fun q hq hmem' => hq ?_⟩
      exact Option.some.inj (((h.linked.parent?_iff q i).mpr hmem').symm.trans hp)

/-- Reachable trees are well-formed. -/
theorem Reachable.wellFormed {Admitted : NodeSpec → Prop} {t : Tree}
    (h : t.Reachable Admitted) : t.WellFormed := by
  have hsound := h.sound
  have hlinked := hsound.linked
  have hroot : t.arena.parent? t.root = none :=
    (hsound.parent?_eq_none_iff t.root hsound.root_lt).mpr rfl
  exact
    { root_lt := hsound.root_lt
      root_parent := by
        refine ⟨hroot, fun p hp => ?_⟩
        rw [(hlinked.parent?_iff p t.root).mpr hp] at hroot
        cases hroot
      parent := fun i hi hne => hsound.exists_parent hi hne
      child_lt := fun p i hi => hlinked.child_lt_size hi
      composite := hlinked.composite
      lookup?_iff := hlinked.lookup?_iff
      climbs_root := fun i hi => hsound.climbs_root hi
      acyclic := fun i p hp hclimb => by
        have hlt := hlinked.lt p i ((hlinked.parent?_iff p i).mp hp)
        exact absurd (hlinked.le_of_climbs hclimb) (Nat.not_le_of_lt hlt)
      preorder := hsound.preorder_perm
      action := hsound.action
      current_lt := hsound.current_lt
      running := hsound.running }

/-- A tree that was read, jumped in and grown, with a refused edit in between, is
well-formed. -/
theorem wellFormed_grown : ∃ t : Tree,
    Flowchart.readTrees ["flowchart TD", "A[->] --> B[move]", "A --> C[?]", "C --> D[turnLeft]"]
      1 = .ok [t] ∧
    (((t.after (.jumpTo "D")).after (.addSibling "A" ⟨"E", .action .move⟩)).after
      (.addSibling "D" ⟨"E", .action .move⟩)).WellFormed := by
  obtain ⟨t, ht⟩ : ∃ t, Flowchart.readTrees
      ["flowchart TD", "A[->] --> B[move]", "A --> C[?]", "C --> D[turnLeft]"] 1 = .ok [t] :=
    ⟨_, rfl⟩
  have hread : t.Reachable fun _ => True := .read ht (List.mem_singleton_self t)
  exact ⟨t, ht, Reachable.wellFormed (.after (.after (.after hread trivial) trivial) trivial)⟩

end Tree

end Ladybug
