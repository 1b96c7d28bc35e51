import Ladybug.Proofs.Reaching

/-!
# Tables that are built step by step

A table is filled by two kinds of steps: a node is added, or one node is made the last child of
another. A step checks first and changes the table only then, so a step that is refused leaves
nothing behind. Nodes may be linked in any order, and a node may even be linked below itself or
below something that is below it. As long as no node is made a child twice, the links to parents
and to children stay the same links, and the index stays in order.

## Main definitions

* `BuildStep` — a step, with `BuildStep.program` for what it does to a table in place.
* `Arena.Built` — the tables that come about.

## Main results

* `BuildStep.program_eq` — what a step does in place is what is done to the table as a value.
* `Arena.Wired.link` — linking a node that has no parent keeps a table wired.
* `Arena.Built.wired` — tables that are built are wired.
-/

namespace Ladybug

/-! ### Links -/

namespace Arena

/-- The table in which one node is the last child of another. -/
def link (t : Arena) (parent child : NodeIdx) : Arena :=
  (t.modify parent fun n => { n with children := n.children ++ [child] }).modify child
    fun n => { n with parent := some parent }

@[simp] theorem size_link (t : Arena) (p c : NodeIdx) : (t.link p c).size = t.size := by
  rw [link, size_modify, size_modify]

@[simp] theorem lookup?_link (t : Arena) (p c : NodeIdx) (id : String) :
    (t.link p c).lookup? id = t.lookup? id := rfl

variable {t : Arena} {p c : NodeIdx}

/-- A link changes the children of one node and the parent of another. -/
theorem node_link (hp : p < t.size) (hc : c < t.size) (i : NodeIdx) :
    (t.link p c).node i =
      { t.node i with
        children := if i = p then t.children p ++ [c] else t.children i
        parent := if i = c then some p else t.parent? i } := by
  rw [link, node_modify, node_modify, node_modify, size_modify, children, children, parent?]
  by_cases hi : i = c
  · subst hi
    by_cases hip : i = p
    · subst hip
      simp [hp]
    · simp [hip, hc]
  · by_cases hip : i = p
    · subst hip
      simp [hi, hp]
    · simp [hi, hip]

section Link

variable (hp : p < t.size) (hc : c < t.size) (i : NodeIdx)

include hp hc

theorem id_link : (t.link p c).id i = t.id i := by
  rw [id, node_link hp hc, id]

theorem kind_link : (t.link p c).kind i = t.kind i := by
  rw [kind, node_link hp hc, kind]

theorem parent?_link : (t.link p c).parent? i = if i = c then some p else t.parent? i := by
  rw [parent?, node_link hp hc]

theorem children_link :
    (t.link p c).children i = if i = p then t.children p ++ [c] else t.children i := by
  rw [children, node_link hp hc]

end Link

/-- **Linking a node that has no parent keeps a table wired**, whatever stands above it. -/
theorem Wired.link (h : t.Wired) (hp : p < t.size) (hc : c < t.size)
    (hkind : (t.kind p).isComposite) (hnone : t.parent? c = none) : (t.link p c).Wired := by
  have hfresh : ∀ i, c ∉ t.children i := fun i hi => by
    rw [(h.parent?_iff i c).mpr hi] at hnone
    cases hnone
  have hmem : ∀ i j, j ∈ (t.link p c).children i ↔ j ∈ t.children i ∨ (i = p ∧ j = c) := by
    intro i j
    rw [children_link hp hc]
    split
    · next hi => rw [hi, List.mem_append, List.mem_singleton]; simp
    · next hi => simp [hi]
  exact
    { parent?_iff := by
        intro i j
        rw [hmem, ← h.parent?_iff, parent?_link hp hc]
        split
        · next hj => simp [hj, hnone, eq_comm]
        · next hj => simp [hj]
      nodup := by
        intro i
        rw [children_link hp hc]
        split
        · exact List.nodup_append.mpr ⟨h.nodup p, List.nodup_singleton c, fun j hj k hk =>
            List.mem_singleton.mp hk ▸ fun heq => hfresh p (heq ▸ hj)⟩
        · exact h.nodup i
      composite := by
        intro i hi
        obtain ⟨j, hj⟩ := List.exists_mem_of_ne_nil _ hi
        rw [kind_link hp hc]
        rcases (hmem i j).mp hj with hj | ⟨rfl, -⟩
        · exact h.composite i (List.ne_nil_of_mem hj)
        · exact hkind
      lookup?_iff := fun id i => by
        rw [lookup?_link, size_link, id_link hp hc]
        exact h.lookup?_iff id i }

end Arena

/-! ### Steps -/

/-- Programs that fill a table in place and may stop with an error. -/
abbrev BuilderM := EStateM TreeError Arena

/-- A step of filling a table. -/
inductive BuildStep where
  /-- Adds a node without a parent. -/
  | node (spec : NodeSpec)
  /-- Makes one node the last child of another. -/
  | child (parent child : NodeIdx)

namespace BuildStep

/-- The step as it is done in place, one check and one change after the other. -/
def program : BuildStep → BuilderM Unit
  | node spec => do
    let t ← get
    if t.hasNode spec.id then throw (.duplicateNode spec.id)
    else
      modify fun t => { t with index := (spec.id, t.size) :: t.index }
      modify fun t => { t with nodes := t.nodes.push (Node.ofSpec spec none) }
  | child p c => do
    let t ← get
    if (t.kind p).isComposite then
      modify fun t => t.modify p fun n => { n with children := n.children ++ [c] }
      modify fun t => t.modify c fun n => { n with parent := some p }
    else throw (.notComposite (t.id p))

/-- The step as it is done to a table as a value. -/
def run (t : Arena) : BuildStep → Except TreeError Arena
  | node spec => (t.addNode spec).map Prod.fst
  | child p c => t.addChild p c

/-- The table after the step, whether it was refused or not. -/
def after (t : Arena) (s : BuildStep) : Arena :=
  match s.program t with
  | .ok _ u => u
  | .error _ u => u

/-- The step is about rows of the table, and what becomes a child has no parent yet. -/
def Allowed (t : Arena) : BuildStep → Prop
  | node _ => True
  | child p c => p < t.size ∧ c < t.size ∧ ((t.kind p).isComposite → t.parent? c = none)

instance (t : Arena) (s : BuildStep) : Decidable (s.Allowed t) := by
  cases s <;> unfold Allowed <;> infer_instance

/-- **What a step does in place is what is done to the table as a value**, and nothing if it is
refused. -/
theorem program_eq (s : BuildStep) (t : Arena) :
    s.program t =
      match s.run t with
      | .ok u => .ok () u
      | .error error => .error error t := by
  cases s with
  | node spec =>
      dsimp only [program, bind, EStateM.bind, get, getThe, MonadStateOf.get, EStateM.get, run,
        Arena.addNode]
      cases t.hasNode spec.id <;> rfl
  | child p c =>
      dsimp only [program, bind, EStateM.bind, get, getThe, MonadStateOf.get, EStateM.get, run,
        Arena.addChild]
      cases (t.kind p).isComposite <;> rfl

/-- A step that is done leaves its table. -/
theorem after_of_ok {s : BuildStep} {t u : Arena} (h : s.run t = .ok u) : s.after t = u := by
  rw [after, program_eq, h]

/-- A step that is refused leaves the table as it was. -/
theorem after_of_error {s : BuildStep} {t : Arena} {error : TreeError}
    (h : s.run t = .error error) : s.after t = t := by
  rw [after, program_eq, h]

end BuildStep

namespace Arena

/-- The table after several steps, done or refused. -/
def filled (t : Arena) (steps : List BuildStep) : Arena :=
  steps.foldl (fun t s => s.after t) t

/-- Every step is allowed when it is its turn. -/
def Admits (t : Arena) : List BuildStep → Prop
  | [] => True
  | s :: rest => s.Allowed t ∧ (s.after t).Admits rest

/-- The table comes about by steps, some of which may be refused, and no node is made a child
twice. -/
def Built (t : Arena) : Prop := ∃ steps, empty.Admits steps ∧ t = empty.filled steps

instance decidableAdmits (t : Arena) (steps : List BuildStep) : Decidable (t.Admits steps) :=
  match steps with
  | [] => inferInstanceAs (Decidable True)
  | s :: rest =>
    have := decidableAdmits (s.after t) rest
    inferInstanceAs (Decidable (_ ∧ _))

/-- A step keeps a table wired. -/
theorem Wired.after {t : Arena} (h : t.Wired) {s : BuildStep} (hs : s.Allowed t) :
    (s.after t).Wired := by
  cases hrun : s.run t with
  | error error => rwa [BuildStep.after_of_error hrun]
  | ok u =>
      rw [BuildStep.after_of_ok hrun]
      cases s with
      | node spec =>
          rw [BuildStep.run, addNode] at hrun
          cases hnew : t.hasNode spec.id with
          | true =>
              rw [hnew] at hrun
              cases hrun
          | false =>
              rw [hnew] at hrun
              exact Except.ok.inj hrun ▸ h.push hnew
      | child p c =>
          obtain ⟨hp, hc, hnone⟩ := hs
          rw [BuildStep.run, addChild] at hrun
          cases hkind : (t.kind p).isComposite with
          | false =>
              rw [hkind] at hrun
              cases hrun
          | true =>
              rw [hkind] at hrun
              exact Except.ok.inj hrun ▸ h.link hp hc hkind (hnone hkind)

/-- Several steps keep a table wired. -/
theorem Wired.filled {t : Arena} (h : t.Wired) {steps : List BuildStep} (hsteps : t.Admits steps) :
    (t.filled steps).Wired := by
  induction steps generalizing t with
  | nil => exact h
  | cons s rest ih => exact ih (h.after hsteps.1) hsteps.2

/-- **Tables that are built are wired.** -/
theorem Built.wired {t : Arena} (h : t.Built) : t.Wired := by
  obtain ⟨steps, hsteps, rfl⟩ := h
  exact linked_empty.toWired.filled hsteps

end Arena

end Ladybug
