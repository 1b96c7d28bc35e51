import Ladybug.Flowchart.Printer
import Ladybug.Proofs.Renumbering

/-!
# Rows do not show

What anybody gets to see of a tree are names, kinds, statuses, records and refusals. Trees that
differ only in the rows of their nodes show the same, and since they stay like that, they go on
showing the same, whatever is done to them.

## Main definitions

* `Tree.Operation.answer` — what an operation tells.
* `Tree.appearance` — what a tree shows.
* `Tree.transcript` — all there is to see while operations are done one after another.

## Main results

* `Tree.Renumbers.appearance_eq` — trees that differ in their rows show the same.
* `Tree.Renumbers.transcript_eq` — and they go on doing so, whatever is done to them.
-/

namespace Ladybug

namespace Tree

/-! ### What there is to see -/

/-- What an operation tells. -/
inductive Answer where
  | refused (fault : TreeError)
  | done
  | turned (world : World) (trace : Trace)
  | added (row : NodeIdx)

/-- What is told by an operation on a tree. -/
def Operation.answer : Operation → Tree → Answer
  | tick w a, t => .turned (t.tick w a).world (t.tick w a).trace
  | jumpTo target, t =>
    match t.jumpTo target with
    | .ok _ => .done
    | .error fault => .refused fault
  | reset, _ => .done
  | addSibling existing spec, t =>
    match t.addSibling existing spec with
    | .ok (_, row) => .added row
    | .error fault => .refused fault

/-- The status of the node with a name. -/
def status? (t : Tree) (id : String) : Option Status := (t.arena.lookup? id).map t.arena.status

/-- What a tree shows. -/
structure Appearance where
  head : String
  currentId : String
  status? : String → Option Status
  hasNode : String → Bool
  text : String

/-- All that a tree shows at a time. -/
def appearance (t : Tree) : Appearance where
  head := t.head
  currentId := t.currentId
  status? := t.status?
  hasNode := t.arena.hasNode
  text := Flowchart.treeText t

/-- All there is to see while operations are done one after another: what each of them tells, and
what the tree shows after it. -/
def transcript : Tree → List Operation → List (Answer × Appearance)
  | _, [] => []
  | t, op :: rest => (op.answer t, (t.after op).appearance) :: (t.after op).transcript rest

namespace Renumbers

variable {σ : NodeIdx → NodeIdx} {t u : Tree}

/-! ### Trees in other rows -/

section Appearance

variable (h : t.Renumbers σ u)

include h

theorem head_eq : u.head = t.head := by
  rw [head, head, h.pending?_eq, h.currentId_eq, h.current, h.jumped, rootId, rootId, h.root,
    h.arena.id_eq, h.arena.parent?_eq]
  split
  · rfl
  · cases t.arena.parent? t.current with
    | none => rfl
    | some parent =>
        simp only [Option.map_some, h.arena.children_eq, List.dropWhile_map, h.arena.bne_comp]
        split
        · rfl
        · rcases (t.arena.children parent).dropWhile (· != t.current) with _ | ⟨_, _ | ⟨next, _⟩⟩
          · rfl
          · rfl
          · exact h.arena.id_eq next

/-- Every name has the same status. -/
theorem status?_eq (id : String) : u.status? id = t.status? id := by
  rw [status?, status?, h.arena.lookup?, Option.map_map]
  congr 1
  funext i
  exact h.arena.status_eq i

theorem links_eq : Flowchart.links u = (Flowchart.links t).map (Prod.map σ σ) := by
  rw [Flowchart.links, Flowchart.links, preorder, h.root, h.arena.preorderFrom_eq,
    List.flatMap_map, List.map_flatMap]
  congr 1
  funext i
  rw [h.arena.children_eq, List.map_map, List.map_map]
  rfl

theorem declaration_eq (i : NodeIdx) :
    Flowchart.declaration u.arena (σ i) = Flowchart.declaration t.arena i := by
  rw [Flowchart.declaration, h.arena.id_eq, h.arena.kind_eq, Flowchart.declaration]

theorem linkLine_eq (parent : String) (i : NodeIdx) :
    Flowchart.linkLine u.arena parent (σ i) = Flowchart.linkLine t.arena parent i := by
  rw [Flowchart.linkLine, h.declaration_eq, Flowchart.linkLine]

/-- The trees are written as the same text. -/
theorem treeText_eq : Flowchart.treeText u = Flowchart.treeText t := by
  rw [Flowchart.treeText, Flowchart.treeText, Flowchart.treeLines, Flowchart.treeLines, h.links_eq]
  cases Flowchart.links t with
  | nil =>
      rw [List.map_nil, h.root, h.declaration_eq]
  | cons l rest =>
      simp only [List.map_cons, List.map_map, Prod.map_fst, Prod.map_snd, h.declaration_eq,
        h.linkLine_eq, Function.comp_def, h.arena.id_eq]

/-- **Rows do not show.** -/
theorem appearance_eq : u.appearance = t.appearance := by
  rw [appearance, appearance, h.head_eq, h.currentId_eq, funext h.status?_eq,
    funext h.arena.hasNode_eq, h.treeText_eq]

/-- Every operation tells the same. -/
theorem answer_eq (op : Operation) : op.answer u = op.answer t := by
  cases op with
  | tick w a =>
      obtain ⟨-, hworld, htrace⟩ := h.tick w a
      rw [Operation.answer, Operation.answer, hworld, htrace]
  | jumpTo target =>
      have hresult := h.jumpTo target
      rw [Operation.answer, Operation.answer]
      generalize t.jumpTo target = x, u.jumpTo target = y at hresult
      cases hresult <;> rfl
  | reset => rfl
  | addSibling existing spec =>
      have hresult := h.addSibling existing spec
      rw [Operation.answer, Operation.answer]
      generalize t.addSibling existing spec = x, u.addSibling existing spec = y at hresult
      cases hresult with
      | refused _ => rfl
      | done hgrown => exact congrArg Answer.added hgrown.2

end Appearance

/-- **Whatever is done to two trees that differ in their rows**, they answer the same and show the
same after every step. -/
theorem transcript_eq (h : t.Renumbers σ u) (ops : List Operation) :
    u.transcript ops = t.transcript ops := by
  induction ops generalizing t u with
  | nil => rfl
  | cons op rest ih =>
      rw [transcript, transcript, h.answer_eq, (h.after op).appearance_eq, ih (h.after op)]

end Renumbers

end Tree

end Ladybug
