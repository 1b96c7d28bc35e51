import Ladybug.Proofs.Checked.Reading
import Ladybug.Proofs.Checked.Showing
import Ladybug.Proofs.Plays

/-!
# Valid accesses on the playing field

Three tables are accessed by the row of a ladybug: the columns of the colony, and the places of the
trees. All are as long as there are ladybugs. A number that does not belong to the colony is refused
before it is turned into a row, and trees are bound to rows counted on from the first one, of which
there are enough. What else a turn accesses is the tree in that place and the world.

A field is *secure* if everything is in place for that: the world is settled, the coordinates
inside its grid are small, there is a place for each ladybug, and the trees have been read from
texts, or are made of such trees. Loads and steps leave a field secure.

## Main definitions

* `Board.Small` — the board is within what integers of 32 bits can count.
* `Field.Secure` — what all accesses on the field rest on.
* `Checked.tree`, `Checked.fieldTurn`, `Checked.bind` — the field, with checked accesses.

## Main results

* `Field.secure_ofBoard`, `Field.Secure.bind`, `Field.Secure.step` — fields stay secure.
* `Field.Secure.writable` — what a step records may be shown.
* `Checked.tree_agrees`, `Checked.fieldTurn_agrees`, `Checked.bind_eq` — what is done on a secure
  field makes valid accesses only.
-/

namespace Ladybug

open Flowchart

/-- The columns and rows of the board are as many as a positive integer of 32 bits can count, and
its ladybugs are fewer than numbers. -/
structure Board.Small (b : Board) : Prop where
  columns : b.grid.columns ≤ maxCoordinate
  rows : b.grid.rows ≤ maxCoordinate
  ladybugs : b.spawns.length < maxLadybug

/-- What all accesses on the field rest on. -/
structure Field.Secure (f : Field) : Prop where
  settled : f.Settled
  small : f.initial.grid.Small
  bounds : ∀ p, f.world.grid.inBounds p = f.initial.grid.inBounds p
  ladybugs : f.ladybugs < maxLadybug
  places : f.trees.size = f.ladybugs
  trees : f.TreesReachable

namespace Field

variable {f f' : Field} {a : AgentId} {t : Tree} {trace : Trace}

/-! ### Secure fields -/

/-- A small board makes a secure field. -/
theorem secure_ofBoard {lines : List String} {b : Board} (h : Board.read lines = .ok b)
    (hsmall : b.Small) : (ofBoard b).Secure where
  settled := settled_invariant.ofBoard h (Grid.small_of_le hsmall.columns hsmall.rows).countable
  small := Grid.small_of_le hsmall.columns hsmall.rows
  bounds _ := rfl
  ladybugs := hsmall.ladybugs
  places := Array.size_replicate
  trees := treesReachable_ofBoard b

namespace Secure

/-- Coordinates inside the grid in play are small. -/
theorem world_small (h : f.Secure) : f.world.grid.Small := h.small.congr h.bounds

/-- There is a place for each ladybug in play. -/
theorem lt_places (h : f.Secure) (ha : f.world.colony.contains a) : a.index < f.trees.size := by
  rw [h.places, Field.ladybugs, ← h.settled.count]
  exact Colony.index_lt_of_contains ha

/-- Binding trees leaves a field secure. -/
theorem bind (h : f.Secure) {files : List (List String)} {trees : List Tree}
    (hread : readTreeFiles files f.ladybugs = .ok trees) : (f.bind trees).Secure where
  settled := settled_invariant.bind (fun _ => h.settled) hread h.small.countable
  small := h.small
  bounds _ := rfl
  ladybugs := h.ladybugs
  places := by simp [Field.bind, Field.ladybugs]
  trees := treesReachable_bind hread

/-- A tree on the field is sound, and its ladybug belongs to the colony. -/
theorem tree (h : f.Secure) (htree : f.tree a = .ok t) :
    t.Reachable IsRead ∧ f.world.colony.contains a :=
  have hplace := tree_eq_ok_iff.mp htree
  ⟨h.trees a.index t hplace.2, hplace.1.1⟩

/-- A step leaves a field secure. -/
theorem step (h : f.Secure) (hstep : f.Step trace f') : f'.Secure := by
  have htrees := hstep.treesReachable h.trees
  cases hstep with
  | @turn a t htree =>
      have hdeed := t.tick_deed f.world a
      exact
        { settled :=
            settled_invariant.turn (fun _ => h.settled) (turn_of_tree htree) h.small.countable
          small := h.small
          bounds := fun p => (hdeed.grid.inBounds p).trans (h.bounds p)
          ladybugs := h.ladybugs
          places := Array.size_setIfInBounds.trans h.places
          trees := htrees }
  | edit htree hadds =>
      exact
        { settled := settled_invariant.setTree (fun _ => h.settled) htree _ h.small.countable
          small := h.small
          bounds := h.bounds
          ladybugs := h.ladybugs
          places := Array.size_setIfInBounds.trans h.places
          trees := htrees }

/-- The numbers of the active ladybugs may be listed. -/
theorem activeIds (h : f.Secure) :
    Checked.activeIds f.world.colony = .ok f.world.colony.activeIds :=
  Checked.activeIds_eq h.settled.world.active (h.settled.count.trans_le h.ladybugs.le)

/-- The turn of a tree on the field makes valid accesses only, and what it records may be shown. -/
theorem tick (h : f.Secure) (htree : f.tree a = .ok t) :
    Checked.tick t f.world a = .ok (t.tick f.world a) ∧
      ∀ e ∈ (t.tick f.world a).trace, e.kind.Writable := by
  obtain ⟨hreach, hcontains⟩ := h.tree htree
  obtain ⟨htick, hkinds⟩ := Checked.tick_eq
    (Checked.holds_eq h.settled.world h.world_small hcontains)
    (Checked.perform_eq h.settled.world h.world_small hcontains) hreach.sound
  refine ⟨htick, fun e he => ?_⟩
  obtain ⟨i, hi, hkind⟩ := hkinds e he
  have hlegible := hreach.legible fun spec ⟨_, hread⟩ => legible_of_readNode hread
  exact hkind ▸ (hlegible.arena i hi).writable

/-- What a step records may be shown. -/
theorem writable (h : f.Secure) (hstep : f.Step trace f') : ∀ e ∈ trace, e.kind.Writable := by
  cases hstep with
  | turn htree => exact (h.tick htree).2
  | edit _ _ => exact nofun

end Secure

end Field

namespace Checked

/-! ### One ladybug -/

/-- Refuses a ladybug that does not exist or has no tree. -/
def checkActive (f : Field) (a : AgentId) : ExceptT GameError Checked Unit := do
  let known ← contains f.world.colony a
  if !known then throw (.unknownLadybug a)
  else
    let active ← isActive f.world.colony a
    if !active then throw (.inactiveLadybug a) else return ()

/-- The tree of a ladybug. -/
def tree (f : Field) (a : AgentId) : ExceptT GameError Checked Tree := do
  checkActive f a
  let row ← index a
  let place ← (entry f.trees row : Checked (Option Tree))
  match place with
  | some tree => return tree
  | none => throw (.inactiveLadybug a)

/-- Replaces the tree of a ladybug. -/
def setTree (f : Field) (a : AgentId) (tree : Tree) : Checked Field := do
  let row ← index a
  let trees ← setEntry f.trees row (some tree)
  return { f with trees }

/-- One turn of a ladybug, and what was recorded. -/
def fieldTurn (f : Field) (a : AgentId) : ExceptT GameError Checked (Trace × Field) := do
  let tree ← tree f a
  let done ← tick tree f.world a
  let placed ← setTree f a done.tree
  return (done.trace, { placed with world := done.world })

section OneLadybug

variable {f : Field} {a : AgentId}

theorem checkActive_agrees (h : f.Secure) (a : AgentId) :
    Agrees (checkActive f a) (f.checkActive a) := by
  refine .access (contains_eq _ a) (.ite (fun _ => .throw _) fun hknown => ?_)
  have ha : f.world.colony.contains a := by simpa using hknown
  exact .access (isActive_eq h.settled.world.active ha) (.ite (fun _ => .throw _) fun _ => .pure _)

/-- A ladybug that is not refused belongs to the colony. -/
theorem contains_of_checkActive {value : Unit} (h : f.checkActive a = .ok value) :
    f.world.colony.contains a := by
  by_contra hcontains
  rw [Field.checkActive_of_not_contains hcontains] at h
  cases h

/-- **The tree of a ladybug may be asked for by any number.** -/
theorem tree_agrees (h : f.Secure) (a : AgentId) : Agrees (tree f a) (f.tree a) := by
  refine .bind (checkActive_agrees h a) fun _ hactive => ?_
  have ha := contains_of_checkActive hactive
  have hlt := h.lt_places ha
  refine .access (index_of_contains ha) (.access (entry_eq hlt none) ?_)
  rw [Array.getElem?_eq_getElem hlt, Option.getD_some]
  cases f.trees[a.index] with
  | some t => exact .pure t
  | none => exact .throw _

theorem setTree_eq (h : f.Secure) (ha : f.world.colony.contains a) (t : Tree) :
    setTree f a t = .ok (f.setTree a t) := by
  rw [setTree, index_of_contains ha, ok_bind, setEntry_eq (h.lt_places ha)]
  rfl

/-- **A turn on a secure field makes valid accesses only.** -/
theorem fieldTurn_agrees (h : f.Secure) (a : AgentId) : Agrees (fieldTurn f a) (f.turn a) := by
  refine .bind (tree_agrees h a) fun t htree => ?_
  exact .access (h.tick htree).1 (.access (setTree_eq h (h.tree htree).2 _) (.pure _))

end OneLadybug

/-! ### Binding trees -/

/-- Puts a tree in the place of a ladybug and makes the ladybug active. -/
def bindTree (placed : Array (Option Tree) × Colony) (next : Tree × Nat) :
    Checked (Array (Option Tree) × Colony) := do
  let a ← ofIndex next.2
  let trees ← setEntry placed.1 next.2 (some next.1)
  let colony ← setActive placed.2 a true
  return (trees, colony)

/-- Starts over from the world as it was loaded, with the trees bound to the first ladybugs. -/
def bind (f : Field) (trees : List Tree) : Checked Field := do
  let (places, colony) ← trees.zipIdx.foldlM bindTree
    (Array.replicate f.ladybugs none, f.initial.colony.deactivateAll)
  return { world := { f.initial with colony }, initial := f.initial, trees := places,
           treesLoaded := true }

section Binding

variable {f : Field}

/-- The place after the last tree takes the next one. -/
theorem setIfInBounds_places (n : Nat) (trees : List Tree) (t : Tree) :
    (((List.range n).map fun row => trees[row]?).toArray).setIfInBounds trees.length (some t) =
      ((List.range n).map fun row => (trees ++ [t])[row]?).toArray := by
  refine Array.ext_getElem? fun row => ?_
  rw [Array.getElem?_setIfInBounds]
  simp only [List.getElem?_toArray, List.getElem?_map, List.size_toArray, List.length_map,
    List.length_range]
  by_cases hrow : row < n
  · rw [List.getElem?_range hrow, Option.map_some, Option.map_some]
    by_cases hlast : trees.length = row
    · rw [if_pos hlast, if_pos (hlast ▸ hrow), ← hlast, List.getElem?_concat_length]
    · rw [if_neg hlast, List.getElem?_append]
      split
      · rfl
      · next hge =>
          rw [List.getElem?_eq_none (Nat.le_of_not_lt hge), List.getElem?_eq_none]
          rw [List.length_singleton]
          omega
  · have hnone : (List.range n)[row]? = none :=
      List.getElem?_eq_none (by rw [List.length_range]; exact Nat.le_of_not_lt hrow)
    rw [hnone]
    split
    · next hlast => rw [if_neg (hlast ▸ hrow)]; rfl
    · rfl

/-- Before the first tree all places are empty. -/
theorem places_nil (n : Nat) :
    Array.replicate n (none : Option Tree) =
      ((List.range n).map fun row => ([] : List Tree)[row]?).toArray := by
  simp

/-- The next tree is bound to the ladybug after the last one that has a tree. -/
theorem bindTree_eq (h : f.Secure) {trees : List Tree} (hlength : trees.length < f.ladybugs)
    (t : Tree) :
    bindTree (((List.range f.ladybugs).map fun row => trees[row]?).toArray,
        Field.activateFirst f.initial.colony trees.length) (t, trees.length) =
      .ok (((List.range f.ladybugs).map fun row => (trees ++ [t])[row]?).toArray,
        Field.activateFirst f.initial.colony (trees.length + 1)) := by
  obtain ⟨active, heq, hsize⟩ := Field.exists_activateFirst_eq f.initial.colony trees.length
  have hplace : trees.length <
      ((List.range f.ladybugs).map fun row => trees[row]?).toArray.size := by simpa using hlength
  have hcolony : (Field.activateFirst f.initial.colony trees.length).active.size =
      (Field.activateFirst f.initial.colony trees.length).count := by
    rw [heq]
    exact hsize.trans h.settled.initial.active
  have hcontains : (Field.activateFirst f.initial.colony trees.length).contains
      (.ofIndex trees.length) := by
    rw [heq, Colony.contains_iff]
    exact ⟨Nat.le_add_left 1 _, hlength⟩
  rw [bindTree, ofIndex_eq (hlength.trans h.ladybugs), ok_bind, setEntry_eq hplace, ok_bind,
    setActive_eq hcolony hcontains, setIfInBounds_places, Field.activateFirst_succ]
  rfl

/-- **Binding trees makes valid accesses only**, if there are no more trees than ladybugs. -/
theorem bind_eq (h : f.Secure) {trees : List Tree} (hlength : trees.length ≤ f.ladybugs) :
    bind f trees = .ok (f.bind trees) := by
  -- The trees are bound from the first one on, so the induction is on the last one.
  have hfold : trees.zipIdx.foldlM bindTree
      (Array.replicate f.ladybugs none, f.initial.colony.deactivateAll) =
        .ok (((List.range f.ladybugs).map fun row => trees[row]?).toArray,
          Field.activateFirst f.initial.colony trees.length) := by
    induction trees using List.reverseRecOn with
    | nil => exact congrArg Except.ok (Prod.ext (places_nil f.ladybugs) rfl)
    | append_singleton trees t ih =>
        rw [List.length_append, List.length_singleton] at hlength
        rw [List.zipIdx_append, List.foldlM_append, ih (by omega), ok_bind]
        have hbind := bindTree_eq h hlength t
        simp [hbind]
  rw [bind, hfold]
  rfl

end Binding

end Checked

end Ladybug
