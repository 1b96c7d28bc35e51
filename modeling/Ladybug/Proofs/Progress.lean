import Ladybug.Proofs.Halting
import Mathlib.Data.Finset.Card

/-!
# Turns make progress

A walk changes the statuses of composites and conditions only, and a turn whose first walk halts
ends one action that had not ended. So the actions that have not ended are a measure: each such
turn takes one of them away and brings none back, from whatever statuses the turns begin, and
whatever others do to the world between them. Sooner or later a first walk comes to the end of
the tree, which then starts over, and until it does no action is performed a second time.

## Main definitions

* `Arena.unfinished` — the actions that have not ended.
* `Tree.turned` — the tree before each of a series of turns.
* `Tree.StartsOver` — a turn in which the tree starts over.
* `Tree.Progresses` — how soon a tree starts over, and what happens between.

## Main results

* `Tree.walk_spares` — a walk leaves the statuses of actions alone.
* `Tree.Sound.unfinished_tick` — a turn whose first walk halts takes one action away.
* `Tree.Reachable.progresses` — reachable trees make progress in any series of turns.
-/

namespace Ladybug

/-! ### The actions that have not ended -/

/-- The actions that have not ended. -/
def Arena.unfinished (t : Arena) : Finset NodeIdx :=
  (Finset.range t.size).filter fun i => (t.kind i).isAction ∧ (t.status i).outcome? = none

theorem Arena.mem_unfinished {t : Arena} {i : Nat} :
    i ∈ t.unfinished ↔
      i < t.size ∧ (t.kind i).isAction ∧ (t.status i).outcome? = none := by
  rw [unfinished, Finset.mem_filter, Finset.mem_range]

/-- A node that ends is none of them. -/
theorem Arena.unfinished_setStatus {t : Arena} {i : Nat} (hi : i < t.size) (ok : Bool) :
    (t.setStatus i (.ofOutcome ok)).unfinished = t.unfinished.erase i := by
  ext j
  rw [Finset.mem_erase, mem_unfinished, mem_unfinished, size_setStatus, kind_setStatus,
    status_setStatus hi]
  by_cases hj : j = i <;> simp [hj]

namespace Tree

open Arena

variable {w : World} {a : AgentId} {t u v : Tree} {i : NodeIdx}

/-! ### Walks and actions -/

/-- Between two trees only statuses have changed, and none of an action. -/
structure Spares (t u : Tree) : Prop where
  shape : u.arena.shape = t.arena.shape
  status : ∀ i, (t.arena.kind i).isAction → u.arena.status i = t.arena.status i

namespace Spares

/-- Statuses that stay are not those of actions either. -/
theorem refl (h : u.arena = t.arena) : t.Spares u where
  shape := by rw [h]
  status i _ := by rw [h]

theorem trans (h : t.Spares u) (h' : u.Spares v) : t.Spares v where
  shape := h'.shape.trans h.shape
  status i hi := (h'.status i (by rwa [kind_of_shape h.shape])).trans (h.status i hi)

/-- The status of another node may change. -/
theorem setStatus (hi : ¬ (t.arena.kind i).isAction) (s : Status) :
    t.Spares (t.setStatus i s) where
  shape := shape_setStatus ..
  status j hj := by
    refine status_setStatus_of_ne _ ?_ s
    rintro rfl
    exact hi hj

/-- The same actions have not ended. -/
theorem unfinished (h : t.Spares u) : u.arena.unfinished = t.arena.unfinished := by
  ext i
  rw [mem_unfinished, mem_unfinished, size_of_shape h.shape, kind_of_shape h.shape]
  refine and_congr_right fun _ => and_congr_right fun hi => ?_
  rw [h.status i hi]

/-- Walks enter and end other nodes only. -/
theorem holdsOfSteps (a : AgentId) (t : Arena) :
    HoldsOfSteps a t fun u _ v => u.Spares v where
  shape := Spares.shape
  refl := Spares.refl
  trans := Spares.trans
  enter {u i} hu _ hi := by
    rw [Tree.enter]
    split
    · refine .setStatus ?_ _
      rwa [kind_of_shape hu, Bool.not_eq_true]
    · exact .refl rfl
  finish {u i} hu _ hi ok := by
    refine .setStatus ?_ _
    rwa [kind_of_shape hu, Bool.not_eq_true]

end Spares

/-- **A walk leaves the statuses of actions alone.** -/
theorem walk_spares (h : t.arena.Linked) (hi : i < t.arena.size) (w : World) (a : AgentId)
    (depth : Nat) : t.Spares (walk w a depth t i).tree :=
  (Spares.holdsOfSteps a t.arena).walk w h hi rfl depth

/-! ### Turns that halt -/

/-- **A turn whose first walk halts takes one action from those that have not ended**, the one
it performs. -/
theorem Sound.unfinished_tick (h : t.Sound) (hend : (t.firstWalk w a).ending = .halted) :
    (t.tick w a).tree.current ∈ t.arena.unfinished ∧
      (t.tick w a).tree.arena.unfinished =
        t.arena.unfinished.erase (t.tick w a).tree.current := by
  have hspares : t.Spares (t.firstWalk w a).tree := walk_spares h.linked h.root_lt ..
  obtain ⟨hwalks, action, hpending⟩ := Play.tick_of_halted h hend
  have hlt := (h.walks_sound w a).current_lt
  have hunfinished := ((h.firstWalk_passes w a).halts hend).2.2
  have haction : ((t.walks w a).tree.arena.kind (t.walks w a).tree.current).isAction := by
    rw [kind_of_pending? hpending]
    rfl
  rw [← hwalks] at hspares hunfinished
  rw [tick_of_pending hpending, ← hspares.unfinished]
  exact ⟨mem_unfinished.mpr ⟨hlt, haction, hunfinished⟩, unfinished_setStatus hlt _⟩

/-! ### Turns that start over -/

/-- The first walk of the turn comes to the end of the tree. All progress is forgotten, and the
tree is walked again. -/
structure StartsOver (t : Tree) (w : World) (a : AgentId) : Prop where
  ends : (t.firstWalk w a).ending ≠ .halted
  fresh : (t.firstWalk w a).tree.restart.Fresh
  again : t.walks w a =
    ((t.firstWalk w a).tree.restart.firstWalk w a).after (t.firstWalk w a).trace

/-- A tree starts over unless the first walk halts. -/
theorem Sound.startsOver_or_halted (h : t.Sound) (w : World) (a : AgentId) :
    t.StartsOver w a ∨ (t.firstWalk w a).ending = .halted := by
  cases hend : (t.firstWalk w a).ending with
  | halted => exact .inr rfl
  | finished ok =>
      refine .inl ⟨fun hhalted => ?_, (h.firstWalk_sound w a).fresh_reset,
        walks_of_finished hend⟩
      rw [hend] at hhalted
      cases hhalted

/-! ### Series of turns -/

/-- The tree before each of a series of turns, whatever the worlds are in which the turns are
taken. -/
def turned (t : Tree) (w : Nat → World) (a : Nat → AgentId) : Nat → Tree
  | 0 => t
  | k + 1 => ((t.turned w a k).tick (w k) (a k)).tree

variable {w : Nat → World} {a : Nat → AgentId}

/-- Series of turns keep a tree sound. -/
theorem Sound.turned (h : t.Sound) (w : Nat → World) (a : Nat → AgentId) (k : Nat) :
    (t.turned w a k).Sound := by
  induction k with
  | zero => exact h
  | succ k ih => exact ih.tick (w k) (a k)

/-- As long as the tree does not start over, each turn takes one action away. -/
theorem Sound.card_unfinished_turned (h : t.Sound) {n : Nat}
    (hnot : ∀ k < n, ¬ (t.turned w a k).StartsOver (w k) (a k)) :
    (t.turned w a n).arena.unfinished.card + n = t.arena.unfinished.card := by
  induction n with
  | zero => rfl
  | succ n ih =>
      have hsound := h.turned w a n
      have hend := (hsound.startsOver_or_halted (w n) (a n)).resolve_left (hnot n (by omega))
      obtain ⟨hmem, herase⟩ := hsound.unfinished_tick hend
      have hcard := Finset.card_erase_add_one hmem
      have hrest := ih fun k hk => hnot k (by omega)
      rw [Tree.turned, herase]
      omega

/-- As long as it does not, no action comes back. -/
theorem Sound.unfinished_turned_subset (h : t.Sound) {i j : Nat} (hij : i ≤ j)
    (hnot : ∀ k, i ≤ k → k < j → ¬ (t.turned w a k).StartsOver (w k) (a k)) :
    (t.turned w a j).arena.unfinished ⊆ (t.turned w a i).arena.unfinished := by
  induction j, hij using Nat.le_induction with
  | base => exact Finset.Subset.refl _
  | succ j hij ih =>
      have hsound := h.turned w a j
      have hend := (hsound.startsOver_or_halted (w j) (a j)).resolve_left (hnot j hij (by omega))
      rw [Tree.turned, (hsound.unfinished_tick hend).2]
      exact (Finset.erase_subset _ _).trans (ih fun k hik hkj => hnot k hik (by omega))

/-- How soon a tree starts over in a series of turns, and what happens before and between. -/
structure Progresses (t : Tree) (w : Nat → World) (a : Nat → AgentId) : Prop where
  /-- There are at most as many turns before as there are actions that have not ended. -/
  startsOver : ∃ k ≤ t.arena.unfinished.card, (t.turned w a k).StartsOver (w k) (a k)
  /-- Between two turns in which the tree starts over, the first of them included, no action is
  performed twice. -/
  once : ∀ first last : Nat,
    (∀ k, first < k → k < last → ¬ (t.turned w a k).StartsOver (w k) (a k)) →
    ∀ i j, first ≤ i → i < j → j < last → ∀ action action',
      ((t.turned w a i).tick (w i) (a i)).Performs (w i) (a i) action →
      ((t.turned w a j).tick (w j) (a j)).Performs (w j) (a j) action' →
      ((t.turned w a i).tick (w i) (a i)).tree.current ≠
        ((t.turned w a j).tick (w j) (a j)).tree.current

/-- **Turns make progress**, whatever happened to the tree before and whatever others do to the
world between the turns. -/
theorem Reachable.progresses {Admitted : NodeSpec → Prop} (h : t.Reachable Admitted)
    (w : Nat → World) (a : Nat → AgentId) : t.Progresses w a where
  startsOver := by
    by_contra hnever
    simp only [not_exists, not_and] at hnever
    have hcard := h.sound.card_unfinished_turned (n := t.arena.unfinished.card + 1)
      fun k hk => hnever k (Nat.le_of_lt_succ hk)
    omega
  once first last hnot i j hi hij hj action action' hperforms hperforms' := by
    have hsound := h.sound.turned w a
    have hend := ((hsound j).startsOver_or_halted (w j) (a j)).resolve_left (hnot j (by omega) hj)
    have hsub := h.sound.unfinished_turned_subset hij fun k hik hkj =>
      hnot k (Nat.lt_of_le_of_lt hi hik) (by omega)
    have hmem := hsub ((hsound j).unfinished_tick hend).1
    intro hsame
    rw [← hsame] at hmem
    have houtcome := (mem_unfinished.mp hmem).2.2
    rw [Tree.turned, (hsound i).status_of_performs hperforms, Status.outcome?_ofOutcome] at houtcome
    cases houtcome

/-- After a jump over the first action of three, two have not ended, and whatever world each turn
finds, the tree starts over within three turns. -/
theorem progresses_after_jump :
    let w : Nat → World := fun k =>
      ⟨Grid.blank (k + 1) 2, Colony.ofSpawns [⟨⟨0, 0⟩, .right⟩, ⟨⟨k, 1⟩, .left⟩]⟩
    ∃ t : Tree,
      Flowchart.readTrees ["flowchart TD", "A[->] --> B[turnLeft]", "A --> C[=1>]",
        "C --> D[move]", "C --> E[placeLeaf]"] 1 = .ok [t] ∧
      (t.after (.jumpTo "C")).arena.unfinished.card = 2 ∧
      (t.after (.jumpTo "C")).Progresses w fun _ => .first := by
  intro w
  have hprogresses (t : Tree)
      (ht : Flowchart.readTrees ["flowchart TD", "A[->] --> B[turnLeft]", "A --> C[=1>]",
        "C --> D[move]", "C --> E[placeLeaf]"] 1 = .ok [t]) :
      (t.after (.jumpTo "C")).Progresses w fun _ => .first := by
    have hread : Reachable (fun _ => True) t := .read ht (List.mem_singleton_self t)
    have hjump : Reachable (fun _ => True) (t.after (.jumpTo "C")) := .after hread trivial
    exact hjump.progresses w fun _ => .first
  exact ⟨_, rfl, by decide, hprogresses _ rfl⟩

end Tree

end Ladybug
