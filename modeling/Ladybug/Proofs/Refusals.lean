import Ladybug.Proofs.Settled

/-!
# A refused operation changes nothing

Most operations look at everything that could stop them before they change anything. A round
of turns is different: after each turn the game has changed, and the next ladybug might yet be
refused. That this never happens is due to an agreement between two tables, who is active and
who has a tree. Whoever takes a turn in a round was active when the round began, and no turn
makes anyone inactive or takes a tree away.

## Main definitions

* `Field.Bound` — the active ladybugs are those with a tree.

## Main results

* `Field.bound_invariant` — the steps of a field keep the two tables in agreement.
* `Game.ends_nextAction_of_bound` — a round of turns is refused only before it begins.
* `Game.Reachable.run_error` — a reachable game is as before after every refused operation.
-/

namespace Ladybug

/-- On a fresh board nobody is active. -/
theorem Colony.isActive_ofSpawns (spawns : List Spawn) (a : AgentId) :
    (ofSpawns spawns).isActive a = false := by
  rw [isActive, ofSpawns, Array.getElem?_replicate]
  split <;> rfl

namespace Field

/-! ### Active ladybugs and trees -/

/-- The tables are in order, and the active ladybugs are those with a tree. -/
structure Bound (f : Field) : Prop extends f.Aligned where
  active : ∀ a, f.world.colony.contains a →
    (f.world.colony.isActive a ↔ ∃ t, f.trees[a.index]? = some (some t))

/-- The first ladybugs and no others are active after they were made so. -/
theorem isActive_activateFirst {c : Colony} {a : AgentId} (h : a.index < c.active.size) (n : Nat) :
    (activateFirst c n).isActive a = decide (a.index < n) := by
  induction n with
  | zero =>
      change (c.active.map fun _ => false)[a.index]?.getD false = _
      simp [h]
  | succ n ih =>
      obtain ⟨active, heq, hsize⟩ := exists_activateFirst_eq c n
      rw [activateFirst_succ]
      by_cases hn : n < c.active.size
      · have hrow : (AgentId.ofIndex n).index < (activateFirst c n).active.size := by
          rw [heq]
          exact hsize.symm ▸ hn
        rw [Colony.isActive_setActive hrow, ih, AgentId.index_ofIndex]
        split
        · next hlast => simp [hlast]
        · next hother =>
            rw [decide_eq_decide]
            omega
      · have hbeyond : (activateFirst c n).active.size ≤ n := by
          rw [heq]
          exact hsize.symm ▸ Nat.le_of_not_lt hn
        rw [Colony.setActive, AgentId.index_ofIndex, Array.setIfInBounds_eq_of_size_le hbeyond, ih,
          decide_eq_decide]
        omega

section Bound

variable {f : Field} {a : AgentId} {t : Tree}

/-- An active ladybug has a tree. -/
theorem Bound.exists_tree (h : f.Bound) (hcontains : f.world.colony.contains a)
    (hactive : f.world.colony.isActive a) : ∃ t, f.tree a = .ok t := by
  obtain ⟨t, ht⟩ := (h.active a hcontains).mp hactive
  exact ⟨t, tree_eq_ok_iff.mpr ⟨⟨hcontains, hactive⟩, ht⟩⟩

/-- Replacing the tree of a ladybug that has one does not change who has a tree. -/
theorem exists_tree_setTree_iff (h : f.tree a = .ok t) (edited : Tree) (b : AgentId) :
    (∃ t', (f.setTree a edited).trees[b.index]? = some (some t')) ↔
      ∃ t', f.trees[b.index]? = some (some t') := by
  obtain ⟨-, hplace⟩ := tree_eq_ok_iff.mp h
  obtain ⟨hlt, -⟩ := Array.getElem?_eq_some_iff.mp hplace
  change (∃ t', (f.trees.setIfInBounds a.index (some edited))[b.index]? = _) ↔ _
  rw [Array.getElem?_setIfInBounds, if_pos hlt]
  split
  · next hrow =>
      exact ⟨fun _ => ⟨t, hrow ▸ hplace⟩, fun _ => ⟨edited, rfl⟩⟩
  · rfl

/-- Binding trees makes the first ladybugs active, and no others. -/
theorem isActive_bind_iff (h : f.initial.colony.Aligned) (trees : List Tree)
    (hcontains : f.initial.colony.contains a) :
    (f.bind trees).world.colony.isActive a ↔ a.index < trees.length := by
  have hrow : a.index < f.initial.colony.active.size := by
    rw [h.active]
    exact Colony.index_lt_of_contains hcontains
  rw [Field.bind, isActive_activateFirst hrow, decide_eq_true_iff]

/-- Binding trees gives the first ladybugs one each, and nothing to the others. -/
theorem exists_tree_bind_iff (trees : List Tree) (hcontains : f.initial.colony.contains a) :
    (∃ t, (f.bind trees).trees[a.index]? = some (some t)) ↔ a.index < trees.length := by
  have hplace : (f.bind trees).trees[a.index]? = some trees[a.index]? := by
    have hlt := Colony.index_lt_of_contains hcontains
    simp [Field.bind, ladybugs, hlt]
  rw [hplace]
  constructor
  · rintro ⟨t, ht⟩
    obtain ⟨hlt, -⟩ := List.getElem?_eq_some_iff.mp (Option.some.inj ht)
    exact hlt
  · intro hlt
    exact ⟨_, congrArg some (List.getElem?_eq_getElem hlt)⟩

end Bound

/-- Whatever is done to a field, the active ladybugs are those with a tree. -/
theorem bound_invariant : Field.Invariant Bound where
  ofBoard {_ board} h := by
    refine ⟨aligned_invariant.ofBoard h, fun a _ => ?_⟩
    constructor
    · intro hactive
      have hnobody := Colony.isActive_ofSpawns board.spawns a
      cases hnobody.symm.trans hactive
    · rintro ⟨t, ht⟩
      have hnothing : (Array.replicate board.spawns.length none)[a.index]? = some (some t) := ht
      simp [Array.getElem?_replicate] at hnothing
  bind {f files trees} h htrees := by
    have haligned := aligned_invariant.bind h.toAligned htrees
    refine ⟨haligned, fun a ha => ?_⟩
    have hcontains : f.initial.colony.contains a := by
      rwa [Colony.contains_congr haligned.count] at ha
    rw [isActive_bind_iff h.initial trees hcontains, exists_tree_bind_iff trees hcontains]
  turn {f a _ _} h hturn := by
    have haligned := aligned_invariant.turn h.toAligned hturn
    obtain ⟨t, htree, -, rfl⟩ := exists_tree_of_turn hturn
    have hcolony := (t.tick_deed f.world a).colony
    refine ⟨haligned, fun b hb => ?_⟩
    change (t.tick f.world a).world.colony.contains b at hb
    rw [Colony.contains_congr hcolony.count] at hb
    change (t.tick f.world a).world.colony.isActive b ↔
      ∃ t', (f.setTree a (t.tick f.world a).tree).trees[b.index]? = some (some t')
    rw [hcolony.isActive, h.active b hb, exists_tree_setTree_iff htree]
  setTree {f a t} h htree edited := by
    refine ⟨aligned_invariant.setTree h.toAligned htree edited, fun b hb => ?_⟩
    rw [exists_tree_setTree_iff htree edited b]
    exact h.active b hb

end Field

namespace Game

section Refusals

variable {g : Game} {f : Field}

/-- A turn of an active ladybug is not refused, and the active ladybugs stay the same. -/
theorem ends_turn_of_bound (hfield : g.field = some f) (h : f.Bound) {a : AgentId}
    (ha : a ∈ f.world.colony.activeIds) :
    Ends (turn a) g
      (fun _ g' => ∃ f', g'.field = some f' ∧ f'.Bound ∧
        f'.world.colony.activeIds = f.world.colony.activeIds)
      fun _ _ => False := by
  obtain ⟨hcontains, hactive⟩ := Colony.mem_activeIds.mp ha
  obtain ⟨t, htree⟩ := h.exists_tree hcontains hactive
  refine ends_turn ?_ ?_ ?_
  · intro f₀ trace f' hf hturn
    obtain rfl := Option.some.inj (hfield.symm.trans hf)
    refine ⟨f', rfl, Field.bound_invariant.turn h hturn, ?_⟩
    obtain ⟨t, -, -, rfl⟩ := Field.exists_tree_of_turn hturn
    exact (t.tick_deed f.world a).colony.activeIds
  · intro error hloaded
    rw [loaded_eq_ok_iff.mpr hfield] at hloaded
    cases hloaded
  · intro f₀ error hf hturn
    obtain rfl := Option.some.inj (hfield.symm.trans hf)
    rw [Field.turn_of_tree htree] at hturn
    cases hturn

/-- A round of turns of active ladybugs is not refused, since each turn leaves the ladybugs
behind it active and with their trees. -/
theorem ends_turns_of_bound (hfield : g.field = some f) (h : f.Bound) {σ : Type}
    (observer : TurnObserver σ) {ids : List AgentId} (hids : ids ⊆ f.world.colony.activeIds)
    (memory : σ) : Ends (turns observer ids memory) g (fun _ _ => True) fun _ _ => False := by
  induction ids generalizing g f memory with
  | nil => exact ends_pure trivial
  | cons a rest ih =>
      obtain ⟨ha, hrest⟩ := List.cons_subset.mp hids
      refine ends_bind ((ends_turn_of_bound hfield h ha).imp ?_ fun _ _ hno => hno)
      rintro trace g' ⟨f', hfield', h', hsame⟩
      refine ends_bind (ends_ask (fun _ _ => ?_) fun error hloaded => ?_)
      · refine ends_bind ((ih hfield' h' (hsame ▸ hrest) _).imp ?_ fun _ _ hno => hno)
        exact fun _ _ _ => ends_pure trivial
      · rw [loaded_eq_ok_iff.mpr hfield'] at hloaded
        cases hloaded

/-- A round of turns is refused only by a game that is not ready for it, and then at once. -/
theorem ends_nextAction_of_bound (h : Holds Field.Bound g) {σ : Type} (observer : TurnObserver σ)
    (memory : σ) :
    Ends (nextAction observer memory) g (fun _ _ => True)
      fun error g' => g.ready = .error error ∧ g' = g := by
  refine ends_bind (ends_ask (fun f hready => ?_) fun error hrefused => ⟨hrefused, rfl⟩)
  have hfield := (ready_eq_ok_iff.mp hready).1
  have hround := ends_turns_of_bound hfield (h f hfield) observer (List.Subset.refl _) memory
  exact hround.imp (fun _ _ _ => trivial) fun _ _ hno => hno.elim

/-- If a game in which the two tables agree refuses an operation, nothing has changed. -/
theorem ends_run_of_bound (h : Holds Field.Bound g) (op : Operation) :
    Ends op.run g (fun _ _ => True) fun _ g' => g' = g := by
  have hturn (a : AgentId) : Ends (turn a) g (fun _ _ => True) fun _ g' => g' = g :=
    ends_turn (fun _ _ _ _ _ => trivial) (fun _ _ => rfl) fun _ _ _ _ => rfl
  have hload (files : List (List String)) :
      Ends (loadTreeFiles files) g (fun _ _ => True) fun _ g' => g' = g :=
    ends_loadTreeFiles (fun _ _ _ _ => trivial) fun _ => rfl
  have hedit (a : AgentId) (edit : Tree → Except TreeError Tree) :
      Ends (editTree a edit) g (fun _ _ => True) fun _ g' => g' = g :=
    ends_editTree (fun _ _ _ _ _ _ => trivial) fun _ => rfl
  cases op with
  | loadBoard lines => exact ends_map (ends_loadBoard (fun _ _ => trivial) fun _ => rfl)
  | loadTrees lines => exact ends_map (hload [lines])
  | loadTreeFiles files => exact ends_map (hload files)
  | tick a => exact ends_map (ends_bind (ends_ask (fun _ _ => hturn a) fun _ _ => rfl))
  | nextAction observer memory =>
      have hround := ends_nextAction_of_bound h observer memory
      exact ends_map (hround.imp (fun _ _ _ => trivial) fun _ _ hrefused => hrefused.2)
  | resetTree a => exact hedit a _
  | jumpTo a node => exact hedit a _
  | addSibling a existing node =>
      exact ends_bind (ends_orFail (fun spec _ => hedit a _) fun _ _ => rfl)

/-- **A refused operation changes nothing**: the game that it leaves is the one before it,
with the world in play, the world as it was loaded, and every tree with its progress. -/
theorem Reachable.run_error (h : g.Reachable) {op : Operation} {error : GameError} {g' : Game}
    (hrun : op.run g = .error error g') : g' = g := by
  have hends := ends_run_of_bound (h.holds Field.bound_invariant) op
  rw [Ends, hrun] at hends
  exact hends

/-- After a turn, two texts of which only the first one can be read are refused, and the first
ladybug keeps its tree and its progress. -/
theorem run_error_second_text :
    let g := ((Game.new.after (.loadBoard [">v"])).after
      (.loadTrees ["flowchart TD", "A[->] --> B[turnLeft]"])).after (.tick .first)
    let texts := [["flowchart TD", "A[->] --> B[move]"], ["flowchart TD", "A[->]"]]
    ∃ error g', (Operation.loadTreeFiles texts).run g = .error error g' ∧ g' = g := by
  intro g texts
  have hreach : g.Reachable := .after _ (.after _ (.after _ .new))
  have hrefused : (Operation.loadTreeFiles texts).run.run' g = none := by decide +kernel
  cases hrun : (Operation.loadTreeFiles texts).run g with
  | ok _ g' =>
      delta EStateM.run' EStateM.run at hrefused
      rw [hrun] at hrefused
      cases hrefused
  | error error g' => exact ⟨error, g', rfl, hreach.run_error hrun⟩

end Refusals

end Game

end Ladybug
