import Ladybug.Proofs.Reachable

/-!
# One action in a turn

A turn may walk its tree twice, with everything forgotten in between, and it may end with
an action that an earlier turn left under the resume pointer. All the same it performs at
most one action, and nothing but that action touches the world: an action changes the grid
and the row of its own ladybug only, and the walks before it change statuses only.

## Main definitions

* `Colony.SameBut` — two colonies differ at most in where one ladybug is and which way it
  faces.
* `Turn.Performs` and `Turn.Idles` — what a turn leaves if it performs an action, and if it
  performs none.

## Main results

* `Action.perform_sameBut` — an action changes no other ladybug.
* `Tree.Sound.tick_keeps` — a turn keeps what the tree is apart from its statuses.
* `Tree.Reachable.tick_performs_iff` — which turns perform an action, and what they leave.
-/

namespace Ladybug

/-! ### What an action touches -/

/-- The colonies have the same rows, except perhaps for where the ladybug is and which way
it faces. -/
structure Colony.SameBut (a : AgentId) (c d : Colony) : Prop where
  count : d.count = c.count
  active : d.active = c.active
  positions_size : d.positions.size = c.positions.size
  directions_size : d.directions.size = c.directions.size
  positions : ∀ row, row ≠ a.index → d.positions[row]? = c.positions[row]?
  directions : ∀ row, row ≠ a.index → d.directions[row]? = c.directions[row]?

namespace Colony.SameBut

variable {a : AgentId} {c d e : Colony}

theorem refl (a : AgentId) (c : Colony) : SameBut a c c :=
  ⟨rfl, rfl, rfl, rfl, fun _ _ => rfl, fun _ _ => rfl⟩

theorem trans (h : SameBut a c d) (h' : SameBut a d e) : SameBut a c e where
  count := h'.count.trans h.count
  active := h'.active.trans h.active
  positions_size := h'.positions_size.trans h.positions_size
  directions_size := h'.directions_size.trans h.directions_size
  positions row hrow := (h'.positions row hrow).trans (h.positions row hrow)
  directions row hrow := (h'.directions row hrow).trans (h.directions row hrow)

theorem setPosition (a : AgentId) (c : Colony) (p : Position) :
    SameBut a c (c.setPosition a p) where
  count := rfl
  active := rfl
  positions_size := Array.size_setIfInBounds
  directions_size := rfl
  positions _ hrow := Array.getElem?_setIfInBounds_ne (Ne.symm hrow)
  directions _ _ := rfl

theorem setDirection (a : AgentId) (c : Colony) (d : Direction) :
    SameBut a c (c.setDirection a d) where
  count := rfl
  active := rfl
  positions_size := rfl
  directions_size := Array.size_setIfInBounds
  positions _ _ := rfl
  directions _ hrow := Array.getElem?_setIfInBounds_ne (Ne.symm hrow)

end Colony.SameBut

/-- A deed that succeeds changes no other ladybug. -/
theorem Action.attempt?_sameBut {action : Action} {w w' : World} {a : AgentId}
    (h : action.attempt? w a = some w') : Colony.SameBut a w.colony w'.colony := by
  cases action with
  | move =>
      rw [attempt?, World.stepForward?] at h
      split at h
      · cases h
      · split at h
        · obtain rfl := Option.some.inj h
          exact .setPosition ..
        · dsimp only at h
          split at h
          · obtain rfl := Option.some.inj h
            exact .setPosition ..
          · cases h
        · cases h
  | turnLeft =>
      obtain rfl := Option.some.inj h
      exact .setDirection ..
  | turnRight =>
      obtain rfl := Option.some.inj h
      exact .setDirection ..
  | takeLeaf =>
      rw [attempt?, World.replaceAhead?] at h
      split at h
      · obtain rfl := Option.some.inj h
        exact .refl ..
      · cases h
  | placeLeaf =>
      rw [attempt?, World.replaceAhead?] at h
      split at h
      · obtain rfl := Option.some.inj h
        exact .refl ..
      · cases h
  | fly goal =>
      rw [attempt?, World.fly?] at h
      split at h
      · obtain rfl := Option.some.inj h
        exact (Colony.SameBut.setDirection ..).trans (.setPosition ..)
      · cases h

/-- An action changes no other ladybug. -/
theorem Action.perform_sameBut (action : Action) (w : World) (a : AgentId) :
    Colony.SameBut a w.colony (action.perform w a).1.colony := by
  rw [perform]
  cases h : action.attempt? w a with
  | none => exact .refl ..
  | some w' => exact attempt?_sameBut h

namespace Tree

open Arena

/-! ### What a turn leaves -/

/-- The turn performed the action, which is the one under the resume pointer, in the world
before the turn. Its record is the last one and the only one of an action. -/
structure Turn.Performs (turn : Turn) (w : World) (a : AgentId) (action : Action) : Prop where
  pointer : turn.tree.arena.kind turn.tree.current = .action action
  world : turn.world = (action.perform w a).1
  trace : ∃ before, (∀ e ∈ before, IsWalkRecord w a e) ∧
    turn.trace = before ++
      [⟨a, turn.tree.currentId, .action action, .ofOutcome (action.perform w a).2⟩]

/-- The turn performed no action, and the world is as before. -/
structure Turn.Idles (turn : Turn) (w : World) (a : AgentId) : Prop where
  world : turn.world = w
  trace : ∀ e ∈ turn.trace, IsWalkRecord w a e

/-- What stays in a turn: what the tree is apart from its statuses, and the other
ladybugs. -/
structure Turn.Keeps (turn : Turn) (t : Tree) (w : World) (a : AgentId) : Prop where
  root : turn.tree.root = t.root
  size : turn.tree.arena.size = t.arena.size
  lookup? : ∀ id, turn.tree.arena.lookup? id = t.arena.lookup? id
  id : ∀ i, turn.tree.arena.id i = t.arena.id i
  kind : ∀ i, turn.tree.arena.kind i = t.arena.kind i
  parent? : ∀ i, turn.tree.arena.parent? i = t.arena.parent? i
  children : ∀ i, turn.tree.arena.children i = t.arena.children i
  colony : Colony.SameBut a w.colony turn.world.colony

/-- A turn that performs an action is not idle. -/
theorem Turn.Performs.not_idles {turn : Turn} {w : World} {a : AgentId} {action : Action}
    (h : turn.Performs w a action) : ¬ turn.Idles w a := by
  intro hidle
  obtain ⟨before, -, htrace⟩ := h.trace
  have hlast := hidle.trace _ (htrace ▸ List.mem_append_right before (List.mem_singleton_self _))
  cases hlast.isAction

section Walked

variable {t u : Tree} {w : World} {a : AgentId} {nodes : List NodeIdx} {trace : Trace}
  {halted : Prop}

/-- After a stretch of a walk the pointer is at an action if the stretch halted, or if it
was there before. -/
theorem Passes.pending?_iff (h : Passes w a t nodes trace u halted) :
    u.pending?.isSome ↔ halted ∨ t.pending?.isSome := by
  by_cases hhalted : halted
  · exact ⟨fun _ => .inl hhalted, fun _ => (h.halts hhalted).2.1⟩
  · have hsame : u.pending? = t.pending? := by
      rw [pending?, h.stays hhalted, kind_of_shape h.shape, pending?]
    rw [hsame]
    exact ⟨.inr, fun hp => hp.resolve_left hhalted⟩

/-- The pending action is the kind of the node under the resume pointer. -/
theorem kind_of_pending? {action : Action} (h : t.pending? = some action) :
    t.arena.kind t.current = .action action := by
  rw [pending?] at h
  split at h
  · next hkind => rw [hkind, Option.some.inj h]
  · cases h

end Walked

/-- A turn whose walks leave the pointer at an action performs it. -/
theorem tick_of_pending {t : Tree} {w : World} {a : AgentId} {action : Action}
    (h : (t.walks w a).tree.pending? = some action) :
    t.tick w a =
      ⟨{ (t.walks w a).tree.setStatus (t.walks w a).tree.current
            (.ofOutcome (action.perform w a).2) with jumped := false },
        (action.perform w a).1,
        (t.walks w a).trace ++
          [⟨a, (t.walks w a).tree.currentId, .action action,
            .ofOutcome (action.perform w a).2⟩]⟩ := by
  have hkind := kind_of_pending? h
  rw [tick, h]
  simp only [finish, Walk.after, entryFor, hkind]
  rfl

/-- A turn whose walks leave the pointer elsewhere performs nothing. -/
theorem tick_of_not_pending {t : Tree} {w : World} {a : AgentId}
    (h : (t.walks w a).tree.pending? = none) :
    t.tick w a = ⟨{ (t.walks w a).tree with jumped := false }, w, (t.walks w a).trace⟩ := by
  rw [tick, h]

/-- What is kept by the walks of a turn is kept by the turn, if its tree has the shape of
theirs and its world changes no other ladybug. -/
theorem Turn.keeps_of_passes {turn : Turn} {t u : Tree} {w : World} {a : AgentId}
    {nodes : List NodeIdx} {trace : Trace} {halted : Prop} (h : Passes w a t nodes trace u halted)
    (hshape : turn.tree.arena.shape = u.arena.shape) (hroot : turn.tree.root = u.root)
    (hcolony : Colony.SameBut a w.colony turn.world.colony) : turn.Keeps t w a := by
  have hsame : turn.tree.arena.shape = t.arena.shape := hshape.trans h.shape
  exact
    { root := hroot.trans h.root
      size := size_of_shape hsame
      lookup? := lookup?_of_shape hsame
      id := id_of_shape hsame
      kind := kind_of_shape hsame
      parent? := parent?_of_shape hsame
      children := children_of_shape hsame
      colony := hcolony }

/-- A turn keeps what the tree is apart from its statuses, and the other ladybugs. -/
theorem Sound.tick_keeps {t : Tree} (h : t.Sound) (w : World) (a : AgentId) :
    (t.tick w a).Keeps t w a := by
  have hwalks := h.walks_passes w a
  cases hp : (t.walks w a).tree.pending? with
  | none =>
      rw [tick_of_not_pending hp]
      exact Turn.keeps_of_passes hwalks rfl rfl (.refl a w.colony)
  | some action =>
      rw [tick_of_pending hp]
      exact Turn.keeps_of_passes hwalks (shape_setStatus ..) rfl (action.perform_sameBut w a)

/-- **A turn performs an action exactly if one of its walks halts or the resume pointer was
at an action before**, and otherwise it is idle. In both cases it keeps what the tree is
apart from its statuses, and the other ladybugs, and it forgets that there was a jump. -/
theorem Reachable.tick_performs_iff {Admitted : NodeSpec → Prop} {t : Tree}
    (h : t.Reachable Admitted) (w : World) (a : AgentId) :
    ((∃ action, (t.tick w a).Performs w a action) ↔
        (t.walks w a).ending = .halted ∨ t.pending?.isSome) ∧
      ((t.tick w a).Idles w a ↔ ¬ ∃ action, (t.tick w a).Performs w a action) ∧
      (t.tick w a).Keeps t w a ∧ (t.tick w a).tree.jumped = false := by
  have hwalks := h.sound.walks_passes w a
  have hpending := hwalks.pending?_iff
  cases hp : (t.walks w a).tree.pending? with
  | none =>
      have hidle : (t.tick w a).Idles w a := by
        rw [tick_of_not_pending hp]
        exact ⟨rfl, hwalks.records⟩
      have hnot : ¬ ∃ action, (t.tick w a).Performs w a action := fun ⟨_, hperforms⟩ =>
        hperforms.not_idles hidle
      rw [hp] at hpending
      refine ⟨⟨fun hperforms => absurd hperforms hnot, fun hwhen => ?_⟩, ⟨fun _ => hnot,
        fun _ => hidle⟩, ?_, ?_⟩
      · cases hpending.mpr hwhen
      · exact h.sound.tick_keeps w a
      · rw [tick_of_not_pending hp]
  | some action =>
      have hkind := kind_of_pending? hp
      have hperforms : (t.tick w a).Performs w a action := by
        rw [tick_of_pending hp]
        refine ⟨?_, rfl, (t.walks w a).trace, hwalks.records, ?_⟩
        · exact (kind_setStatus ..).trans hkind
        · simp only [currentId, setStatus, id_setStatus]
      rw [hp] at hpending
      refine ⟨⟨fun _ => hpending.mp rfl, fun _ => ⟨action, hperforms⟩⟩,
        ⟨fun hidle => absurd hidle hperforms.not_idles,
          fun hnot => absurd ⟨action, hperforms⟩ hnot⟩, ?_, ?_⟩
      · exact h.sound.tick_keeps w a
      · rw [tick_of_pending hp]

/-- After a jump to the last action and a turn, no walk of the next turn halts, and yet it
performs the action again: the tree has ended and starts over, its condition fails, and the
resume pointer is still at the action. -/
theorem tick_performs_left_over :
    let w : World := ⟨Grid.blank 3 1, Colony.ofSpawns [⟨⟨0, 0⟩, .right⟩]⟩
    ∃ t : Tree,
      Flowchart.readTrees ["flowchart TD", "A[->] --> B([treeFront])", "A --> C[move]"] 1 =
        .ok [t] ∧
      (((t.after (.jumpTo "C")).after (.tick w .first)).walks w .first).ending ≠ .halted ∧
      ∃ action, (((t.after (.jumpTo "C")).after (.tick w .first)).tick w .first).Performs
        w .first action := by
  intro w
  have hturn (t : Tree)
      (ht : Flowchart.readTrees
        ["flowchart TD", "A[->] --> B([treeFront])", "A --> C[move]"] 1 = .ok [t])
      (hpending : ((t.after (.jumpTo "C")).after (.tick w .first)).pending?.isSome) :
      ∃ action, (((t.after (.jumpTo "C")).after (.tick w .first)).tick w .first).Performs
        w .first action := by
    have hread : Reachable (fun _ => True) t := .read ht (List.mem_singleton_self t)
    have hjump : Reachable (fun _ => True) (t.after (.jumpTo "C")) := .after hread trivial
    have htick : Reachable (fun _ => True) ((t.after (.jumpTo "C")).after (.tick w .first)) :=
      .after hjump trivial
    exact (htick.tick_performs_iff w .first).1.mpr (.inr hpending)
  exact ⟨_, rfl, by decide, hturn _ rfl (by decide)⟩

end Tree

end Ladybug
