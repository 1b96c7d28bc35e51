import Ladybug.Proofs.Effects

/-!
# Bystanders are occupied cells

A turn looks at the other ladybugs in one way only: it asks whether somebody else stands on a
cell. How many they are, in which order they are listed, which way they face and which of them are
active makes no difference. So two worlds look alike to a ladybug if their grids are the same, if
it stands on the same cell and faces the same way in both, and if the others leave the same cells
free.

In worlds that look alike every condition has the same answer, so that walks go the same way. The
action that ends a turn is possible in both worlds or in neither, and its effect is named by what
the ladybug sees. As it moves nobody else, the worlds look alike again afterwards, and so it goes
on from turn to turn.

## Main definitions

* `World.LooksLike` — the ladybug sees no difference between two worlds.
* `Tree.takeTurns` — several turns of one ladybug.

## Main results

* `World.LooksLike.holds` — conditions are the same in worlds that look alike.
* `World.LooksLike.perform` — actions keep worlds alike.
* `Tree.tick_alike` — a turn is the same in worlds that look alike.
* `Tree.turns_of_looksLike` — so is any number of turns.
-/

namespace Ladybug

/-! ### The other ladybugs -/

namespace Colony.SameBut

variable {a : AgentId} {c d : Colony}

/-- The others leave the same cells free. -/
theorem free_iff (h : SameBut a c d) (ha : c.contains a) (p : Position) :
    d.Free a p ↔ c.Free a p := by
  have hcontains := contains_congr h.count
  have hposition {b : AgentId} (hb : c.contains b) (hne : b ≠ a) : d.position b = c.position b :=
    h.position fun hindex => hne (eq_of_index hb ha hindex)
  constructor
  · intro hfree b hb hne
    rw [← hposition hb hne]
    exact hfree b ((hcontains b).trans hb) hne
  · intro hfree b hb hne
    have hb := (hcontains b).symm.trans hb
    rw [hposition hb hne]
    exact hfree b hb hne

end Colony.SameBut

namespace World

/-! ### Worlds that look alike -/

/-- The ladybug belongs to both worlds and sees no difference between them: the grids are the same,
it stands on the same cell and faces the same way, and the others leave the same cells free. -/
structure LooksLike (a : AgentId) (w v : World) : Prop where
  aligned : w.colony.Aligned ∧ v.colony.Aligned
  contains : w.colony.contains a ∧ v.colony.contains a
  grid : v.grid = w.grid
  position : v.colony.position a = w.colony.position a
  direction : v.colony.direction a = w.colony.direction a
  others : ∀ p, v.colony.Free a p ↔ w.colony.Free a p

namespace LooksLike

variable {a : AgentId} {w w' v v' : World} {place : Position} {facing : Direction}
  {cells : Position → Option Cell} {action : Action}

/-- The cell ahead is the same. -/
theorem front (h : LooksLike a w v) : v.colony.front a = w.colony.front a := by
  rw [Colony.front, Colony.front, h.position, h.direction]

/-- **Every condition has the same answer.** -/
theorem holds (h : LooksLike a w v) (condition : Condition) :
    condition.holds v a = condition.holds w a := by
  cases condition with
  | atEdge => rw [Condition.holds, Condition.holds, atEdge, atEdge, h.grid, h.position]
  | leafFront | treeFront | mushroomFront =>
      rw [Condition.holds, Condition.holds, cellAhead?, cellAhead?, h.grid, h.front]
  | pathTo goal => rw [Condition.holds, Condition.holds, h.grid, h.position]
  | pathBetween start goal => rw [Condition.holds, Condition.holds, h.grid]

/-- The same actions are possible. -/
theorem possible_iff (h : LooksLike a w v) (action : Action) :
    action.Possible v a ↔ action.Possible w a := by
  cases action with
  | move =>
      rw [Action.Possible, Action.Possible, h.grid, h.front, h.direction]
      exact and_congr_left fun _ => h.others _
  | turnLeft | turnRight => exact Iff.rfl
  | takeLeaf | placeLeaf => rw [Action.Possible, Action.Possible, h.grid, h.front]
  | fly goal =>
      rw [Action.Possible, Action.Possible, h.grid]
      exact and_congr_right fun _ => h.others goal

/-- Worlds that look alike still do after the same change. -/
theorem of_changes (h : LooksLike a w v) (hw : Changes a w w' place facing cells)
    (hv : Changes a v v' place facing cells) : LooksLike a w' v' where
  aligned := ⟨hw.others.aligned h.aligned.1, hv.others.aligned h.aligned.2⟩
  contains :=
    ⟨(Colony.contains_congr hw.others.count a).trans h.contains.1,
      (Colony.contains_congr hv.others.count a).trans h.contains.2⟩
  grid := by
    refine Grid.eq_of_cell? ?_ ?_ fun p => (hv.cell? p).trans (hw.cell? p).symm
    · rw [hv.columns, hw.columns, h.grid]
    · rw [hv.rows, hw.rows, h.grid]
  position := hv.position.trans hw.position.symm
  direction := hv.direction.trans hw.direction.symm
  others p := by
    rw [hv.others.free_iff h.contains.2, hw.others.free_iff h.contains.1]
    exact h.others p

/-- An effect is a change that is named by what the ladybug sees. -/
theorem of_effect (h : LooksLike a w v) (hw : action.Effect a w w') (hv : action.Effect a v v') :
    LooksLike a w' v' := by
  cases action with
  | move | turnLeft | turnRight | takeLeaf | placeLeaf =>
      simp only [Action.Effect, h.grid, h.position, h.direction, h.front] at hv
      exact h.of_changes hw hv
  | fly goal =>
      obtain ⟨after, hafter, hw⟩ := hw
      obtain ⟨after', hafter', hv⟩ := hv
      rw [h.position, h.direction] at hafter'
      rw [h.grid] at hv
      obtain rfl : after = after' :=
        (Direction.afterJump_iff.mp hafter).trans (Direction.afterJump_iff.mp hafter').symm
      exact h.of_changes hw hv

/-- **An action succeeds in both worlds or in neither, and they look alike again.** -/
theorem perform (h : LooksLike a w v) (action : Action) :
    (action.perform v a).2 = (action.perform w a).2 ∧
      LooksLike a (action.perform w a).1 (action.perform v a).1 := by
  rw [Action.perform, Action.perform]
  cases hw : action.attempt? w a with
  | none =>
      cases hv : action.attempt? v a with
      | none => exact ⟨rfl, h⟩
      | some v' =>
          have hpossible := (Action.effect_of_attempt? h.aligned.2 h.contains.2 hv).1
          obtain ⟨w', hw'⟩ := Action.exists_attempt? h.aligned.1 h.contains.1
            ((h.possible_iff action).mp hpossible)
          cases hw.symm.trans hw'
  | some w' =>
      obtain ⟨hpossible, heffect⟩ := Action.effect_of_attempt? h.aligned.1 h.contains.1 hw
      obtain ⟨v', hv⟩ := Action.exists_attempt? h.aligned.2 h.contains.2
        ((h.possible_iff action).mpr hpossible)
      have heffect' := (Action.effect_of_attempt? h.aligned.2 h.contains.2 hv).2
      rw [hv]
      exact ⟨rfl, h.of_effect heffect heffect'⟩

end LooksLike

end World

namespace Tree

variable {a : AgentId} {w v : World}

/-! ### Walks -/

/-- A walk reads the world through conditions only. -/
theorem walk_congr (h : ∀ condition : Condition, condition.holds v a = condition.holds w a)
    (depth : Nat) : walk v a depth = walk w a depth := by
  induction depth with
  | zero => rfl
  | succ depth ih =>
      funext t i
      cases hstatus : (t.arena.status i).outcome? with
      | some succeeded => rw [walk_of_finished hstatus, walk_of_finished hstatus]
      | none =>
          cases hkind : t.arena.kind i with
          | action action => rw [walk_of_action hstatus hkind, walk_of_action hstatus hkind]
          | condition condition =>
              rw [walk_of_condition hstatus hkind, walk_of_condition hstatus hkind, h]
          | composite composite =>
              rw [walk_of_composite hstatus hkind, walk_of_composite hstatus hkind, ih]

/-- So do all walks of a turn. -/
theorem walks_congr (h : ∀ condition : Condition, condition.holds v a = condition.holds w a)
    (t : Tree) : t.walks v a = t.walks w a := by
  simp only [walks, firstWalk, walk_congr h]

/-! ### Turns -/

/-- **A turn is the same in worlds that look alike.** Afterwards they look alike again. -/
theorem tick_alike (t : Tree) (h : World.LooksLike a w v) :
    (t.tick v a).trace = (t.tick w a).trace ∧ (t.tick v a).tree = (t.tick w a).tree ∧
      World.LooksLike a (t.tick w a).world (t.tick v a).world := by
  have hwalks := walks_congr h.holds t
  cases hpending : (t.walks w a).tree.pending? with
  | none =>
      have hpending' : (t.walks v a).tree.pending? = none := by rw [hwalks, hpending]
      rw [tick_of_not_pending hpending, tick_of_not_pending hpending', hwalks]
      exact ⟨rfl, rfl, h⟩
  | some action =>
      have hpending' : (t.walks v a).tree.pending? = some action := by rw [hwalks, hpending]
      obtain ⟨hsucceeds, halike⟩ := h.perform action
      rw [tick_of_pending hpending, tick_of_pending hpending', hwalks, hsucceeds]
      exact ⟨rfl, rfl, halike⟩

/-- What several turns leave: the tree, the world, and what each turn has recorded. -/
structure Turns where
  tree : Tree
  world : World
  traces : List Trace

/-- Takes a number of turns of one ladybug, one after another. -/
def takeTurns (a : AgentId) : Nat → Tree → World → Turns
  | 0, t, w => ⟨t, w, []⟩
  | n + 1, t, w =>
    let turn := t.tick w a
    let later := takeTurns a n turn.tree turn.world
    { later with traces := turn.trace :: later.traces }

/-- Any number of turns is the same in worlds that look alike. -/
theorem takeTurns_alike (n : Nat) (t : Tree) (h : World.LooksLike a w v) :
    (takeTurns a n t v).traces = (takeTurns a n t w).traces ∧
      (takeTurns a n t v).tree = (takeTurns a n t w).tree ∧
      World.LooksLike a (takeTurns a n t w).world (takeTurns a n t v).world := by
  induction n generalizing t w v with
  | zero => exact ⟨rfl, rfl, h⟩
  | succ n ih =>
      obtain ⟨htrace, htree, hworld⟩ := t.tick_alike h
      obtain ⟨htraces, hlater, hafter⟩ := ih (t.tick w a).tree hworld
      simp only [takeTurns, htrace, htree]
      exact ⟨congrArg _ htraces, hlater, hafter⟩

/-- **Turns see other ladybugs only as occupied cells.** Whatever the tree, in worlds that look
alike to its ladybug a turn records the same and leaves the same tree, and the worlds look alike
again: with the same grid, and the ladybug on the same cell with the same facing. So do any number
of turns. -/
theorem turns_of_looksLike (t : Tree) (h : World.LooksLike a w v) :
    ((t.tick v a).trace = (t.tick w a).trace ∧ (t.tick v a).tree = (t.tick w a).tree ∧
      World.LooksLike a (t.tick w a).world (t.tick v a).world) ∧
    ∀ n, (takeTurns a n t v).traces = (takeTurns a n t w).traces ∧
      (takeTurns a n t v).tree = (takeTurns a n t w).tree ∧
      World.LooksLike a (takeTurns a n t w).world (takeTurns a n t v).world :=
  ⟨t.tick_alike h, fun n => takeTurns_alike n t h⟩

/-- A ladybug is kept from a step by one other ladybug, or by two on one cell with other facings,
one of them active. It turns and goes elsewhere in the same way. -/
theorem turns_of_looksLike_blocked :
    let w : World := ⟨Grid.blank 2 2, Colony.ofSpawns [⟨⟨1, 0⟩, .up⟩, ⟨⟨0, 0⟩, .right⟩]⟩
    let v : World := ⟨Grid.blank 2 2, (Colony.ofSpawns
      [⟨⟨1, 0⟩, .left⟩, ⟨⟨0, 0⟩, .right⟩, ⟨⟨1, 0⟩, .down⟩]).setActive ⟨3⟩ true⟩
    World.LooksLike ⟨2⟩ w v ∧ ∃ t : Tree,
      Flowchart.readTrees ["flowchart TD", "A[?] --> B[move]", "A --> C[turnRight]"] 1 = .ok [t] ∧
      (takeTurns ⟨2⟩ 3 t w).world.colony.position ⟨2⟩ = ⟨0, 1⟩ ∧
      (takeTurns ⟨2⟩ 3 t v).traces = (takeTurns ⟨2⟩ 3 t w).traces ∧
      World.LooksLike ⟨2⟩ (takeTurns ⟨2⟩ 3 t w).world (takeTurns ⟨2⟩ 3 t v).world := by
  intro w v
  have h : World.LooksLike ⟨2⟩ w v :=
    { aligned := ⟨⟨rfl, rfl, rfl⟩, ⟨rfl, rfl, rfl⟩⟩
      contains := by decide
      grid := rfl
      position := rfl
      direction := rfl
      others := fun p => by
        rw [Colony.free_iff ⟨rfl, rfl, rfl⟩ (by decide), Colony.free_iff ⟨rfl, rfl, rfl⟩ (by decide)]
        simp [w, v, Colony.occupiedByOther, Colony.ofSpawns, Colony.setActive, AgentId.index] }
  have hturns (t : Tree) := (turns_of_looksLike t h).2 3
  exact ⟨h, _, rfl, by decide +kernel, (hturns _).1, (hturns _).2.2⟩

end Tree

end Ladybug
