import Ladybug.Proofs.Settled
import Mathlib.Logic.Function.Basic

/-!
# What actions do, exactly

An action either fails and leaves the world as it was, or it succeeds and makes one change that
can be named: where its ladybug stands afterwards, which way it faces, and what every cell of the
grid holds. Everything else stays. Both when an action succeeds and what it does then are said
here without the program, in terms of cells and of who stands where, and so is the facing after
a jump: it is the one that points most along the jump.

The other ladybugs may stand anywhere, even on one cell or outside the grid. All that is asked of
the table is that it has the ladybug, and that its arrays are as long as there are ladybugs.

## Main definitions

* `Direction.Along` — a facing points along a displacement.
* `Colony.Free` — nobody else stands on a cell.
* `World.Changes` — one ladybug's row and the cells of the grid are as given, all else stays.
* `Action.Possible`, `Action.Effect` — when an action succeeds, and what it does then.

## Main results

* `Direction.ofDisplacement?_eq_some_iff` — the facing after a jump points along it.
* `World.Changes.unique` — there is one world that is changed so.
* `Action.perform_exact` — an action succeeds when it is possible, with its effect, and otherwise
  changes nothing.
-/

namespace Ladybug

/-! ### Facings and displacements -/

namespace Direction

/-- The scalar product of a displacement with the unit displacement of the facing. -/
def dot (d : Direction) (columns rows : Int) : Int := d.delta.1 * columns + d.delta.2 * rows

/-- The facing lies along a row. -/
def isHorizontal : Direction → Bool
  | right | left => true
  | up | down => false

/-- No facing points more along the displacement. If a horizontal one points as much, the facing
is horizontal itself. -/
structure Along (d : Direction) (columns rows : Int) : Prop where
  largest : ∀ e : Direction, e.dot columns rows ≤ d.dot columns rows
  tie : ∀ e : Direction, e.isHorizontal → e.dot columns rows = d.dot columns rows → d.isHorizontal

@[simp] theorem dot_up (columns rows : Int) : up.dot columns rows = -rows := by
  simp [dot, delta]

@[simp] theorem dot_right (columns rows : Int) : right.dot columns rows = columns := by
  simp [dot, delta]

@[simp] theorem dot_down (columns rows : Int) : down.dot columns rows = rows := by
  simp [dot, delta]

@[simp] theorem dot_left (columns rows : Int) : left.dot columns rows = -columns := by
  simp [dot, delta]

/-- The facing that is found points along the displacement. -/
theorem along_of_ofDisplacement? {columns rows : Int} {d : Direction}
    (h : ofDisplacement? columns rows = some d) : d.Along columns rows := by
  rw [ofDisplacement?] at h
  split at h
  · cases h
  · split at h <;> split at h <;> obtain rfl := Option.some.inj h <;>
      refine ⟨fun e => ?_, fun e he htie => ?_⟩ <;> cases e <;>
      simp only [dot_up, dot_right, dot_down, dot_left, isHorizontal] at * <;> omega

/-- Every displacement that leads somewhere has a facing. -/
theorem exists_ofDisplacement? {columns rows : Int} (hne : ¬ (columns = 0 ∧ rows = 0)) :
    ∃ d, ofDisplacement? columns rows = some d := by
  rw [ofDisplacement?, if_neg hne]
  split
  · exact ⟨_, rfl⟩
  · exact ⟨_, rfl⟩

/-- Only one facing points along a displacement. -/
theorem Along.unique {columns rows : Int} (hne : ¬ (columns = 0 ∧ rows = 0)) {d e : Direction}
    (hd : d.Along columns rows) (he : e.Along columns rows) : d = e := by
  have hdot : e.dot columns rows = d.dot columns rows :=
    Int.le_antisymm (hd.largest e) (he.largest d)
  have htie : d.isHorizontal ↔ e.isHorizontal :=
    ⟨fun h => he.tie d h hdot.symm, fun h => hd.tie e h hdot⟩
  have hup := hd.largest up
  have hright := hd.largest right
  have hdown := hd.largest down
  have hleft := hd.largest left
  -- Two facings of one axis are opposite, so that both point most along nothing only.
  cases d <;> cases e <;> simp [isHorizontal] at * <;> omega

/-- The facing of a displacement is the one that points along it. -/
theorem ofDisplacement?_eq_some_iff {columns rows : Int} {d : Direction} :
    ofDisplacement? columns rows = some d ↔ ¬ (columns = 0 ∧ rows = 0) ∧ d.Along columns rows := by
  constructor
  · intro h
    refine ⟨fun hzero => ?_, along_of_ofDisplacement? h⟩
    rw [ofDisplacement?, if_pos hzero] at h
    cases h
  · rintro ⟨hne, hd⟩
    obtain ⟨e, he⟩ := exists_ofDisplacement? hne
    rw [he, hd.unique hne (along_of_ofDisplacement? he)]

/-- The facing after a jump from one cell to another. It stays when the jump leads nowhere. -/
def AfterJump (start goal : Position) (before after : Direction) : Prop :=
  if goal = start then after = before
  else after.Along (goal.column - start.column) (goal.row - start.row)

/-- It is the facing of the displacement, if that has one. -/
theorem afterJump_iff {start goal : Position} {before after : Direction} :
    AfterJump start goal before after ↔
      after = (ofDisplacement? (goal.column - start.column) (goal.row - start.row)).getD before := by
  by_cases hsame : goal = start
  · rw [AfterJump, if_pos hsame, hsame, ofDisplacement?, Int.sub_self, Int.sub_self,
      if_pos ⟨rfl, rfl⟩, Option.getD_none]
  · have hne : ¬ (goal.column - start.column = 0 ∧ goal.row - start.row = 0) := fun hzero =>
      hsame (Position.ext (Int.sub_eq_zero.mp hzero.1) (Int.sub_eq_zero.mp hzero.2))
    rw [AfterJump, if_neg hsame]
    constructor
    · intro hafter
      rw [ofDisplacement?_eq_some_iff.mpr ⟨hne, hafter⟩, Option.getD_some]
    · intro hafter
      obtain ⟨d, hd⟩ := exists_ofDisplacement? hne
      rw [hd, Option.getD_some] at hafter
      rw [hafter]
      exact (ofDisplacement?_eq_some_iff.mp hd).2

end Direction

/-! ### Tables and grids -/

namespace Colony

variable {c d : Colony} {a : AgentId}

/-- No other ladybug stands on the cell. -/
def Free (c : Colony) (a : AgentId) (p : Position) : Prop :=
  ∀ b, c.contains b → b ≠ a → c.position b ≠ p

/-- Whether a cell is free is found out from the table. -/
theorem free_iff (h : c.Aligned) (ha : c.contains a) (p : Position) :
    c.Free a p ↔ c.occupiedByOther a p = false := by
  constructor
  · intro hfree
    rw [Bool.eq_false_iff]
    intro hoccupied
    obtain ⟨⟨q, row⟩, hmem, hq⟩ := List.any_eq_true.mp hoccupied
    have hrow : c.positions[row]? = some q := by
      rw [← Array.getElem?_toList]
      exact List.mem_zipIdx_iff_getElem?.mp hmem
    simp only [Bool.and_eq_true, beq_iff_eq, bne_iff_ne] at hq
    obtain ⟨rfl, hne⟩ := hq
    have hlt : row < c.count := by
      rw [← h.positions]
      exact (Array.getElem?_eq_some_iff.mp hrow).1
    refine hfree (.ofIndex row) (by simp [contains, AgentId.ofIndex, AgentId.index, hlt]) ?_ ?_
    · rintro rfl
      exact hne rfl
    · rw [position, AgentId.index_ofIndex, hrow]
      rfl
  · intro hfree b hb hne
    refine position_ne_of_occupiedByOther hfree ?_ fun hindex => hne (eq_of_index hb ha hindex)
    rw [h.positions]
    exact index_lt_of_contains hb

/-- Arrays of one length are equal if they agree on one row and on all others. -/
theorem eq_of_rows {α : Type} [Inhabited α] {xs ys : Array α} {i : Nat} (hi : i < xs.size)
    (hsize : ys.size = xs.size) (hothers : ∀ j, j ≠ i → ys[j]? = xs[j]?)
    (hrow : ys[i]?.getD default = xs[i]?.getD default) : ys = xs := by
  refine Array.ext_getElem? fun j => ?_
  by_cases hj : j = i
  · rw [hj, Array.getElem?_eq_getElem hi, Array.getElem?_eq_getElem (by omega)]
    rw [Array.getElem?_eq_getElem hi, Array.getElem?_eq_getElem (by omega)] at hrow
    exact congrArg some hrow
  · exact hothers j hj

/-- A table is told by the other rows and by the row of the ladybug. -/
theorem eq_of_sameBut {d' : Colony} (h : c.Aligned) (ha : c.contains a) (hd : SameBut a c d)
    (hd' : SameBut a c d') (hposition : d.position a = d'.position a)
    (hdirection : d.direction a = d'.direction a) : d = d' := by
  have hlt := index_lt_of_contains ha
  have hsize := hd'.positions_size.trans h.positions
  have hsize' := hd'.directions_size.trans h.directions
  have hpositions : d.positions = d'.positions :=
    eq_of_rows (hsize.symm ▸ hlt) (hd.positions_size.trans hd'.positions_size.symm)
      (fun row hrow => (hd.positions row hrow).trans (hd'.positions row hrow).symm) hposition
  have hdirections : d.directions = d'.directions :=
    eq_of_rows (hsize'.symm ▸ hlt) (hd.directions_size.trans hd'.directions_size.symm)
      (fun row hrow => (hd.directions row hrow).trans (hd'.directions row hrow).symm) hdirection
  cases d with
  | mk count positions directions active =>
      cases d' with
      | mk count' positions' directions' active' =>
          obtain rfl : positions = positions' := hpositions
          obtain rfl : directions = directions' := hdirections
          obtain rfl : count = count' := hd.count.trans hd'.count.symm
          obtain rfl : active = active' := hd.active.trans hd'.active.symm
          rfl

end Colony

namespace World

/-! ### Changes of a world -/

/-- Between the two worlds the ladybug has come to stand on a cell with a facing, and the cells
of the grid hold what is given. The bounds of the grid stay, and so do the other ladybugs and who
is active. -/
structure Changes (a : AgentId) (w w' : World) (place : Position) (facing : Direction)
    (cells : Position → Option Cell) : Prop where
  position : w'.colony.position a = place
  direction : w'.colony.direction a = facing
  cell? : ∀ p, w'.grid.cell? p = cells p
  columns : w'.grid.columns = w.grid.columns
  rows : w'.grid.rows = w.grid.rows
  others : Colony.SameBut a w.colony w'.colony

variable {w w' w'' : World} {a : AgentId} {place : Position} {facing : Direction}
  {cells : Position → Option Cell}

/-- There is one world that is changed so. -/
theorem Changes.unique (h : w.colony.Aligned) (ha : w.colony.contains a)
    (hw : Changes a w w' place facing cells) (hw' : Changes a w w'' place facing cells) :
    w' = w'' := by
  have hgrid : w'.grid = w''.grid :=
    Grid.eq_of_cell? (hw.columns.trans hw'.columns.symm) (hw.rows.trans hw'.rows.symm)
      fun p => (hw.cell? p).trans (hw'.cell? p).symm
  have hcolony : w'.colony = w''.colony :=
    Colony.eq_of_sameBut h ha hw.others hw'.others (hw.position.trans hw'.position.symm)
      (hw.direction.trans hw'.direction.symm)
  cases w'
  cases w''
  exact congr (congrArg World.mk hgrid) hcolony

namespace Changes

/-- Nothing has changed. -/
theorem refl (a : AgentId) (w : World) :
    Changes a w w (w.colony.position a) (w.colony.direction a) w.grid.cell? where
  position := rfl
  direction := rfl
  cell? _ := rfl
  columns := rfl
  rows := rfl
  others := .refl a w.colony

/-- Then the ladybug is put on a cell. -/
theorem setPosition (hw : Changes a w w' place facing cells) (h : w.colony.Aligned)
    (ha : w.colony.contains a) (p : Position) :
    Changes a w { w' with colony := w'.colony.setPosition a p } p facing cells where
  position := by
    have hlt : a.index < w'.colony.positions.size := by
      rw [hw.others.positions_size, h.positions]
      exact Colony.index_lt_of_contains ha
    exact (Colony.position_setPosition hlt p a).trans (if_pos rfl)
  direction := hw.direction
  cell? := hw.cell?
  columns := hw.columns
  rows := hw.rows
  others := hw.others.trans (.setPosition ..)

/-- Then the ladybug is turned. -/
theorem setDirection (hw : Changes a w w' place facing cells) (h : w.colony.Aligned)
    (ha : w.colony.contains a) (d : Direction) :
    Changes a w { w' with colony := w'.colony.setDirection a d } place d cells where
  position := hw.position
  direction := by
    have hlt : a.index < w'.colony.directions.size := by
      rw [hw.others.directions_size, h.directions]
      exact Colony.index_lt_of_contains ha
    exact (Colony.direction_setDirection hlt d a).trans (if_pos rfl)
  cell? := hw.cell?
  columns := hw.columns
  rows := hw.rows
  others := hw.others.trans (.setDirection ..)

/-- Then the contents of a cell are replaced. -/
theorem set (hw : Changes a w w' place facing cells) {p : Position} (hp : w.grid.inBounds p)
    (c : Cell) :
    Changes a w { w' with grid := w'.grid.set p c } place facing
      (Function.update cells p (some c)) where
  position := hw.position
  direction := hw.direction
  cell? q := by
    have hp' : w'.grid.inBounds p := by rwa [Grid.inBounds, hw.columns, hw.rows]
    rw [Grid.cell?_set hp', Function.update_apply, hw.cell?]
  columns := (Grid.columns_set ..).trans hw.columns
  rows := (Grid.rows_set ..).trans hw.rows
  others := hw.others

end Changes

end World

/-! ### Actions -/

namespace Action

variable {action : Action} {w w' w'' : World} {a : AgentId}

/-- When an action succeeds. A position outside the grid has no contents.
* A step needs the cell ahead without another ladybug, and it must be empty or hold a mushroom
  with an empty cell beyond.
* A turn is always possible.
* A leaf is taken from the cell ahead, or placed there if it is empty.
* A jump needs an empty goal without another ladybug. -/
def Possible (action : Action) (w : World) (a : AgentId) : Prop :=
  match action with
  | move =>
    w.colony.Free a (w.colony.front a) ∧
      (w.grid.cell? (w.colony.front a) = some .empty ∨
        w.grid.cell? (w.colony.front a) = some .mushroom ∧
          w.grid.cell? ((w.colony.front a).step (w.colony.direction a)) = some .empty)
  | turnLeft => True
  | turnRight => True
  | takeLeaf => w.grid.cell? (w.colony.front a) = some .leaf
  | placeLeaf => w.grid.cell? (w.colony.front a) = some .empty
  | fly goal => w.grid.cell? goal = some .empty ∧ w.colony.Free a goal

/-- What an action does when it succeeds.
* A step leads to the cell ahead, and a mushroom there is moved one cell on.
* A turn changes the facing by a quarter.
* A leaf is taken from the cell ahead or placed there.
* A jump leads to the goal, and the ladybug then faces along the jump. -/
def Effect (action : Action) (a : AgentId) (w w' : World) : Prop :=
  let here := w.colony.position a
  let facing := w.colony.direction a
  let ahead := w.colony.front a
  match action with
  | move =>
    World.Changes a w w' ahead facing
      (if w.grid.cell? ahead = some .mushroom then
        Function.update (Function.update w.grid.cell? (ahead.step facing) (some .mushroom)) ahead
          (some .empty)
      else w.grid.cell?)
  | turnLeft => World.Changes a w w' here facing.turnLeft w.grid.cell?
  | turnRight => World.Changes a w w' here facing.turnRight w.grid.cell?
  | takeLeaf =>
    World.Changes a w w' here facing (Function.update w.grid.cell? ahead (some .empty))
  | placeLeaf =>
    World.Changes a w w' here facing (Function.update w.grid.cell? ahead (some .leaf))
  | fly goal =>
    ∃ after, Direction.AfterJump here goal facing after ∧
      World.Changes a w w' goal after w.grid.cell?

/-- An action has one effect. -/
theorem Effect.unique (h : w.colony.Aligned) (ha : w.colony.contains a)
    (hw : action.Effect a w w') (hw' : action.Effect a w w'') : w' = w'' := by
  cases action with
  | fly goal =>
      obtain ⟨after, hafter, hchanges⟩ := hw
      obtain ⟨after', hafter', hchanges'⟩ := hw'
      obtain rfl : after = after' :=
        (Direction.afterJump_iff.mp hafter).trans (Direction.afterJump_iff.mp hafter').symm
      exact hchanges.unique h ha hchanges'
  | move => exact World.Changes.unique h ha hw hw'
  | turnLeft => exact World.Changes.unique h ha hw hw'
  | turnRight => exact World.Changes.unique h ha hw hw'
  | takeLeaf => exact World.Changes.unique h ha hw hw'
  | placeLeaf => exact World.Changes.unique h ha hw hw'

/-- A step that succeeds was possible and has its effect. -/
theorem effect_of_stepForward? (h : w.colony.Aligned) (ha : w.colony.contains a)
    (hw : w.stepForward? a = some w') : move.Possible w a ∧ move.Effect a w w' := by
  rw [World.stepForward?] at hw
  split at hw
  · cases hw
  · next hoccupied =>
      have hfree := (Colony.free_iff h ha _).mpr (Bool.not_eq_true _ |>.mp hoccupied)
      split at hw
      · next hempty =>
          obtain rfl := Option.some.inj hw
          refine ⟨⟨hfree, .inl hempty⟩, ?_⟩
          have hnot : ¬ w.grid.cell? (w.colony.front a) = some .mushroom := by
            rw [hempty]
            decide
          rw [Effect, if_neg hnot]
          exact (World.Changes.refl a w).setPosition h ha _
      · next hmushroom =>
          dsimp only at hw
          split at hw
          · next hbeyond =>
              obtain rfl := Option.some.inj hw
              have hempty := eq_of_beq hbeyond
              refine ⟨⟨hfree, .inr ⟨hmushroom, hempty⟩⟩, ?_⟩
              rw [Effect, if_pos hmushroom]
              exact (((World.Changes.refl a w).set (Grid.inBounds_of_cell? hempty) _).set
                (Grid.inBounds_of_cell? hmushroom) _).setPosition h ha _
          · cases hw
      · cases hw

/-- A jump that succeeds was possible and has its effect. -/
theorem effect_of_fly? {goal : Position} (h : w.colony.Aligned) (ha : w.colony.contains a)
    (hw : w.fly? a goal = some w') : (fly goal).Possible w a ∧ (fly goal).Effect a w w' := by
  rw [World.fly?] at hw
  split at hw
  · next hgoal =>
      obtain rfl := Option.some.inj hw
      obtain ⟨hempty, hfree⟩ := Bool.and_eq_true_iff.mp hgoal
      refine ⟨⟨eq_of_beq hempty, (Colony.free_iff h ha goal).mpr (Bool.not_eq_true' _ |>.mp hfree)⟩,
        _, Direction.afterJump_iff.mpr rfl, ?_⟩
      exact ((World.Changes.refl a w).setDirection h ha _).setPosition h ha goal
  · cases hw

/-- A deed at the cell ahead that succeeds found there what it expected, and replaced it. -/
theorem effect_of_replaceAhead? {expected replacement : Cell}
    (hw : w.replaceAhead? a expected replacement = some w') :
    w.grid.cell? (w.colony.front a) = some expected ∧
      World.Changes a w w' (w.colony.position a) (w.colony.direction a)
        (Function.update w.grid.cell? (w.colony.front a) (some replacement)) := by
  rw [World.replaceAhead?, World.cellAhead?] at hw
  split at hw
  · next hexpected =>
      obtain rfl := Option.some.inj hw
      exact ⟨hexpected, (World.Changes.refl a w).set (Grid.inBounds_of_cell? hexpected) _⟩
  · cases hw

/-- An action that succeeds was possible and has its effect. -/
theorem effect_of_attempt? (h : w.colony.Aligned) (ha : w.colony.contains a)
    (hw : action.attempt? w a = some w') : action.Possible w a ∧ action.Effect a w w' := by
  cases action with
  | move => exact effect_of_stepForward? h ha hw
  | turnLeft =>
      obtain rfl := Option.some.inj hw
      exact ⟨trivial, (World.Changes.refl a w).setDirection h ha _⟩
  | turnRight =>
      obtain rfl := Option.some.inj hw
      exact ⟨trivial, (World.Changes.refl a w).setDirection h ha _⟩
  | takeLeaf => exact effect_of_replaceAhead? hw
  | placeLeaf => exact effect_of_replaceAhead? hw
  | fly goal => exact effect_of_fly? h ha hw

/-- An action that is possible succeeds. -/
theorem exists_attempt? (h : w.colony.Aligned) (ha : w.colony.contains a)
    (hpossible : action.Possible w a) : ∃ w', action.attempt? w a = some w' := by
  cases action with
  | move =>
      obtain ⟨hfree, hempty | ⟨hmushroom, hbeyond⟩⟩ := hpossible
      · rw [Colony.free_iff h ha] at hfree
        simp [attempt?, World.stepForward?, hfree, hempty]
      · rw [Colony.free_iff h ha] at hfree
        simp [attempt?, World.stepForward?, hfree, hmushroom, Grid.isEmpty, hbeyond]
  | turnLeft => exact ⟨_, rfl⟩
  | turnRight => exact ⟨_, rfl⟩
  | takeLeaf => exact ⟨_, if_pos hpossible⟩
  | placeLeaf => exact ⟨_, if_pos hpossible⟩
  | fly goal =>
      obtain ⟨hempty, hfree⟩ := hpossible
      rw [Colony.free_iff h ha] at hfree
      simp [attempt?, World.fly?, Grid.isEmpty, hempty, hfree]

/-- An action succeeds exactly when it is possible and then has exactly its effect, and when it
fails the world is the one before. -/
structure Exact (action : Action) (w : World) (a : AgentId) : Prop where
  succeeds : ∀ w', action.perform w a = (w', true) ↔ action.Possible w a ∧ action.Effect a w w'
  fails : ∀ w', action.perform w a = (w', false) ↔ ¬ action.Possible w a ∧ w' = w

/-- **Every action is exact and atomic**, wherever the ladybugs stand. Positions are pairs of
integers of any size here. With 32 bits the step to the cell ahead overflows only in a column or row
`0x7fffffff` or `-0x80000000`, and a grid of at most `0x7fffffff` columns and rows has neither. -/
theorem perform_exact (action : Action) (h : w.colony.Aligned) (ha : w.colony.contains a) :
    action.Exact w a := by
  cases hattempt : action.attempt? w a with
  | none =>
      have hnot : ¬ action.Possible w a := fun hpossible => by
        obtain ⟨w', hw'⟩ := exists_attempt? h ha hpossible
        rw [hattempt] at hw'
        cases hw'
      have hperform : action.perform w a = (w, false) := by rw [perform, hattempt]
      refine ⟨fun w' => ?_, fun w' => ?_⟩ <;> rw [hperform]
      · exact ⟨fun hw => absurd (Prod.mk.inj hw).2 Bool.false_ne_true,
          fun hw => absurd hw.1 hnot⟩
      · exact ⟨fun hw => ⟨hnot, (Prod.mk.inj hw).1.symm⟩, fun hw => by rw [hw.2]⟩
  | some u =>
      have hperform : action.perform w a = (u, true) := by rw [perform, hattempt]
      obtain ⟨hpossible, heffect⟩ := effect_of_attempt? h ha hattempt
      refine ⟨fun w' => ?_, fun w' => ?_⟩ <;> rw [hperform]
      · constructor
        · intro hw
          obtain rfl := (Prod.mk.inj hw).1
          exact ⟨hpossible, heffect⟩
        · rintro ⟨-, hw⟩
          rw [heffect.unique h ha hw]
      · exact ⟨fun hw => absurd (Prod.mk.inj hw).2.symm Bool.false_ne_true,
          fun hw => absurd hpossible hw.1⟩

/-- One of two ladybugs on one cell pushes a mushroom under a third one. -/
theorem perform_exact_push :
    let w : World := ⟨(Grid.blank 3 1).set ⟨1, 0⟩ .mushroom,
      Colony.ofSpawns [⟨⟨0, 0⟩, .right⟩, ⟨⟨0, 0⟩, .up⟩, ⟨⟨2, 0⟩, .left⟩]⟩
    w.colony.Aligned ∧ w.colony.contains .first ∧ move.Exact w .first ∧
      (move.perform w .first).1.grid.cell? ⟨2, 0⟩ = some .mushroom ∧
      (move.perform w .first).2 = true := by
  intro w
  exact ⟨⟨rfl, rfl, rfl⟩, by decide, perform_exact move ⟨rfl, rfl, rfl⟩ (by decide), by decide,
    by decide⟩

end Action

end Ladybug
