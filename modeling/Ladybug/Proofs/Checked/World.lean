import Ladybug.Action
import Ladybug.Condition
import Ladybug.Proofs.Checked.Access
import Ladybug.Proofs.Searches
import Ladybug.Proofs.Settled

/-!
# Valid accesses to the world

Actions and conditions read and write cells, rows of the colony, and coordinates. The cells that
are accessed without a test have been tested before, by whoever asked; the rows are those of the
ladybug whose turn it is. Coordinates are added and subtracted without a test of any kind. That
they stay within 32 bits is owed to the grid: a position from which a step is taken lies inside,
and both ends of a jump do.

So all accesses are valid if the ladybug belongs to the colony, the world is settled, and the
coordinates inside the grid are small enough to be counted from one.

## Main definitions

* `Checked.stepForward?`, `Checked.fly?` and others — the world, with checked accesses.
* `Checked.search`, `Checked.hasPath` — the breadth-first search for a path.
* `Checked.perform` and `Checked.holds` — actions and conditions.

## Main results

* `Checked.hasPath_eq` — a search makes valid accesses only.
* `Checked.perform_eq`, `Checked.holds_eq` — actions and conditions make valid accesses only.
-/

namespace Ladybug

open Flowchart

namespace Checked

/-! ### Positions -/

/-- The neighbouring position. -/
def step (p : Position) (d : Direction) : Checked Position := do
  let column ← int32 (p.column + d.delta.1)
  let row ← int32 (p.row + d.delta.2)
  return ⟨column, row⟩

/-- The facing after a jump, for which the magnitudes of both displacements are compared. -/
def ofDisplacement? (columns rows : Int) : Checked (Option Direction) :=
  if columns = 0 ∧ rows = 0 then .ok none
  else do
    let width ← int32 columns.natAbs
    let height ← int32 rows.natAbs
    if height ≤ width then return some (if 0 < columns then .right else .left)
    else return some (if rows < 0 then .up else .down)

section Positions

variable {g : Grid} {p q : Position}

/-- Coordinates inside a small grid leave room on both sides. -/
theorem range_of_inBounds (hg : g.Small) (hp : g.inBounds p) :
    (0 ≤ p.column ∧ p.column < maxCoordinate) ∧ 0 ≤ p.row ∧ p.row < maxCoordinate := by
  obtain ⟨⟨hcolumn, -⟩, hrow, -⟩ := Grid.inBounds_iff.mp hp
  exact ⟨⟨hcolumn, (hg p hp).1⟩, hrow, (hg p hp).2⟩

/-- A step may be taken from anywhere inside the grid. -/
theorem step_eq (hg : g.Small) (hp : g.inBounds p) (d : Direction) : step p d = .ok (p.step d) := by
  obtain ⟨⟨hcolumn, hcolumn'⟩, hrow, hrow'⟩ := range_of_inBounds hg hp
  have hfits : Fits (p.column + d.delta.1) ∧ Fits (p.row + d.delta.2) := by
    unfold Fits maxCoordinate at *
    cases d <;> dsimp only [Direction.delta] <;> omega
  rw [step, int32_eq hfits.1, int32_eq hfits.2]
  rfl

example : step ⟨maxCoordinate, 0⟩ .right = .error (.overflow (maxCoordinate + 1)) := by decide

/-- The displacement between two positions inside the grid, and its magnitude. -/
theorem fits_sub (hg : g.Small) (hp : g.inBounds p) (hq : g.inBounds q) :
    (Fits (q.column - p.column) ∧ Fits (q.column - p.column).natAbs) ∧
      Fits (q.row - p.row) ∧ Fits (q.row - p.row).natAbs := by
  obtain ⟨⟨hp₁, hp₂⟩, hp₃, hp₄⟩ := range_of_inBounds hg hp
  obtain ⟨⟨hq₁, hq₂⟩, hq₃, hq₄⟩ := range_of_inBounds hg hq
  unfold Fits maxCoordinate at *
  omega

theorem ofDisplacement?_eq {columns rows : Int} (hcolumns : Fits columns.natAbs)
    (hrows : Fits rows.natAbs) :
    ofDisplacement? columns rows = .ok (Direction.ofDisplacement? columns rows) := by
  rw [ofDisplacement?, Direction.ofDisplacement?, int32_eq hcolumns, int32_eq hrows]
  split
  · rfl
  · rw [ok_bind, ok_bind]
    by_cases hle : rows.natAbs ≤ columns.natAbs
    · rw [if_pos hle, if_pos (Int.ofNat_le.mpr hle)]
      rfl
    · rw [if_neg hle, if_neg fun h => hle (Int.ofNat_le.mp h)]
      rfl

end Positions

/-! ### Cells -/

/-- The cell at a position that lies inside the grid. -/
def cellAt (g : Grid) (p : Position) : Checked Cell :=
  if g.inBounds p then entry g.cells (g.offset p) else .error (.noCell p)

/-- The cell at a position, if it lies inside the grid. -/
def cell? (g : Grid) (p : Position) : Checked (Option Cell) :=
  if g.inBounds p then do
    let cell ← cellAt g p
    return some cell
  else .ok none

/-- The grid with the cell at a position inside it replaced. -/
def setCell (g : Grid) (p : Position) (c : Cell) : Checked Grid := do
  let _ ← cellAt g p
  return g.set p c

/-- The position lies inside the grid and its cell is empty. -/
def isEmpty (g : Grid) (p : Position) : Checked Bool := do
  let cell ← cell? g p
  return cell == some .empty

/-- The adjacent positions inside the grid. -/
def neighbors (g : Grid) (p : Position) : Checked (List Position) := do
  let adjacent ← Direction.all.mapM (step p)
  return adjacent.filter g.inBounds

/-- Fewer than four adjacent positions lie inside the grid. -/
def atEdge (g : Grid) (p : Position) : Checked Bool := do
  let adjacent ← neighbors g p
  return decide (adjacent.length < Direction.all.length)

section Cells

variable {g : Grid} {p : Position} {c : Cell}

theorem cellAt_eq (h : g.cell? p = some c) : cellAt g p = .ok c := by
  have hp := Grid.inBounds_of_cell? h
  rw [Grid.cell?, if_pos hp] at h
  rw [cellAt, if_pos hp, entry, h]

/-- Asking for a cell is always valid, since it comes with a test. -/
@[simp] theorem cell?_eq (g : Grid) (p : Position) : cell? g p = .ok (g.cell? p) := by
  rw [cell?]
  split
  · next hp =>
      obtain ⟨c, hc⟩ := Grid.exists_cell? hp
      rw [cellAt_eq hc, hc]
      rfl
  · next hp => rw [Grid.cell?, if_neg hp]

@[simp] theorem isEmpty_eq (g : Grid) (p : Position) : isEmpty g p = .ok (g.isEmpty p) := by
  rw [isEmpty, cell?_eq]
  rfl

theorem setCell_eq (h : g.inBounds p) (c : Cell) : setCell g p c = .ok (g.set p c) := by
  obtain ⟨old, hold⟩ := Grid.exists_cell? h
  rw [setCell, cellAt_eq hold]
  rfl

theorem neighbors_eq (hg : g.Small) (hp : g.inBounds p) : neighbors g p = .ok (g.neighbors p) := by
  rw [neighbors, mapM_eq fun d _ => step_eq hg hp d]
  rfl

theorem atEdge_eq (hg : g.Small) (hp : g.inBounds p) : atEdge g p = .ok (g.atEdge p) := by
  rw [atEdge, neighbors_eq hg hp]
  rfl

end Cells

/-! ### Paths -/

/-- The adjacent positions that are still empty. They lie inside the grid, so they are read
without a test. -/
def fresh (g : Grid) (p : Position) : Checked (List Position) := do
  let adjacent ← neighbors g p
  keep (fun q => return (← cellAt g q) == .empty) adjacent

/-- The grid with trees at all the given positions. -/
def cover (g : Grid) (ps : List Position) : Checked Grid :=
  ps.foldlM (fun g p => setCell g p .tree) g

/-- Takes positions from the front of a queue until the goal is next to one of them. All cells
around a position are read, even if the goal is among them. -/
def search (goal : Position) : Nat → Grid → List Position → Checked Bool
  | 0, _, _ => .ok false
  | _ + 1, _, [] => .ok false
  | fuel + 1, g, p :: queue => do
    let adjacent ← neighbors g p
    let fresh ← fresh g p
    if adjacent.contains goal then return true
    else
      let covered ← cover g fresh
      search goal fuel covered (queue ++ fresh)

/-- The two positions are empty cells, and a breadth-first search from the first comes to the
second. -/
def hasPath (g : Grid) (start goal : Position) : Checked Bool := do
  let open? ← isEmpty g start
  let open?' ← isEmpty g goal
  if open? && open?' then
    if start == goal then return true
    else
      let started ← setCell g start .tree
      search goal g.cells.size started [start]
  else return false

section Paths

variable {g : Grid} {p : Position}

theorem fresh_eq (hg : g.Small) (hp : g.inBounds p) : fresh g p = .ok (g.fresh p) := by
  rw [fresh, neighbors_eq hg hp, ok_bind]
  refine keep_eq fun q hq => ?_
  have hin : g.inBounds q := (List.mem_filter.mp hq).2
  obtain ⟨c, hc⟩ := Grid.exists_cell? hin
  rw [cellAt_eq hc, Grid.isEmpty, hc]
  rfl

theorem cover_eq {ps : List Position} (h : ∀ p ∈ ps, g.inBounds p) :
    cover g ps = .ok (g.cover ps) := by
  refine foldlM_eq (P := fun g' => ∀ q, g'.inBounds q = g.inBounds q) (fun _ => rfl) ?_
  intro g' hg' p hp
  exact ⟨setCell_eq (hg' p ▸ h p hp) .tree, fun q => (g'.inBounds_set p q .tree).trans (hg' q)⟩

/-- A search stays inside the grid, and it ends before the fuel does. -/
theorem search_eq (goal : Position) {fuel : Nat} {queue : List Position} (hg : g.Small)
    (hqueue : ∀ p ∈ queue, g.inBounds p) (hfuel : g.amount .empty + queue.length ≤ fuel) :
    search goal fuel g queue = .ok (Grid.search goal g queue) := by
  induction fuel generalizing g queue with
  | zero =>
      obtain rfl := List.length_eq_zero_iff.mp (Nat.le_zero.mp (Nat.le_of_add_left_le hfuel))
      rw [Grid.search]
      rfl
  | succ fuel ih =>
      cases queue with
      | nil =>
          rw [Grid.search]
          rfl
      | cons p queue =>
          have hp := hqueue p List.mem_cons_self
          rw [search, neighbors_eq hg hp, ok_bind, fresh_eq hg hp, ok_bind, Grid.search]
          split
          · rfl
          · have hfresh : ∀ q ∈ g.fresh p, g.inBounds q := fun q hq =>
              (Grid.isEmpty_iff.mp (Grid.mem_fresh_iff.mp hq).2).1
            have hamount := g.amount_fresh p
            rw [cover_eq hfresh, ok_bind]
            refine ih (hg.congr (g.inBounds_cover _)) (fun q hq => ?_) ?_
            · rw [Grid.inBounds_cover]
              rcases List.mem_append.mp hq with hq | hq
              · exact hqueue q (List.mem_cons_of_mem _ hq)
              · exact hfresh q hq
            · rw [List.length_append]
              rw [List.length_cons] at hfuel
              omega

/-- A search for a path may start and end anywhere, even outside the grid. -/
theorem hasPath_eq (hg : g.Small) (start goal : Position) :
    hasPath g start goal = .ok (g.hasPath start goal) := by
  rw [← Grid.findsPath_eq, hasPath, isEmpty_eq, isEmpty_eq, ok_bind, ok_bind, Grid.findsPath]
  cases hempty : g.isEmpty start && g.isEmpty goal with
  | false => rfl
  | true =>
      have hstart := (Bool.and_eq_true_iff.mp hempty).1
      have hin := (Grid.isEmpty_iff.mp hstart).1
      rw [if_pos rfl, Bool.true_and]
      cases start == goal with
      | true => rfl
      | false =>
          have hbounds := fun q => g.inBounds_set start q .tree
          have hqueue : ∀ p ∈ [start], (g.set start .tree).inBounds p := fun p hp => by
            rw [List.mem_singleton.mp hp, hbounds]
            exact hin
          rw [if_neg Bool.false_ne_true, setCell_eq hin, ok_bind,
            search_eq goal (hg.congr hbounds) hqueue (Grid.amount_start_le hstart)]
          rfl

end Paths

/-! ### Rows of the colony -/

/-- The cell a ladybug stands on. -/
def position (c : Colony) (a : AgentId) : Checked Position := do
  let row ← index a
  entry c.positions row

/-- The facing of a ladybug. -/
def direction (c : Colony) (a : AgentId) : Checked Direction := do
  let row ← index a
  entry c.directions row

/-- The ladybug has a behavior tree to follow. -/
def isActive (c : Colony) (a : AgentId) : Checked Bool := do
  let row ← index a
  entry c.active row

/-- Puts a ladybug on a cell. -/
def setPosition (c : Colony) (a : AgentId) (p : Position) : Checked Colony := do
  let row ← index a
  let positions ← setEntry c.positions row p
  return { c with positions }

/-- Turns a ladybug. -/
def setDirection (c : Colony) (a : AgentId) (d : Direction) : Checked Colony := do
  let row ← index a
  let directions ← setEntry c.directions row d
  return { c with directions }

/-- Makes a ladybug active or inactive. -/
def setActive (c : Colony) (a : AgentId) (active : Bool) : Checked Colony := do
  let row ← index a
  let active ← setEntry c.active row active
  return { c with active }

/-- The ladybug belongs to the colony. Only a number that has a row is turned into one. -/
def contains (c : Colony) (a : AgentId) : Checked Bool :=
  if 1 ≤ a.number then do
    let row ← index a
    return decide (row < c.count)
  else .ok false

/-- The position ahead of a ladybug. -/
def front (c : Colony) (a : AgentId) : Checked Position := do
  let start ← position c a
  let facing ← direction c a
  step start facing

/-- A ladybug other than the given one stands on the cell. -/
def occupiedByOther (c : Colony) (a : AgentId) (p : Position) : Checked Bool :=
  c.positions.toList.zipIdx.anyM fun (q, row) =>
    if q == p then do
      let own ← index a
      return row != own
    else .ok false

/-- The numbers of the active ladybugs, ascending. -/
def activeIds (c : Colony) : Checked (List AgentId) := do
  let ids ← (List.range c.count).mapM ofIndex
  keep (isActive c) ids

section Rows

variable {w : World} {a : AgentId}

/-- The number of a ladybug that belongs to the colony has a row. -/
theorem index_of_contains {c : Colony} (ha : c.contains a) : index a = .ok a.index := by
  simp only [Colony.contains, Bool.and_eq_true, decide_eq_true_eq] at ha
  exact index_eq ha.1

/-- Whether a ladybug belongs to the colony may be asked of any number. -/
@[simp] theorem contains_eq (c : Colony) (a : AgentId) : contains c a = .ok (c.contains a) := by
  rw [contains, Colony.contains]
  split
  · next h => rw [index_eq h, decide_eq_true h, Bool.true_and]; rfl
  · next h => rw [decide_eq_false h, Bool.false_and]

theorem position_eq (hw : w.Settled) (ha : w.colony.contains a) :
    position w.colony a = .ok (w.colony.position a) := by
  rw [position, index_of_contains ha, ok_bind]
  exact entry_eq (hw.positions.symm ▸ Colony.index_lt_of_contains ha) _

theorem direction_eq (hw : w.Settled) (ha : w.colony.contains a) :
    direction w.colony a = .ok (w.colony.direction a) := by
  rw [direction, index_of_contains ha, ok_bind]
  exact entry_eq (hw.directions.symm ▸ Colony.index_lt_of_contains ha) _

theorem isActive_eq {c : Colony} (hc : c.active.size = c.count) (ha : c.contains a) :
    isActive c a = .ok (c.isActive a) := by
  rw [isActive, index_of_contains ha, ok_bind]
  exact entry_eq (hc.symm ▸ Colony.index_lt_of_contains ha) _

theorem setPosition_eq {c : Colony} (hc : c.positions.size = c.count) (ha : c.contains a)
    (p : Position) : setPosition c a p = .ok (c.setPosition a p) := by
  rw [setPosition, index_of_contains ha, ok_bind,
    setEntry_eq (hc.symm ▸ Colony.index_lt_of_contains ha)]
  rfl

theorem setDirection_eq {c : Colony} (hc : c.directions.size = c.count) (ha : c.contains a)
    (d : Direction) : setDirection c a d = .ok (c.setDirection a d) := by
  rw [setDirection, index_of_contains ha, ok_bind,
    setEntry_eq (hc.symm ▸ Colony.index_lt_of_contains ha)]
  rfl

theorem setActive_eq {c : Colony} (hc : c.active.size = c.count) (ha : c.contains a)
    (active : Bool) : setActive c a active = .ok (c.setActive a active) := by
  rw [setActive, index_of_contains ha, ok_bind,
    setEntry_eq (hc.symm ▸ Colony.index_lt_of_contains ha)]
  rfl

theorem front_eq (hw : w.Settled) (hg : w.grid.Small) (ha : w.colony.contains a) :
    front w.colony a = .ok (w.colony.front a) := by
  rw [front, position_eq hw ha, ok_bind, direction_eq hw ha, ok_bind]
  exact step_eq hg (hw.inBounds a ha) _

theorem occupiedByOther_eq {c : Colony} (ha : c.contains a) (p : Position) :
    occupiedByOther c a p = .ok (c.occupiedByOther a p) := by
  refine anyM_eq fun (q, row) _ => ?_
  dsimp only
  split
  · next h => rw [index_of_contains ha, h, Bool.true_and]; rfl
  · next h => rw [Bool.not_eq_true _ |>.mp h, Bool.false_and]

theorem activeIds_eq {c : Colony} (hc : c.active.size = c.count) (hcount : c.count ≤ maxLadybug) :
    activeIds c = .ok c.activeIds := by
  have hids : (List.range c.count).mapM ofIndex = .ok c.ids :=
    mapM_eq fun row hrow => ofIndex_eq (Nat.lt_of_lt_of_le (List.mem_range.mp hrow) hcount)
  rw [activeIds, hids, ok_bind]
  exact keep_eq fun a ha => isActive_eq hc (Colony.mem_ids.mp ha)

end Rows

/-! ### What a ladybug does -/

/-- The ladybug steps on the cell ahead. -/
def stepForward? (w : World) (a : AgentId) : Checked (Option World) := do
  let facing ← direction w.colony a
  let ahead ← front w.colony a
  if w.grid.inBounds ahead then
    let occupied ← occupiedByOther w.colony a ahead
    if occupied then return none
    let cell ← cellAt w.grid ahead
    match cell with
    | .empty =>
      let colony ← setPosition w.colony a ahead
      return some { w with colony }
    | .mushroom =>
      let beyond ← step ahead facing
      let free ← isEmpty w.grid beyond
      if free then
        let pushed ← setCell w.grid beyond .mushroom
        let grid ← setCell pushed ahead .empty
        let colony ← setPosition w.colony a ahead
        return some { grid, colony }
      else return none
    | _ => return none
  else return none

/-- The ladybug turns on its cell. -/
def turn (w : World) (a : AgentId) (quarter : Direction → Direction) : Checked World := do
  let facing ← direction w.colony a
  let colony ← setDirection w.colony a (quarter facing)
  return { w with colony }

/-- Turns a ladybug along a jump, if the jump leads anywhere else. -/
def faceAlong (c : Colony) (a : AgentId) : Option Direction → Checked Colony
  | some d => setDirection c a d
  | none => .ok c

/-- The ladybug jumps to the goal. -/
def fly? (w : World) (a : AgentId) (goal : Position) : Checked (Option World) := do
  let free ← isEmpty w.grid goal
  if !free then return none
  let occupied ← occupiedByOther w.colony a goal
  if occupied then return none
  let start ← position w.colony a
  let columns ← int32 (goal.column - start.column)
  let rows ← int32 (goal.row - start.row)
  let facing ← ofDisplacement? columns rows
  let turned ← faceAlong w.colony a facing
  let colony ← setPosition turned a goal
  return some { w with colony }

/-- The ladybug exchanges the contents of the cell ahead. -/
def replaceAhead? (w : World) (a : AgentId) (expected replacement : Cell) :
    Checked (Option World) := do
  let ahead ← front w.colony a
  let cell ← cell? w.grid ahead
  if cell = some expected then
    let grid ← setCell w.grid ahead replacement
    return some { w with grid }
  else return none

/-- The world after an action of a ladybug, if it succeeds. -/
def attempt? (action : Action) (w : World) (a : AgentId) : Checked (Option World) :=
  match action with
  | .move => stepForward? w a
  | .turnLeft => some <$> turn w a Direction.turnLeft
  | .turnRight => some <$> turn w a Direction.turnRight
  | .takeLeaf => replaceAhead? w a .leaf .empty
  | .placeLeaf => replaceAhead? w a .empty .leaf
  | .fly goal => fly? w a goal

/-- The world after an action of a ladybug, and whether the action succeeded. -/
def perform (action : Action) (w : World) (a : AgentId) : Checked (World × Bool) := do
  let attempted ← attempt? action w a
  match attempted with
  | some w' => return (w', true)
  | none => return (w, false)

/-- The contents of the cell ahead. -/
def cellAhead? (w : World) (a : AgentId) : Checked (Option Cell) := do
  let ahead ← front w.colony a
  cell? w.grid ahead

/-- The condition is true of the ladybug in the world. -/
def holds (condition : Condition) (w : World) (a : AgentId) : Checked Bool :=
  match condition with
  | .atEdge => do
    let own ← position w.colony a
    atEdge w.grid own
  | .leafFront => return (← cellAhead? w a) == some .leaf
  | .treeFront => return (← cellAhead? w a) == some .tree
  | .mushroomFront => return (← cellAhead? w a) == some .mushroom
  | .pathTo goal => do
    let own ← position w.colony a
    hasPath w.grid own goal
  | .pathBetween start goal => hasPath w.grid start goal

section Deeds

variable {w : World} {a : AgentId}

/-- Turning a ladybug where it faces already changes nothing, so it need not be done. -/
theorem faceAlong_eq {c : Colony} (hc : c.directions.size = c.count) (ha : c.contains a)
    (facing : Option Direction) :
    faceAlong c a facing = .ok (c.setDirection a (facing.getD (c.direction a))) := by
  cases facing with
  | some d => exact setDirection_eq hc ha d
  | none =>
      have hlt : a.index < c.directions.size := hc.symm ▸ Colony.index_lt_of_contains ha
      have hself : c.directions.setIfInBounds a.index (c.direction a) = c.directions := by
        rw [Array.setIfInBounds_def, dif_pos hlt, Colony.direction, Array.getElem?_eq_getElem hlt,
          Option.getD_some, Array.set_getElem_self]
      rw [faceAlong, Option.getD_none, Colony.setDirection, hself]

theorem stepForward?_eq (hw : w.Settled) (hg : w.grid.Small) (ha : w.colony.contains a) :
    stepForward? w a = .ok (w.stepForward? a) := by
  rw [stepForward?, direction_eq hw ha, ok_bind, front_eq hw hg ha, ok_bind, World.stepForward?]
  by_cases hin : w.grid.inBounds (w.colony.front a)
  · obtain ⟨c, hc⟩ := Grid.exists_cell? hin
    rw [if_pos hin, occupiedByOther_eq ha, ok_bind]
    dsimp only
    split
    · rfl
    · rw [cellAt_eq hc, ok_bind, hc]
      cases c with
      | empty => rw [setPosition_eq hw.positions ha]; rfl
      | tree => rfl
      | leaf => rfl
      | mushroom =>
          -- The cell ahead lies inside the grid, so one more step may be taken from it.
          dsimp only
          rw [step_eq hg hin, ok_bind, isEmpty_eq, ok_bind]
          split
          · next hfree =>
              have hbeyond := Grid.inBounds_of_cell? (eq_of_beq hfree)
              rw [setCell_eq hbeyond, ok_bind, setCell_eq ((Grid.inBounds_set ..).trans hin),
                ok_bind, setPosition_eq hw.positions ha]
              rfl
          · rfl
  · have hnone : w.grid.cell? (w.colony.front a) = none := if_neg hin
    rw [if_neg hin, hnone]
    dsimp only
    split <;> rfl

theorem turn_eq (hw : w.Settled) (ha : w.colony.contains a) (quarter : Direction → Direction) :
    turn w a quarter = .ok (w.turn a quarter) := by
  rw [turn, direction_eq hw ha, ok_bind, setDirection_eq hw.directions ha]
  rfl

theorem fly?_eq (hw : w.Settled) (hg : w.grid.Small) (ha : w.colony.contains a) (goal : Position) :
    fly? w a goal = .ok (w.fly? a goal) := by
  rw [fly?, isEmpty_eq, ok_bind, World.fly?]
  cases hfree : w.grid.isEmpty goal with
  | false => rfl
  | true =>
      rw [occupiedByOther_eq ha, Bool.true_and]
      cases hoccupied : w.colony.occupiedByOther a goal with
      | true => rfl
      | false =>
          have hgoal := Grid.inBounds_of_cell? (eq_of_beq hfree)
          obtain ⟨⟨hcolumns, hwidth⟩, hrows, hheight⟩ := fits_sub hg (hw.inBounds a ha) hgoal
          simp only [Bool.not_true, Bool.false_eq_true, if_false, ok_bind, position_eq hw ha,
            int32_eq hcolumns, int32_eq hrows, ofDisplacement?_eq hwidth hheight, Bool.not_false,
            if_true, faceAlong_eq hw.directions ha]
          rw [setPosition_eq (c := w.colony.setDirection a _) hw.positions ha]
          rfl

theorem replaceAhead?_eq (hw : w.Settled) (hg : w.grid.Small) (ha : w.colony.contains a)
    (expected replacement : Cell) :
    replaceAhead? w a expected replacement = .ok (w.replaceAhead? a expected replacement) := by
  rw [replaceAhead?, front_eq hw hg ha, ok_bind, cell?_eq, ok_bind, World.replaceAhead?,
    World.cellAhead?]
  split
  · next hcell => rw [setCell_eq (Grid.inBounds_of_cell? hcell)]; rfl
  · rfl

theorem attempt?_eq (hw : w.Settled) (hg : w.grid.Small) (ha : w.colony.contains a)
    (action : Action) : attempt? action w a = .ok (action.attempt? w a) := by
  cases action with
  | move => exact stepForward?_eq hw hg ha
  | turnLeft => rw [attempt?, turn_eq hw ha]; rfl
  | turnRight => rw [attempt?, turn_eq hw ha]; rfl
  | takeLeaf => exact replaceAhead?_eq hw hg ha ..
  | placeLeaf => exact replaceAhead?_eq hw hg ha ..
  | fly goal => exact fly?_eq hw hg ha goal

/-- **Actions make valid accesses only**, if the ladybug belongs to a settled world. -/
theorem perform_eq (hw : w.Settled) (hg : w.grid.Small) (ha : w.colony.contains a)
    (action : Action) : perform action w a = .ok (action.perform w a) := by
  rw [perform, attempt?_eq hw hg ha, ok_bind, Action.perform]
  cases action.attempt? w a <;> rfl

/-- **Conditions make valid accesses only**, if the ladybug belongs to a settled world. -/
theorem holds_eq (hw : w.Settled) (hg : w.grid.Small) (ha : w.colony.contains a)
    (condition : Condition) : holds condition w a = .ok (condition.holds w a) := by
  have hahead : cellAhead? w a = .ok (w.cellAhead? a) := by
    rw [cellAhead?, front_eq hw hg ha, ok_bind, cell?_eq]
    rfl
  cases condition with
  | atEdge =>
      rw [holds, position_eq hw ha, ok_bind, atEdge_eq hg (hw.inBounds a ha)]
      rfl
  | leafFront => rw [holds, hahead]; rfl
  | treeFront => rw [holds, hahead]; rfl
  | mushroomFront => rw [holds, hahead]; rfl
  | pathTo goal => rw [holds, position_eq hw ha, ok_bind, hasPath_eq hg]; rfl
  | pathBetween start goal => exact hasPath_eq hg start goal

end Deeds

end Checked

end Ladybug
