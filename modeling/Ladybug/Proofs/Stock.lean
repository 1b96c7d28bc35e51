import Ladybug.Proofs.Plays
import Ladybug.Proofs.Reloading

/-!
# What is on the grid is accounted for

Ladybugs move things about, but the grid keeps its bounds and its trees, and no mushroom is made
or lost: a push writes two cells, and these two exchange their contents. Leaves come and go only
with the two actions that are meant for them, each of which is recorded when it succeeds. So the
leaves on the grid are those of the board, with the ones that were placed and without the ones
that were taken since the game was last loaded.

## Main definitions

* `Grid.amount` — how many cells have certain contents.
* `Action.successesIn` — how often an action has succeeded, by the records.
* `Grid.Accounts` — the records account for the difference between two grids.
* `Game.recorded` — all traces returned since the last load.

## Main results

* `Action.perform_accounts` — the record of an action accounts for what it does to the grid.
* `Field.Step.accounts` — what a step records accounts for what it does to the grid.
* `Game.accounts_recorded` — the traces since the last load account for the grid in play.
-/

namespace Ladybug

/-! ### Counting -/

/-- How many cells of the grid have the contents. -/
def Grid.amount (g : Grid) (c : Cell) : Nat := g.cells.count c

/-- The record says that the action has succeeded. -/
def TraceEntry.isSuccessOf (e : TraceEntry) (action : Action) : Bool :=
  e.kind == .action action && e.event == .success

/-- How often the action has succeeded, by the records. -/
def Action.successesIn (action : Action) (trace : Trace) : Nat :=
  trace.countP fun e => e.isSuccessOf action

/-- Setting a cell takes its old contents off the count and adds the new ones. -/
theorem Grid.amount_set {g : Grid} {p : Position} {old : Cell} (h : g.cell? p = some old)
    (new c : Cell) :
    (g.set p new).amount c + (if old = c then 1 else 0) =
      g.amount c + (if new = c then 1 else 0) := by
  have hin : g.inBounds p := inBounds_of_cell? h
  have hlt := offset_lt hin
  have hold : g.cells[g.offset p] = old := by
    rw [cell?, if_pos hin, Array.getElem?_eq_getElem hlt] at h
    exact Option.some.inj h
  have hcells : (g.set p new).cells = g.cells.setIfInBounds (g.offset p) new := by
    rw [set, if_pos hin]
  have hpos : old = c → 0 < g.cells.count c := by
    rintro rfl
    exact Array.count_pos_iff.mpr (hold ▸ Array.getElem_mem hlt)
  rw [amount, hcells, Array.setIfInBounds_def, dif_pos hlt, Array.count_set, hold, amount]
  by_cases hc : old = c
  · have := hpos hc
    simp only [hc, beq_self_eq_true, if_true, beq_iff_eq]
    omega
  · simp [hc]

/-! ### Grids and records -/

/-- The records account for the difference between the grids: the bounds and the trees are the
same, there are as many mushrooms, and leaves are more by those that were placed and fewer by
those that were taken. -/
structure Grid.Accounts (g g' : Grid) (trace : Trace) : Prop where
  columns : g'.columns = g.columns
  rows : g'.rows = g.rows
  tree : ∀ p, g'.cell? p = some .tree ↔ g.cell? p = some .tree
  mushroom : g'.amount .mushroom = g.amount .mushroom
  leaf : g'.amount .leaf + Action.takeLeaf.successesIn trace =
    g.amount .leaf + Action.placeLeaf.successesIn trace

namespace Grid.Accounts

variable {g g' g'' : Grid} {trace more : Trace}

theorem refl (g : Grid) : Accounts g g [] := ⟨rfl, rfl, fun _ => .rfl, rfl, rfl⟩

/-- Records of anything but leaves that were placed or taken make no difference. -/
theorem of_nil (h : Accounts g g' []) (htake : Action.takeLeaf.successesIn trace = 0)
    (hplace : Action.placeLeaf.successesIn trace = 0) : Accounts g g' trace :=
  { h with leaf := by rw [htake, hplace]; exact h.leaf }

/-- Records end to end account for one difference after the other. -/
theorem trans (h : Accounts g g' trace) (h' : Accounts g' g'' more) :
    Accounts g g'' (trace ++ more) where
  columns := h'.columns.trans h.columns
  rows := h'.rows.trans h.rows
  tree p := (h'.tree p).trans (h.tree p)
  mushroom := h'.mushroom.trans h.mushroom
  leaf := by
    have hleaf := h.leaf
    have hleaf' := h'.leaf
    simp only [Action.successesIn, List.countP_append] at hleaf hleaf' ⊢
    omega

end Grid.Accounts

namespace Grid

variable {g : Grid} {p : Position} {old new : Cell}

/-- Setting a cell neither fells nor plants a tree, if there is none before and after. -/
theorem cell?_set_eq_tree_iff (h : g.cell? p = some old) (hold : old ≠ .tree) (hnew : new ≠ .tree)
    (q : Position) : (g.set p new).cell? q = some .tree ↔ g.cell? q = some .tree := by
  rw [cell?_set (inBounds_of_cell? h)]
  split
  · next hq =>
      rw [hq, h]
      simp [hold, hnew]
  · rfl

/-- If a cell is set without trees and mushrooms, the leaf that is gone or new must be told by
the records. -/
theorem accounts_set {trace : Trace} (h : g.cell? p = some old)
    (hold : old ≠ .tree ∧ old ≠ .mushroom) (hnew : new ≠ .tree ∧ new ≠ .mushroom)
    (hleaf : Action.takeLeaf.successesIn trace + (if new = .leaf then 1 else 0) =
      Action.placeLeaf.successesIn trace + (if old = .leaf then 1 else 0)) :
    g.Accounts (g.set p new) trace where
  columns := columns_set g p new
  rows := rows_set g p new
  tree := cell?_set_eq_tree_iff h hold.1 hnew.1
  mushroom := by simpa [hold.2, hnew.2] using amount_set h new .mushroom
  leaf := by
    have hamount := amount_set h new .leaf
    omega

/-- A push exchanges the mushroom ahead with the empty cell beyond. -/
theorem accounts_of_push {ahead beyond : Position} (hahead : g.cell? ahead = some .mushroom)
    (hbeyond : g.cell? beyond = some .empty) :
    g.Accounts ((g.set beyond .mushroom).set ahead .empty) [] := by
  have hne : ahead ≠ beyond := by
    rintro rfl
    rw [hahead] at hbeyond
    cases hbeyond
  -- The first of the two cells to be set leaves the other one as it was.
  have hpushed : (g.set beyond .mushroom).cell? ahead = some .mushroom := by
    rw [cell?_set (inBounds_of_cell? hbeyond), if_neg hne, hahead]
  constructor
  · rw [columns_set, columns_set]
  · rw [rows_set, rows_set]
  · intro p
    rw [cell?_set_eq_tree_iff hpushed (by decide) (by decide),
      cell?_set_eq_tree_iff hbeyond (by decide) (by decide)]
  · have h := amount_set hbeyond .mushroom .mushroom
    have h' := amount_set hpushed .empty .mushroom
    simp only [reduceCtorEq, if_false, if_true] at h h'
    omega
  · have h := amount_set hbeyond .mushroom .leaf
    have h' := amount_set hpushed .empty .leaf
    simp only [reduceCtorEq, if_false] at h h'
    exact congrArg (· + 0) (h'.trans h)

end Grid

/-! ### Actions -/

namespace Action

/-- How often an action has succeeded by the record of one of them. -/
theorem successesIn_singleton (counted action : Action) (a : AgentId) (id : String)
    (succeeded : Bool) :
    counted.successesIn [⟨a, id, .action action, .ofOutcome succeeded⟩] =
      if succeeded ∧ action = counted then 1 else 0 := by
  cases succeeded <;>
    simp [successesIn, TraceEntry.isSuccessOf, TraceEvent.ofOutcome, List.countP_singleton]

/-- No action has succeeded by records that are not about actions. -/
theorem successesIn_eq_zero {trace : Trace} (h : ∀ e ∈ trace, e.kind.isAction = false)
    (counted : Action) : counted.successesIn trace = 0 := by
  refine List.countP_eq_zero.mpr fun e he hsuccess => ?_
  have hkind := eq_of_beq (Bool.and_eq_true_iff.mp hsuccess).1
  have hno := h e he
  rw [hkind] at hno
  cases hno

end Action

namespace World

variable {w w' : World} {a : AgentId}

/-- A step forward leaves the grid alone, or it pushes a mushroom. -/
theorem stepForward?_accounts (h : w.stepForward? a = some w') : w.grid.Accounts w'.grid [] := by
  rw [stepForward?] at h
  split at h
  · cases h
  · split at h
    · obtain rfl := Option.some.inj h
      exact .refl _
    · next hmushroom =>
        dsimp only at h
        split at h
        · next hempty =>
            obtain rfl := Option.some.inj h
            exact Grid.accounts_of_push hmushroom (eq_of_beq hempty)
        · cases h
    · cases h

/-- Flying leaves the grid alone. -/
theorem grid_of_fly? {goal : Position} (h : w.fly? a goal = some w') : w'.grid = w.grid := by
  rw [fly?] at h
  split at h
  · obtain rfl := Option.some.inj h
    rfl
  · cases h

/-- The cell ahead had the expected contents and was set. -/
theorem of_replaceAhead? {expected replacement : Cell}
    (h : w.replaceAhead? a expected replacement = some w') :
    w.grid.cell? (w.colony.front a) = some expected ∧
      w'.grid = w.grid.set (w.colony.front a) replacement := by
  rw [replaceAhead?] at h
  split at h
  · next hcell =>
      obtain rfl := Option.some.inj h
      exact ⟨hcell, rfl⟩
  · cases h

end World

/-- The record of an action accounts for what it does to the grid, whether or not it succeeds. -/
theorem Action.perform_accounts (action : Action) (w : World) (a : AgentId) (id : String) :
    w.grid.Accounts (action.perform w a).1.grid
      [⟨a, id, .action action, .ofOutcome (action.perform w a).2⟩] := by
  rw [perform]
  cases h : action.attempt? w a with
  | none =>
      refine (Grid.Accounts.refl w.grid).of_nil ?_ ?_ <;>
        simp [successesIn_singleton]
  | some w' =>
      have hcount (counted : Action) := successesIn_singleton counted action a id true
      cases action with
      | move => exact (World.stepForward?_accounts h).of_nil (hcount _) (hcount _)
      | turnLeft =>
          obtain rfl := Option.some.inj h
          exact (Grid.Accounts.refl w.grid).of_nil (hcount _) (hcount _)
      | turnRight =>
          obtain rfl := Option.some.inj h
          exact (Grid.Accounts.refl w.grid).of_nil (hcount _) (hcount _)
      | takeLeaf =>
          obtain ⟨hcell, hgrid⟩ := World.of_replaceAhead? h
          rw [hgrid]
          exact Grid.accounts_set hcell (by decide) (by decide) (by simp [hcount])
      | placeLeaf =>
          obtain ⟨hcell, hgrid⟩ := World.of_replaceAhead? h
          rw [hgrid]
          exact Grid.accounts_set hcell (by decide) (by decide) (by simp [hcount])
      | fly goal =>
          rw [World.grid_of_fly? h]
          exact (Grid.Accounts.refl w.grid).of_nil (hcount _) (hcount _)

/-! ### Turns -/

/-- The records of a turn account for what it does to the grid: walks record no actions, and the
one action of the turn is the last record. -/
theorem Tree.Sound.tick_accounts {t : Tree} (h : t.Sound) (w : World) (a : AgentId) :
    w.grid.Accounts (t.tick w a).world.grid (t.tick w a).trace := by
  have hwalks : w.grid.Accounts w.grid (t.walks w a).trace := by
    have hno := fun e he => ((h.walks_passes w a).records e he).isAction
    exact (Grid.Accounts.refl w.grid).of_nil (Action.successesIn_eq_zero hno _)
      (Action.successesIn_eq_zero hno _)
  cases hp : (t.walks w a).tree.pending? with
  | none =>
      rw [tick_of_not_pending hp]
      exact hwalks
  | some action =>
      rw [tick_of_pending hp]
      exact hwalks.trans (action.perform_accounts w a _)

/-- What a step records accounts for what it does to the grid. -/
theorem Field.Step.accounts {f f' : Field} {trace : Trace} (hstep : f.Step trace f')
    (h : f.TreesReachable) : f.world.grid.Accounts f'.world.grid trace := by
  cases hstep with
  | turn htree => exact (h _ _ (tree_eq_ok_iff.mp htree).2).sound.tick_accounts f.world _
  | edit _ _ => exact .refl _

namespace Game

/-! ### Whole games -/

/-- What is played records what accounts for the difference between the grids. -/
theorem Plays.accounts {f : Field} {trace : Trace} {g' : Game} (hplays : Plays ⟨some f⟩ trace g')
    (h : f.TreesReachable) :
    ∃ f', g' = ⟨some f'⟩ ∧ f.world.grid.Accounts f'.world.grid trace := by
  induction hplays with
  | nil => exact ⟨f, rfl, .refl _⟩
  | @step trace more f' f'' hplayed hstep ih =>
      obtain ⟨next, hnext, haccounts⟩ := ih
      obtain rfl : f' = next := Option.some.inj (congrArg field hnext)
      have htrees := hplayed.holds (holds_some h) (fun h hstep => hstep.treesReachable h) f' rfl
      exact ⟨f'', rfl, haccounts.trans (hstep.accounts htrees)⟩

/-- The operation loads a board or trees, and is not refused. -/
def Operation.loads (g : Game) (op : Operation) : Bool :=
  (op.board? g).isSome || (op.bound? g).isSome

/-- All traces returned since the last load, end to end. -/
def recorded : List Operation → Trace
  | [] => []
  | op :: earlier =>
    if op.loads (played earlier) then [] else recorded earlier ++ op.recorded (played earlier)

/-- **The traces since the last load account for the grid in play**: compared with the last board
that was loaded, it has the same bounds, the same trees and as many mushrooms, and it has the
leaves of the board, with those that were placed and without those that were taken since the
board or trees for it were loaded. -/
theorem accounts_recorded {history : List Operation} {lines : List String}
    (h : lastBoard? history = some lines) :
    ∃ board w, Board.read lines = .ok board ∧ (played history).world = .ok w ∧
      board.grid.Accounts w.grid (recorded history) := by
  induction history with
  | nil => cases h
  | cons op earlier ih =>
      have hreach : (played earlier).Reachable := reachable_iff.mpr ⟨earlier, rfl⟩
      have hplays := hreach.after_plays op
      have hmakes := after_makes (played earlier) op
      rw [lastBoard?] at h
      rw [played, recorded, Operation.loads]
      generalize (played earlier).after op = next at hmakes hplays ⊢
      cases hmakes with
      | @board lines' board hboard _ hread =>
          rw [hboard, Option.some_or] at h
          obtain rfl := Option.some.inj h
          rw [hboard]
          exact ⟨board, .ofBoard board, hread, rfl, .refl _⟩
      | @trees f files trees hboard hbound hfield hread =>
          rw [hboard, Option.none_or] at h
          obtain ⟨f', hfield', board, hboard', hinitial⟩ := exists_initial h
          obtain rfl := Option.some.inj (hfield.symm.trans hfield')
          rw [hbound, Option.isSome_some, Bool.or_true, if_pos rfl]
          refine ⟨board, _, hboard', rfl, ?_⟩
          change board.grid.Accounts f.initial.grid []
          rw [hinitial]
          exact .refl _
      | goesOn hboard hbound _ =>
          rw [hboard, Option.none_or] at h
          obtain ⟨board, w, hread, hworld, haccounts⟩ := ih h
          obtain ⟨f, hloaded, hw⟩ := exists_ok_of_bind hworld
          have hfield := loaded_eq_ok_iff.mp hloaded
          obtain rfl : f.world = w := Except.ok.inj hw
          have hgame : played earlier = ⟨some f⟩ := congrArg Game.mk hfield
          have hplayed := hplays hboard hbound
          have htrees := hreach.treesReachable f hfield
          rw [hgame] at hplayed
          obtain ⟨f', rfl, hmore⟩ := hplayed.accounts htrees
          refine ⟨board, f'.world, hread, rfl, ?_⟩
          rw [hboard, hbound, hgame]
          exact haccounts.trans hmore

/-- In a round the first ladybug places a leaf, the second one takes it, and the third one pushes
a mushroom. After that the first one places a leaf again. -/
theorem accounts_recorded_round :
    let lines := [">.<", ">o."]
    let history : List Operation := [.tick .first, .nextAction .silent (),
      .loadTrees ["flowchart TD", "A[placeLeaf]", "flowchart TD", "B[takeLeaf]",
        "flowchart TD", "C[move]"],
      .loadBoard lines]
    Action.placeLeaf.successesIn (recorded history) = 2 ∧
      Action.takeLeaf.successesIn (recorded history) = 1 ∧
      Action.move.successesIn (recorded history) = 1 ∧
      ∃ board w, Board.read lines = .ok board ∧ (played history).world = .ok w ∧
        board.grid.Accounts w.grid (recorded history) := by
  intro lines history
  exact ⟨by decide +kernel, by decide +kernel, by decide +kernel,
    accounts_recorded (by decide +kernel)⟩

end Game

end Ladybug
