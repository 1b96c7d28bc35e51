import Ladybug.Proofs.Histories
import Ladybug.Proofs.Rounds

/-!
# What is played between loads

Between two loads a game goes on in single steps: a ladybug takes a turn, or its tree is changed.
A turn is recorded, a changed tree is not, and every operation that loads nothing comes down to
such steps, with the records that it returns. This says once what an operation can do to a game,
so that a fact about all games is shown for a load of a board, for a load of trees, and for one
step.

The first such fact is about the trees on the field. Each of them was read from a flowchart, and
since then it has gone through nothing but what can happen to a tree.

## Main definitions

* `Field.Step` and `Game.Plays` — one step, and any number of them, with what they record.
* `Game.Operation.recorded` — the trace that an operation returns.
* `Field.TreesReachable` — the trees on a field are reachable ones.

## Main results

* `Game.Reachable.after_plays` — an operation that loads nothing plays what it records.
* `Game.Reachable.after_holds` — what an operation keeps.
* `Game.Reachable.treesReachable` — the trees of a reachable game are reachable ones.
-/

namespace Ladybug

/-- The node is what some text says. -/
def Flowchart.IsRead (spec : NodeSpec) : Prop := ∃ text, readNode text = .ok spec

/-! ### Steps of a field -/

/-- A ladybug takes a turn, or its tree is changed. New nodes are read from a text. -/
inductive Field.Step (f : Field) : Trace → Field → Prop
  | turn {a : AgentId} {t : Tree} (htree : f.tree a = .ok t) :
      Step f (t.tick f.world a).trace
        { f.setTree a (t.tick f.world a).tree with world := (t.tick f.world a).world }
  | edit {a : AgentId} {t : Tree} (htree : f.tree a = .ok t) {op : Tree.Operation}
      (hadds : op.Adds Flowchart.IsRead) : Step f [] (f.setTree a (t.after op))

/-- A turn of a ladybug is a step. -/
theorem Field.step_of_turn {f f' : Field} {a : AgentId} {trace : Trace}
    (h : f.turn a = .ok (trace, f')) : f.Step trace f' := by
  obtain ⟨t, htree, rfl, rfl⟩ := exists_tree_of_turn h
  exact .turn htree

namespace Game

/-! ### Steps of a game -/

/-- The second game is what steps have made of the first one, and this is what they have
recorded. -/
inductive Plays (g : Game) : Trace → Game → Prop
  | nil : Plays g [] g
  | step {trace more : Trace} {f f' : Field} (h : Plays g trace ⟨some f⟩)
      (hstep : f.Step more f') : Plays g (trace ++ more) ⟨some f'⟩

/-- The trace that an operation returns. There is none if it is refused. -/
def Operation.recorded (g : Game) : Operation → Trace
  | tick a => ((Game.tick a).run' g).getD []
  | nextAction observer memory => (((Game.nextAction observer memory).run' g).map Prod.fst).getD []
  | _ => []

section Plays

variable {g g' g'' : Game} {trace more : Trace} {f f' : Field}

/-- What is played on the game that is left comes after what was played before. -/
theorem Plays.trans (h : Plays g trace g') (h' : Plays g' more g'') :
    Plays g (trace ++ more) g'' := by
  induction h' with
  | nil => rwa [List.append_nil]
  | step _ hstep ih =>
      rw [← List.append_assoc]
      exact .step ih hstep

/-- One step on the field of a game. -/
theorem plays_step (hfield : g.field = some f) (hstep : f.Step trace f') :
    Plays g trace ⟨some f'⟩ := by
  obtain rfl : g = ⟨some f⟩ := congrArg Game.mk hfield
  exact .step .nil hstep

/-- A turn of a ladybug plays what it returns, unless it is refused. -/
theorem ends_turn_plays (g : Game) (a : AgentId) : Ends (turn a) g (Plays g) fun _ => Plays g [] :=
  ends_turn (fun _ _ _ hfield hturn => plays_step hfield (Field.step_of_turn hturn))
    (fun _ _ => .nil) fun _ _ _ _ => .nil

/-- Changing a tree is a step without records, unless it is refused. -/
theorem ends_editTree_plays (op : Tree.Operation) {a : AgentId}
    {edit : Tree → Except TreeError Tree} (hadds : op.Adds Flowchart.IsRead) (hop : ∀ t, op.run t = edit t) :
    Ends (editTree a edit) g (fun _ => Plays g []) fun _ => Plays g [] := by
  refine ends_editTree (fun f t edited hfield htree hedited => ?_) fun _ => .nil
  have hafter : t.after op = edited := by rw [Tree.after, hop, hedited]
  exact hafter ▸ plays_step hfield (.edit htree hadds)

/-- Single ticks play what they report. -/
theorem Ticks.plays {ids : List AgentId} {reports : List Report} (h : Ticks g ids reports g') :
    Plays g (reports.flatMap Report.trace) g' := by
  induction h with
  | nil => exact .nil
  | @cons g next g' a rest trace w reports htick _ _ ih =>
      have hturn := ends_turn_plays g a
      rw [Ends, turn_of_tick htick] at hturn
      exact hturn.trans ih

end Plays

/-! ### What operations play -/

section Operations

variable {α : Type} {g : Game}

/-- What is made of the value of a program is made of what it returns. -/
theorem run'_map {β : Type} (f : α → β) (program : GameM α) :
    (f <$> program).run' g = (program.run' g).map f := by
  cases h : program g with
  | ok value g' => rw [run'_of_ok (map_of_ok h f), run'_of_ok h, Option.map_some]
  | error error g' => rw [run'_of_error (map_of_error h f), run'_of_error h, Option.map_none]

/-- A program that plays what it returns, and nothing if it stops with an error. -/
theorem plays_of_ends {program : GameM α} (record : α → Trace)
    (h : Ends program g (fun value => Plays g (record value)) fun _ => Plays g []) :
    Plays g (((program.run' g).map record).getD []) (left program g) := by
  rw [Ends] at h
  cases hprogram : program g with
  | ok value g' =>
      rw [hprogram] at h
      rw [run'_of_ok hprogram, left_of_ok hprogram]
      exact h
  | error error g' =>
      rw [hprogram] at h
      rw [run'_of_error hprogram, left_of_error hprogram]
      exact h

/-- An operation that returns nothing has changed nothing. -/
theorem Reachable.after_of_run' (h : g.Reachable) {op : Operation} (hop : op.run.run' g = none) :
    g.after op = g := by
  rw [after_eq_left]
  cases hrun : op.run g with
  | ok value g' =>
      rw [run'_of_ok hrun] at hop
      cases hop
  | error error g' => rw [left_of_error hrun, h.run_error hrun]

/-- An operation whose program has returned nothing has played nothing. -/
theorem Reachable.plays_of_map (h : g.Reachable) {op : Operation} {program : GameM α} {f : α → Unit}
    (hop : op.run = f <$> program) (hprogram : program.run' g = none) : Plays g [] (g.after op) := by
  have hrefused : op.run.run' g = none := by rw [hop, run'_map, hprogram, Option.map_none]
  rw [h.after_of_run' hrefused]
  exact .nil

/-- A round of a reachable game plays what it returns, unless it is refused. -/
theorem Reachable.ends_nextAction_plays (h : g.Reachable) {σ : Type} (observer : TurnObserver σ)
    (memory : σ) :
    Ends (nextAction observer memory) g (fun result => Plays g result.1) fun _ => Plays g [] := by
  cases hready : g.ready with
  | ok f =>
      obtain ⟨reports, g', hticks, hround⟩ := exists_round h hready
      rw [Ends, hround]
      exact hticks.plays
  | error error =>
      rw [Ends, nextAction, bind_of_error (ask_of_error hready)]
      exact .nil

/-- **An operation that loads nothing plays what it records**: each turn in it is one on the
field of the game, its record is part of the trace that the operation returns, and what else is
done changes a tree. -/
theorem Reachable.after_plays (h : g.Reachable) (op : Operation) (hboard : op.board? g = none)
    (hbound : op.bound? g = none) : Plays g (op.recorded g) (g.after op) := by
  cases op with
  | loadBoard lines => exact h.plays_of_map rfl (Option.map_eq_none_iff.mp hboard)
  | loadTrees lines => exact h.plays_of_map rfl hbound
  | loadTreeFiles files => exact h.plays_of_map rfl hbound
  | tick a =>
      have htick : Ends (tick a) g (Plays g) fun _ => Plays g [] :=
        ends_bind (ends_ask (fun _ _ => ends_turn_plays g a) fun _ _ => .nil)
      have hplays := plays_of_ends id htick
      rw [Option.map_id, id] at hplays
      rwa [after_eq_left, Operation.run, left_map]
  | nextAction observer memory =>
      rw [after_eq_left, Operation.run, left_map]
      exact plays_of_ends Prod.fst (h.ends_nextAction_plays observer memory)
  | resetTree a =>
      rw [after_eq_left]
      exact left_of_ends (ends_editTree_plays .reset trivial fun _ => rfl)
  | jumpTo a node =>
      rw [after_eq_left]
      exact left_of_ends (ends_editTree_plays (.jumpTo node) trivial fun _ => rfl)
  | addSibling a existing node =>
      rw [after_eq_left]
      refine left_of_ends (ends_bind (ends_orFail (fun spec hspec => ?_) fun _ _ => .nil))
      exact ends_editTree_plays (.addSibling existing spec) ⟨node, hspec⟩ fun _ => rfl

end Operations

end Game

/-! ### Trees on the field -/

/-- Every tree of several texts was read from one of them. -/
theorem exists_readTrees_of_mem {total : Nat} {files : List (List String)}
    {parsed trees : List Tree} {t : Tree} (h : readTreeFilesAfter total parsed files = .ok trees)
    (ht : t ∈ trees) : t ∈ parsed ∨ ∃ file n more,
      Flowchart.readTrees file n = .ok more ∧ t ∈ more := by
  induction files generalizing parsed with
  | nil =>
      rw [readTreeFilesAfter] at h
      split at h
      · cases h
      · obtain rfl := Except.ok.inj h
        exact .inl ht
  | cons file rest ih =>
      rw [readTreeFilesAfter] at h
      split at h
      · cases h
      · cases h
      · next more hread =>
          rcases ih h with hparsed | hread'
          · exact (List.mem_append.mp hparsed).imp_right fun hmore => ⟨file, _, more, hread, hmore⟩
          · exact .inr hread'

namespace Field

/-- The trees on the field are reachable, with new nodes that were read from texts. -/
def TreesReachable (f : Field) : Prop :=
  ∀ (row : Nat) (t : Tree), f.trees[row]? = some (some t) → t.Reachable Flowchart.IsRead

variable {f f' : Field} {trace : Trace}

/-- There are no trees on a fresh field. -/
theorem treesReachable_ofBoard (b : Board) : (ofBoard b).TreesReachable := by
  intro row t ht
  have hnone : (Array.replicate b.spawns.length (none : Option Tree))[row]? = some (some t) := ht
  simp [Array.getElem?_replicate] at hnone

/-- The trees that are bound have just been read. -/
theorem treesReachable_bind {files : List (List String)} {n : Nat} {trees : List Tree}
    (h : readTreeFiles files n = .ok trees) : (f.bind trees).TreesReachable := by
  intro row t ht
  have hmem : t ∈ trees := by
    have hplace : ((List.range f.ladybugs).map fun row => trees[row]?)[row]? = some (some t) := by
      rw [← List.getElem?_toArray]
      exact ht
    rw [List.getElem?_map, Option.map_eq_some_iff] at hplace
    obtain ⟨row', -, htree⟩ := hplace
    exact List.mem_of_getElem? htree
  obtain hnil | ⟨file, _, more, hread, hmore⟩ := exists_readTrees_of_mem h hmem
  · cases hnil
  · exact .read hread hmore

/-- A tree in the place of another one is reachable if it is made of it by an operation. -/
theorem TreesReachable.setTree (h : f.TreesReachable) {a : AgentId} {t : Tree}
    (htree : f.tree a = .ok t) (op : Tree.Operation) (hadds : op.Adds Flowchart.IsRead) :
    (f.setTree a (t.after op)).TreesReachable := by
  intro row u hu
  have hplace := (tree_eq_ok_iff.mp htree).2
  change (f.trees.setIfInBounds a.index _)[row]? = _ at hu
  rw [Array.getElem?_setIfInBounds] at hu
  split at hu
  · next hrow =>
      split at hu
      · obtain rfl := Option.some.inj (Option.some.inj hu)
        exact .after (h _ _ hplace) hadds
      · cases hu
  · exact h row u hu

/-- A step keeps the trees reachable. -/
theorem Step.treesReachable (hstep : f.Step trace f') (h : f.TreesReachable) :
    f'.TreesReachable := by
  cases hstep with
  | @turn a t htree => exact h.setTree htree (.tick f.world a) trivial
  | edit htree hadds => exact h.setTree htree _ hadds

end Field

namespace Game

variable {g g' : Game} {trace : Trace} {P : Field → Prop}

/-- What every step of a field keeps is kept by all that is played. -/
theorem Plays.holds (hplays : Plays g trace g') (h : Holds P g)
    (hstep : ∀ {f f' : Field} {trace : Trace}, P f → f.Step trace f' → P f') : Holds P g' := by
  induction hplays with
  | nil => exact h
  | step _ hmore ih => exact holds_some (hstep (ih _ rfl) hmore)

/-- An operation that has loaded a board is a load of that board. -/
theorem eq_loadBoard_of_board? {op : Operation} {lines : List String}
    (h : op.board? g = some lines) : op = .loadBoard lines := by
  cases op with
  | loadBoard lines' =>
      obtain ⟨_, -, rfl⟩ := Option.map_eq_some_iff.mp h
      rfl
  | _ => cases h

/-- **An operation on a reachable game keeps a property of its field**, if the board that is loaded
has it, and if it is kept by a load of trees and by every step. -/
theorem Reachable.after_holds (hreach : g.Reachable) (op : Operation) (h : Holds P g)
    (hboard : ∀ lines board, op = .loadBoard lines → Board.read lines = .ok board →
      P (.ofBoard board))
    (hbind : ∀ {f files trees}, P f → readTreeFiles files f.ladybugs = .ok trees → P (f.bind trees))
    (hstep : ∀ {f f' : Field} {trace : Trace}, P f → f.Step trace f' → P f') :
    Holds P (g.after op) := by
  have hplays := hreach.after_plays op
  have hmakes := after_makes g op
  generalize g.after op = next at hmakes hplays ⊢
  cases hmakes with
  | board hloaded _ hread => exact holds_some (hboard _ _ (eq_loadBoard_of_board? hloaded) hread)
  | trees _ _ hfield hread => exact holds_some (hbind (h _ hfield) hread)
  | goesOn hboard hbound _ => exact (hplays hboard hbound).holds h hstep

/-- **The trees of a reachable game are reachable ones**, with new nodes that were read from
texts. -/
theorem Reachable.treesReachable (h : g.Reachable) : Holds Field.TreesReachable g := by
  induction h with
  | new =>
      intro f hfield
      cases hfield
  | after op hreach ih =>
      exact hreach.after_holds op ih (fun _ board _ _ => Field.treesReachable_ofBoard board)
        (fun _ hread => Field.treesReachable_bind hread)
        fun htrees hstep => hstep.treesReachable htrees

end Game

end Ladybug
