import Ladybug.Proofs.Settled

/-!
# Histories of games

A history lists the operations of a game from its beginning on, the newest one first. It may
hold anything, operations that were refused included. Two things are told of it: the lines of
the last board that was loaded, and the number that the last load of trees returned.

Between these two kinds of loads a game goes on with the field it has. Turns and changed trees
touch the world in play and single trees, but neither the world as it was loaded nor who is
active. With that, every operation falls into one of three cases, and a fact about the field of
a game and what was loaded last is shown case by case.

## Main definitions

* `Game.played` — the game after a history.
* `Game.lastBoard?` and `Game.lastBound?` — what was loaded last.
* `Field.Continues` and `Game.GoesOn` — what becomes of a field and of a game without a load.
* `Game.Operation.Makes` — the three cases of an operation.

## Main results

* `Game.reachable_iff` — reachable games are those after a history.
* `Game.after_makes` — what an operation makes of a game.
* `Game.rel_played` — what is shown of a field case by case holds after every history.
-/

namespace Ladybug

/-- The second field is what the first one has become without a load: the world as it was
loaded, the places for trees, and who is active are the same. -/
structure Field.Continues (f f' : Field) : Prop where
  initial : f'.initial = f.initial
  places : f'.trees.size = f.trees.size
  treesLoaded : f'.treesLoaded = f.treesLoaded
  count : f'.world.colony.count = f.world.colony.count
  active : f'.world.colony.active = f.world.colony.active

namespace Field.Continues

variable {f f' f'' : Field} {a : AgentId}

theorem trans (h : Continues f f') (h' : Continues f' f'') : Continues f f'' where
  initial := h'.initial.trans h.initial
  places := h'.places.trans h.places
  treesLoaded := h'.treesLoaded.trans h.treesLoaded
  count := h'.count.trans h.count
  active := h'.active.trans h.active

/-- Changing a tree loads nothing. -/
theorem setTree (f : Field) (a : AgentId) (tree : Tree) : Continues f (f.setTree a tree) :=
  ⟨rfl, Array.size_setIfInBounds, rfl, rfl, rfl⟩

/-- A turn loads nothing. -/
theorem turn {trace : Trace} (h : f.turn a = .ok (trace, f')) : Continues f f' := by
  obtain ⟨t, -, -, rfl⟩ := exists_tree_of_turn h
  have hcolony := (t.tick_deed f.world a).colony
  exact ⟨rfl, Array.size_setIfInBounds, rfl, hcolony.count, hcolony.active⟩

/-- The same ladybugs are active. -/
theorem isActive (h : Continues f f') (a : AgentId) :
    f'.world.colony.isActive a = f.world.colony.isActive a := by
  rw [Colony.isActive, Colony.isActive, h.active]

end Field.Continues

namespace Game

/-! ### The game that is left -/

/-- The game that a program leaves, whether or not it stops with an error. -/
def left {α : Type} (program : GameM α) (g : Game) : Game :=
  match program g with
  | .ok _ g' => g'
  | .error _ g' => g'

section Left

variable {α β : Type} {program : GameM α} {g g' : Game}

theorem left_of_ok {value : α} (h : program g = .ok value g') : left program g = g' := by
  rw [left, h]

theorem left_of_error {error : GameError} (h : program g = .error error g') :
    left program g = g' := by
  rw [left, h]

/-- What a program returns if it succeeds. -/
theorem run'_of_ok {value : α} (h : program g = .ok value g') : program.run' g = some value := by
  delta EStateM.run' EStateM.run
  rw [h]

/-- A program that stops with an error returns nothing. -/
theorem run'_of_error {error : GameError} (h : program g = .error error g') :
    program.run' g = none := by
  delta EStateM.run' EStateM.run
  rw [h]

/-- What is made of the value does not matter. -/
theorem left_map (f : α → β) : left (f <$> program) g = left program g := by
  cases h : program g with
  | ok value g' =>
      rw [left_of_ok h, left_of_ok (map_of_ok h f)]
  | error error g' =>
      rw [left_of_error h, left_of_error (map_of_error h f)]

/-- What a program leaves in both cases. -/
theorem left_of_ends {P : Game → Prop} (h : Ends program g (fun _ => P) fun _ => P) :
    P (left program g) := by
  rw [Ends] at h
  cases hprogram : program g with
  | ok value g' =>
      rw [hprogram] at h
      exact left_of_ok hprogram ▸ h
  | error error g' =>
      rw [hprogram] at h
      exact left_of_error hprogram ▸ h

/-- The game after an operation is the one that its program leaves. -/
theorem after_eq_left (g : Game) (op : Operation) : g.after op = left op.run g := by
  rw [Game.after, left]
  cases op.run g <;> rfl

end Left

/-! ### Loads -/

section Loads

variable {g : Game} {f : Field} {lines : List String} {files : List (List String)}

/-- A board that is read is put in place. -/
theorem loadBoard_of_read {board : Board} (h : Board.read lines = .ok board) :
    loadBoard lines g = .ok board.spawns.length ⟨some (.ofBoard board)⟩ := by
  rw [loadBoard, h]
  rfl

/-- A board that cannot be read is refused. -/
theorem loadBoard_of_error {error : GridError} (h : Board.read lines = .error error) :
    loadBoard lines g = .error (.board error) g := by
  rw [loadBoard, h]
  rfl

/-- There are no trees without a board. -/
theorem loadTreeFiles_of_none (hfield : g.field = none) :
    loadTreeFiles files g = .error .boardNotLoaded g := by
  have hloaded : g.loaded = .error .boardNotLoaded := by rw [loaded, hfield]
  rw [loadTreeFiles, bind_of_error (ask_of_error hloaded)]

/-- Trees that are read are bound. -/
theorem loadTreeFiles_of_read (hfield : g.field = some f) {trees : List Tree}
    (h : readTreeFiles files f.ladybugs = .ok trees) :
    loadTreeFiles files g = .ok trees.length ⟨some (f.bind trees)⟩ := by
  rw [loadTreeFiles, bind_of_ok (ask_of_ok (loaded_eq_ok_iff.mpr hfield)), h]
  rfl

/-- Trees that cannot be read are refused. -/
theorem loadTreeFiles_of_error (hfield : g.field = some f) {error : FlowchartError}
    (h : readTreeFiles files f.ladybugs = .error error) :
    loadTreeFiles files g = .error (.trees error) g := by
  rw [loadTreeFiles, bind_of_ok (ask_of_ok (loaded_eq_ok_iff.mpr hfield)), h]
  rfl

end Loads

/-! ### Histories -/

/-- The lines of the board that an operation loads, unless it does something else or is
refused. -/
def Operation.board? (g : Game) : Operation → Option (List String)
  | loadBoard lines => ((Game.loadBoard lines).run' g).map fun _ => lines
  | _ => none

/-- The number that an operation returns if it loads trees, unless it is refused. -/
def Operation.bound? (g : Game) : Operation → Option Nat
  | loadTrees lines => (Game.loadTrees lines).run' g
  | loadTreeFiles files => (Game.loadTreeFiles files).run' g
  | _ => none

/-- The game after a history. -/
def played : List Operation → Game
  | [] => new
  | op :: earlier => (played earlier).after op

/-- The lines of the last board that was loaded. -/
def lastBoard? : List Operation → Option (List String)
  | [] => none
  | op :: earlier => (op.board? (played earlier)).or (lastBoard? earlier)

/-- The number that the last load of trees returned. -/
def lastBound? : List Operation → Option Nat
  | [] => none
  | op :: earlier => (op.bound? (played earlier)).or (lastBound? earlier)

/-- The reachable games are those after a history. -/
theorem reachable_iff {g : Game} : g.Reachable ↔ ∃ history, g = played history := by
  constructor
  · intro h
    induction h with
    | new => exact ⟨[], rfl⟩
    | after op _ ih =>
        obtain ⟨history, rfl⟩ := ih
        exact ⟨op :: history, rfl⟩
  · rintro ⟨history, rfl⟩
    induction history with
    | nil => exact .new
    | cons op earlier ih => exact .after op ih

/-! ### What an operation makes of a game -/

/-- The second game is what the first one has become without a load. -/
inductive GoesOn (g : Game) : Game → Prop
  | idle : GoesOn g g
  | field {f f' : Field} (hfield : g.field = some f) (hcontinues : f.Continues f') :
      GoesOn g ⟨some f'⟩

/-- What an operation makes of a game: it loads a board, or it loads trees for the board, or the
game goes on without a load. -/
inductive Operation.Makes (g : Game) (op : Operation) : Game → Prop
  | board {lines : List String} {board : Board} (hboard : op.board? g = some lines)
      (hbound : op.bound? g = none) (hread : Board.read lines = .ok board) :
      Makes g op ⟨some (.ofBoard board)⟩
  | trees {f : Field} {files : List (List String)} {trees : List Tree} (hboard : op.board? g = none)
      (hbound : op.bound? g = some trees.length) (hfield : g.field = some f)
      (hread : readTreeFiles files f.ladybugs = .ok trees) : Makes g op ⟨some (f.bind trees)⟩
  | goesOn {g' : Game} (hboard : op.board? g = none) (hbound : op.bound? g = none)
      (hgoes : GoesOn g g') : Makes g op g'

section Steps

variable {g g' g'' : Game}

/-- A game that goes on may go on further. -/
theorem GoesOn.trans (h : GoesOn g g') (h' : GoesOn g' g'') : GoesOn g g'' := by
  cases h with
  | idle => exact h'
  | field hfield hcontinues =>
      cases h' with
      | idle => exact .field hfield hcontinues
      | field hfield' hcontinues' =>
          obtain rfl := Option.some.inj hfield'
          exact .field hfield (hcontinues.trans hcontinues')

/-- With a turn the game goes on, whether or not it is refused. -/
theorem ends_turn_goesOn (g : Game) (a : AgentId) :
    Ends (turn a) g (fun _ => GoesOn g) fun _ => GoesOn g :=
  ends_turn (fun _ _ _ hfield hturn => .field hfield (.turn hturn)) (fun _ _ => .idle)
    fun _ _ _ _ => .idle

/-- With several turns the game goes on, even if one of them is refused. -/
theorem ends_turns_goesOn (g : Game) {σ : Type} (observer : TurnObserver σ) (ids : List AgentId)
    (memory : σ) :
    Ends (turns observer ids memory) g (fun _ => GoesOn g) fun _ => GoesOn g := by
  induction ids generalizing g memory with
  | nil => exact ends_pure .idle
  | cons a rest ih =>
      refine ends_bind ((ends_turn_goesOn g a).imp (fun trace next h => ?_) fun _ _ h => h)
      refine ends_bind (ends_ask (fun f _ => ?_) fun _ _ => h)
      exact ends_bind ((ih next _).imp (fun _ _ h' => ends_pure (h.trans h')) fun _ _ => h.trans)

/-- With a changed tree the game goes on, whether or not the change is refused. -/
theorem ends_editTree_goesOn (g : Game) (a : AgentId) (edit : Tree → Except TreeError Tree) :
    Ends (editTree a edit) g (fun _ => GoesOn g) fun _ => GoesOn g :=
  ends_editTree (fun f _ edited hfield _ _ => .field hfield (.setTree f a edited)) fun _ => .idle

/-- A load of trees is done, or the game goes on. -/
theorem makes_loadTreeFiles {op : Operation} {files : List (List String)}
    (hafter : g.after op = left (loadTreeFiles files) g) (hboard : op.board? g = none)
    (hbound : op.bound? g = (loadTreeFiles files).run' g) : op.Makes g (g.after op) := by
  cases hfield : g.field with
  | none =>
      have hload : loadTreeFiles files g = _ := loadTreeFiles_of_none hfield
      rw [hafter, left_of_error hload]
      exact .goesOn hboard (hbound.trans (run'_of_error hload)) .idle
  | some f =>
      cases hread : readTreeFiles files f.ladybugs with
      | ok trees =>
          have hload := loadTreeFiles_of_read hfield hread
          rw [hafter, left_of_ok hload]
          exact .trees hboard (hbound.trans (run'_of_ok hload)) hfield hread
      | error error =>
          have hload := loadTreeFiles_of_error hfield hread
          rw [hafter, left_of_error hload]
          exact .goesOn hboard (hbound.trans (run'_of_error hload)) .idle

/-- A load of a board is done, or the game goes on. -/
theorem makes_loadBoard (g : Game) (lines : List String) :
    (Operation.loadBoard lines).Makes g (g.after (.loadBoard lines)) := by
  have hafter : g.after (.loadBoard lines) = left (loadBoard lines) g :=
    (after_eq_left _ _).trans (left_map _)
  cases hread : Board.read lines with
  | ok board =>
      have hload : loadBoard lines g = _ := loadBoard_of_read hread
      have hboard : (Operation.loadBoard lines).board? g = some lines := by
        rw [Operation.board?, run'_of_ok hload]
        rfl
      rw [hafter, left_of_ok hload]
      exact .board hboard rfl hread
  | error error =>
      have hload : loadBoard lines g = _ := loadBoard_of_error hread
      have hboard : (Operation.loadBoard lines).board? g = none := by
        rw [Operation.board?, run'_of_error hload]
        rfl
      rw [hafter, left_of_error hload]
      exact .goesOn hboard rfl .idle

/-- Without a load, the game after an operation is what its program leaves. -/
theorem makes_of_ends {op : Operation} (hboard : op.board? g = none) (hbound : op.bound? g = none)
    (h : Ends op.run g (fun _ => GoesOn g) fun _ => GoesOn g) : op.Makes g (g.after op) :=
  .goesOn hboard hbound (after_eq_left g op ▸ left_of_ends h)

/-- Every operation loads a board, or it loads trees for the board, or the game goes on. -/
theorem after_makes (g : Game) (op : Operation) : op.Makes g (g.after op) := by
  cases op with
  | loadBoard lines => exact makes_loadBoard g lines
  | loadTrees lines =>
      have hafter : g.after (.loadTrees lines) = left (loadTreeFiles [lines]) g :=
        (after_eq_left _ _).trans (left_map _)
      exact makes_loadTreeFiles hafter rfl rfl
  | loadTreeFiles files =>
      exact makes_loadTreeFiles ((after_eq_left _ _).trans (left_map _)) rfl rfl
  | tick a =>
      refine makes_of_ends rfl rfl (ends_map (ends_bind (ends_ask ?_ fun _ _ => .idle)))
      exact fun _ _ => ends_turn_goesOn g a
  | nextAction observer memory =>
      refine makes_of_ends rfl rfl (ends_map (ends_bind (ends_ask ?_ fun _ _ => .idle)))
      exact fun f _ => ends_turns_goesOn g observer f.world.colony.activeIds memory
  | resetTree a => exact makes_of_ends rfl rfl (ends_editTree_goesOn g a _)
  | jumpTo a node => exact makes_of_ends rfl rfl (ends_editTree_goesOn g a _)
  | addSibling a existing node =>
      refine makes_of_ends rfl rfl (ends_bind (ends_orFail ?_ fun _ _ => .idle))
      exact fun _ _ => ends_editTree_goesOn g a _

end Steps

/-! ### The last loads -/

/-- What holds of a fresh field, of a field with trees, and of a field that goes on, holds of the
game after every history and of what was loaded last. There is a field if and only if a board
was loaded. -/
theorem rel_played {P : List String → Option Nat → Field → Prop}
    (hfresh : ∀ {lines board}, Board.read lines = .ok board → ∀ bound?,
      P lines bound? (.ofBoard board))
    (hbind : ∀ {lines bound? f files trees}, P lines bound? f →
      readTreeFiles files f.ladybugs = .ok trees → P lines (some trees.length) (f.bind trees))
    (hcontinues : ∀ {lines bound? f f'}, P lines bound? f → f.Continues f' → P lines bound? f')
    (history : List Operation) :
    Option.Rel (P · (lastBound? history) ·) (lastBoard? history) (played history).field := by
  induction history with
  | nil => exact .none
  | cons op earlier ih =>
      -- What was loaded last is told by the three cases of the newest operation.
      rw [lastBoard?, lastBound?, played]
      have hmakes := after_makes (played earlier) op
      generalize (played earlier).after op = next at hmakes ⊢
      cases hmakes with
      | board hboard _ hread =>
          rw [hboard]
          exact .some (hfresh hread _)
      | trees hboard hbound hfield hread =>
          rw [hboard, hbound]
          rw [hfield] at ih
          generalize lastBoard? earlier = lines? at ih ⊢
          cases ih with
          | some h => exact .some (hbind h hread)
      | goesOn hboard hbound hgoes =>
          rw [hboard, hbound]
          cases hgoes with
          | idle => exact ih
          | field hfield hcontinues' =>
              rw [hfield] at ih
              generalize lastBoard? earlier = lines? at ih ⊢
              cases ih with
              | some h => exact .some (hcontinues h hcontinues')

end Game

end Ladybug
