import Ladybug.Proofs.Histories

/-!
# Loading trees starts a game over

A field keeps the world as it was loaded beside the world in play. Nothing but a load of a board
ever writes to it, and a load of trees builds everything else from it: the world in play, who is
active, and the place for the tree of each ladybug. So after a load of trees a game is the one
that the same trees make of a board that was just loaded, and if the trees are refused, they
would have been refused there too.

## Main results

* `Game.exists_initial` — the world as it was loaded is that of the last board.
* `Game.loadTreeFiles_forgets` — a load of trees depends on the last board and on nothing else.
-/

namespace Ladybug

namespace Field

variable {f f' : Field}

/-- How many ladybugs there are depends on the world as it was loaded. -/
theorem ladybugs_congr (h : f.initial = f'.initial) : f.ladybugs = f'.ladybugs := by
  rw [ladybugs, ladybugs, h]

/-- What binding trees makes of a field depends on the world as it was loaded. -/
theorem bind_congr (h : f.initial = f'.initial) (trees : List Tree) :
    f.bind trees = f'.bind trees := by
  rw [bind, bind, ladybugs_congr h, h]

end Field

namespace Game

/-- Once a board was loaded, there is a field, and the world as it was loaded is that of the last
board. -/
theorem exists_initial {history : List Operation} {lines : List String}
    (h : lastBoard? history = some lines) :
    ∃ f, (played history).field = some f ∧
      ∃ board, Board.read lines = .ok board ∧ f.initial = .ofBoard board := by
  have hrel := rel_played
    (P := fun lines _ f => ∃ board, Board.read lines = .ok board ∧ f.initial = .ofBoard board)
    (fun hread _ => ⟨_, hread, rfl⟩) (fun h _ => h)
    (fun ⟨board, hread, hinitial⟩ hcontinues =>
      ⟨board, hread, hcontinues.initial.trans hinitial⟩) history
  rw [h] at hrel
  generalize (played history).field = field? at hrel ⊢
  cases hrel with
  | some hinitial => exact ⟨_, rfl, hinitial⟩

section SameBoard

variable {g g' : Game} {f f' : Field}

/-- In two games of the same board, a load of trees succeeds with the same number and leaves the
same game. -/
theorem loadTreeFiles_eq_ok_iff (hfield : g.field = some f) (hfield' : g'.field = some f')
    (h : f.initial = f'.initial) (files : List (List String)) (n : Nat) (next : Game) :
    loadTreeFiles files g = .ok n next ↔ loadTreeFiles files g' = .ok n next := by
  have hladybugs := Field.ladybugs_congr h
  cases hread : readTreeFiles files f.ladybugs with
  | ok trees =>
      rw [loadTreeFiles_of_read hfield hread, loadTreeFiles_of_read hfield' (hladybugs ▸ hread),
        Field.bind_congr h]
  | error error =>
      rw [loadTreeFiles_of_error hfield hread, loadTreeFiles_of_error hfield' (hladybugs ▸ hread)]
      exact ⟨nofun, nofun⟩

/-- In two games of the same board, a load of trees is refused for the same reason. -/
theorem loadTreeFiles_eq_error_iff (hfield : g.field = some f) (hfield' : g'.field = some f')
    (h : f.initial = f'.initial) (files : List (List String)) (error : GameError) :
    (∃ next, loadTreeFiles files g = .error error next) ↔
      ∃ next, loadTreeFiles files g' = .error error next := by
  have hladybugs := Field.ladybugs_congr h
  cases hread : readTreeFiles files f.ladybugs with
  | ok trees =>
      rw [loadTreeFiles_of_read hfield hread, loadTreeFiles_of_read hfield' (hladybugs ▸ hread)]
      exact ⟨nofun, nofun⟩
  | error error' =>
      rw [loadTreeFiles_of_error hfield hread, loadTreeFiles_of_error hfield' (hladybugs ▸ hread)]
      constructor
      · rintro ⟨_, hrefused⟩
        exact ⟨g', congrArg (EStateM.Result.error · g') (EStateM.Result.error.inj hrefused).1⟩
      · rintro ⟨_, hrefused⟩
        exact ⟨g, congrArg (EStateM.Result.error · g) (EStateM.Result.error.inj hrefused).1⟩

end SameBoard

/-- The game after a load of trees is the one that it leaves. -/
theorem after_loadTreeFiles {g next : Game} {files : List (List String)} {n : Nat}
    (h : loadTreeFiles files g = .ok n next) : g.after (.loadTreeFiles files) = next := by
  rw [after_eq_left]
  exact (left_map _).trans (left_of_ok h)

/-- What comes after two histories with the same game is the same. -/
theorem played_append_congr {history history' : List Operation}
    (h : played history = played history') (later : List Operation) :
    played (later ++ history) = played (later ++ history') := by
  induction later with
  | nil => exact h
  | cons op later ih => exact congrArg (·.after op) ih

/-- **A load of trees forgets everything but the last board.** It succeeds if and only if it does
so right after the board, with the same number and the same game, and it is refused for the same
reason. Once it has succeeded, all that is done later leaves the same games. -/
theorem loadTreeFiles_forgets {history : List Operation} {lines : List String}
    (h : lastBoard? history = some lines) (files : List (List String)) :
    (∀ n next, loadTreeFiles files (played history) = .ok n next ↔
      loadTreeFiles files (new.after (.loadBoard lines)) = .ok n next) ∧
    (∀ error, (∃ next, loadTreeFiles files (played history) = .error error next) ↔
      ∃ next, loadTreeFiles files (new.after (.loadBoard lines)) = .error error next) ∧
    ∀ n next, loadTreeFiles files (played history) = .ok n next → ∀ later,
      played (later ++ .loadTreeFiles files :: history) =
        played (later ++ [.loadTreeFiles files, .loadBoard lines]) := by
  obtain ⟨f, hfield, board, hread, hinitial⟩ := exists_initial h
  have hfield' : (new.after (.loadBoard lines)).field = some (.ofBoard board) := by
    rw [after_eq_left]
    exact congrArg field ((left_map _).trans (left_of_ok (loadBoard_of_read hread)))
  have hok := loadTreeFiles_eq_ok_iff hfield hfield' hinitial files
  refine ⟨hok, loadTreeFiles_eq_error_iff hfield hfield' hinitial files, ?_⟩
  intro n next hload later
  refine played_append_congr ?_ later
  calc (played history).after (.loadTreeFiles files)
      = next := after_loadTreeFiles hload
    _ = (new.after (.loadBoard lines)).after (.loadTreeFiles files) :=
        (after_loadTreeFiles ((hok n next).mp hload)).symm

/-- After a ladybug was turned and its tree has grown, its trees are loaded once more. -/
theorem loadTreeFiles_forgets_growth :
    let lines := [">."]
    let files := [["flowchart TD", "A[->] --> B[turnLeft]"]]
    let history : List Operation := [.addSibling .first "B" "C[move]", .tick .first,
      .loadTreeFiles files, .loadBoard lines]
    (∀ n next, loadTreeFiles files (played history) = .ok n next ↔
      loadTreeFiles files (new.after (.loadBoard lines)) = .ok n next) ∧
    (∀ error, (∃ next, loadTreeFiles files (played history) = .error error next) ↔
      ∃ next, loadTreeFiles files (new.after (.loadBoard lines)) = .error error next) ∧
    ∀ n next, loadTreeFiles files (played history) = .ok n next → ∀ later,
      played (later ++ .loadTreeFiles files :: history) =
        played (later ++ [.loadTreeFiles files, .loadBoard lines]) := by
  intro lines files history
  exact loadTreeFiles_forgets (by decide +kernel) files

end Game

end Ladybug
