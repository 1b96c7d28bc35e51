import Ladybug.Game

/-!
# Games in play

A game begins without anything, and from then on it is what its operations make of it. Each
of them may stop with an error, and the game that the error leaves counts as well. The games
that come about in this way are the *reachable* ones.

What is known of the field of a reachable game is shown on the field alone: an invariant
holds of every fresh field, and binding trees, turns and changed trees keep it. That it then
holds throughout a game, in the middle of a round of turns and after every error, is shown
here once for all invariants.

## Main definitions

* `Game.Ends` — what a program leaves if it succeeds, and if it stops with an error.
* `Game.Operation` and `Game.after` — what can be done to a game, and the game after it.
* `Game.Reachable` — the games that come about.
* `Field.Invariant` — a property that all steps of a field keep.

## Main results

* `Game.ends_turn`, `Game.ends_loadTreeFiles`, `Game.ends_editTree` — what the operations
  are made of.
* `Game.Reachable.holds` — an invariant holds of the field of every reachable game.
-/

namespace Ladybug

/-- A property of fields that every fresh field has and every step keeps. -/
structure Field.Invariant (P : Field → Prop) : Prop where
  ofBoard : ∀ {lines board}, Board.read lines = .ok board → P (.ofBoard board)
  bind : ∀ {f files trees}, P f → readTreeFiles files f.ladybugs = .ok trees → P (f.bind trees)
  turn : ∀ {f a trace f'}, P f → f.turn a = .ok (trace, f') → P f'
  setTree : ∀ {f a tree}, P f → f.tree a = .ok tree → ∀ edited, P (f.setTree a edited)

/-! ### Programs one after another -/

section Programs

variable {ε σ α β : Type} {program : EStateM ε σ β} {s t : σ}

/-- One program goes on where the other one has succeeded. -/
theorem bind_of_ok {value : β} (h : program s = .ok value t) (rest : β → EStateM ε σ α) :
    (program >>= rest) s = rest value t := by
  change EStateM.bind program rest s = _
  rw [EStateM.bind, h]

/-- If a program stops with an error, nothing comes after it. -/
theorem bind_of_error {error : ε} (h : program s = .error error t) (rest : β → EStateM ε σ α) :
    (program >>= rest) s = .error error t := by
  change EStateM.bind program rest s = _
  rw [EStateM.bind, h]

/-- What is made of the value of a program does not matter to the state. -/
theorem map_of_ok {value : β} (h : program s = .ok value t) (f : β → α) :
    (f <$> program) s = .ok (f value) t :=
  bind_of_ok h _

/-- What is made of the value of a program does not matter to its error. -/
theorem map_of_error {error : ε} (h : program s = .error error t) (f : β → α) :
    (f <$> program) s = .error error t :=
  bind_of_error h _

end Programs

namespace Game

/-! ### What a program leaves -/

/-- If the program succeeds, its value and the game after it are as the first condition says,
and if it stops with an error, the error and the game are as the second one says. -/
def Ends {α : Type} (program : GameM α) (g : Game) (Done : α → Game → Prop)
    (Failed : GameError → Game → Prop) : Prop :=
  match program g with
  | .ok value g' => Done value g'
  | .error error g' => Failed error g'

section Ends

variable {α β : Type} {g : Game} {Done : α → Game → Prop} {Failed : GameError → Game → Prop}

/-- More may follow from what a program leaves. -/
theorem Ends.imp {program : GameM α} (h : Ends program g Done Failed)
    {Done' : α → Game → Prop} {Failed' : GameError → Game → Prop}
    (hdone : ∀ value g', Done value g' → Done' value g')
    (hfailed : ∀ error g', Failed error g' → Failed' error g') :
    Ends program g Done' Failed' := by
  rw [Ends] at h ⊢
  cases hprogram : program g with
  | ok value g' =>
      rw [hprogram] at h
      exact hdone value g' h
  | error error g' =>
      rw [hprogram] at h
      exact hfailed error g' h

/-- A value is returned without any change. -/
theorem ends_pure {value : α} (h : Done value g) : Ends (pure value) g Done Failed := h

/-- One program goes on where the other one has ended. -/
theorem ends_bind {program : GameM β} {rest : β → GameM α}
    (h : Ends program g (fun value g' => Ends (rest value) g' Done Failed) Failed) :
    Ends (program >>= rest) g Done Failed := by
  change match EStateM.bind program rest g with | .ok value g' => _ | .error error g' => _
  rw [Ends] at h
  rw [EStateM.bind]
  cases hprogram : program g with
  | ok value g' =>
      rw [hprogram] at h
      exact h
  | error error g' =>
      rw [hprogram] at h
      exact h

/-- What is made of the value of a program does not matter to the game. -/
theorem ends_map {program : GameM β} {f : β → α}
    (h : Ends program g (fun value g' => Done (f value) g') Failed) :
    Ends (f <$> program) g Done Failed := by
  change match EStateM.map f program g with | .ok value g' => _ | .error error g' => _
  rw [Ends] at h
  rw [EStateM.map]
  cases hprogram : program g with
  | ok value g' =>
      rw [hprogram] at h
      exact h
  | error error g' =>
      rw [hprogram] at h
      exact h

/-- A question changes nothing. -/
theorem ends_ask {question : Game → Except GameError α}
    (hdone : ∀ answer, question g = .ok answer → Done answer g)
    (hfailed : ∀ error, question g = .error error → Failed error g) :
    Ends (ask question) g Done Failed := by
  rw [Ends, ask]
  cases h : question g with
  | ok answer => exact hdone answer h
  | error error => exact hfailed error h

/-- A step that is not about the game changes nothing. -/
theorem ends_orFail {ε : Type} {wrap : ε → GameError} {step : Except ε α}
    (hdone : ∀ value, step = .ok value → Done value g)
    (hfailed : ∀ error, step = .error error → Failed (wrap error) g) :
    Ends (orFail wrap step) g Done Failed := by
  rw [Ends, orFail.eq_def]
  cases step with
  | ok value => exact hdone value rfl
  | error error => exact hfailed error rfl

/-- The field is replaced without fail. -/
theorem ends_setField {f : Field} {Done : Unit → Game → Prop} (h : Done () ⟨some f⟩) :
    Ends (setField f) g Done Failed := h

end Ends

section Programs

variable {α : Type} {g : Game}

/-- A question with an answer leaves the game as it is. -/
theorem ask_of_ok {question : Game → Except GameError α} {answer : α}
    (h : question g = .ok answer) : ask question g = .ok answer g := by
  rw [ask, h]

/-- A question without an answer leaves the game as it is. -/
theorem ask_of_error {question : Game → Except GameError α} {error : GameError}
    (h : question g = .error error) : ask question g = .error error g := by
  rw [ask, h]

/-- A step that succeeds leaves the game as it is. -/
theorem orFail_of_ok {ε : Type} {wrap : ε → GameError} {step : Except ε α} {value : α}
    (h : step = .ok value) : orFail wrap step g = .ok value g := by
  rw [orFail.eq_def, h]

/-- A step that fails leaves the game as it is. -/
theorem orFail_of_error {ε : Type} {wrap : ε → GameError} {step : Except ε α} {error : ε}
    (h : step = .error error) : orFail wrap step g = .error (wrap error) g := by
  rw [orFail.eq_def, h]

end Programs

/-! ### What operations are made of -/

/-- A game with a board has a field. -/
theorem loaded_eq_ok_iff {g : Game} {f : Field} : g.loaded = .ok f ↔ g.field = some f := by
  rw [loaded]
  cases g.field <;> simp

/-- A game that is ready has a field with trees. -/
theorem ready_eq_ok_iff {g : Game} {f : Field} :
    g.ready = .ok f ↔ g.field = some f ∧ f.treesLoaded = true := by
  rw [ready, loaded]
  cases g.field with
  | none => exact ⟨nofun, nofun⟩
  | some f' =>
      change (if f'.treesLoaded then Except.ok f' else .error GameError.treesNotLoaded) = _ ↔ _
      cases htrees : f'.treesLoaded with
      | true =>
          constructor
          · intro h
            obtain rfl := Except.ok.inj h
            exact ⟨rfl, htrees⟩
          · rintro ⟨h, -⟩
            rw [Option.some.inj h]
            rfl
      | false =>
          refine ⟨nofun, ?_⟩
          rintro ⟨h, hloaded⟩
          rw [← Option.some.inj h, htrees] at hloaded
          cases hloaded

section Operations

variable {g : Game} {Failed : GameError → Game → Prop}

/-- Loading a board puts a fresh field in place, or it changes nothing. -/
theorem ends_loadBoard {lines : List String} {Done : Nat → Game → Prop}
    (hdone : ∀ board, Board.read lines = .ok board →
      Done board.spawns.length ⟨some (.ofBoard board)⟩)
    (hfailed : ∀ error, Failed error g) : Ends (loadBoard lines) g Done Failed := by
  refine ends_bind (ends_orFail (fun board hboard => ?_) fun error _ => hfailed _)
  exact ends_bind (ends_setField (ends_pure (hdone board hboard)))

/-- Loading trees binds them, or it changes nothing. -/
theorem ends_loadTreeFiles {files : List (List String)} {Done : Nat → Game → Prop}
    (hdone : ∀ f trees, g.field = some f → readTreeFiles files f.ladybugs = .ok trees →
      Done trees.length ⟨some (f.bind trees)⟩)
    (hfailed : ∀ error, Failed error g) : Ends (loadTreeFiles files) g Done Failed := by
  refine ends_bind (ends_ask (fun f hf => ?_) fun error _ => hfailed error)
  refine ends_bind (ends_orFail (fun trees htrees => ?_) fun error _ => hfailed _)
  exact ends_bind (ends_setField (ends_pure (hdone f trees (loaded_eq_ok_iff.mp hf) htrees)))

/-- A turn of a ladybug is one on the field, or it changes nothing. -/
theorem ends_turn {a : AgentId} {Done : Trace → Game → Prop}
    (hdone : ∀ f trace f', g.field = some f → f.turn a = .ok (trace, f') → Done trace ⟨some f'⟩)
    (hfailed : ∀ error, g.loaded = .error error → Failed error g)
    (hrefused : ∀ f error, g.field = some f → f.turn a = .error error → Failed error g) :
    Ends (turn a) g Done Failed := by
  refine ends_bind (ends_ask (fun f hf => ?_) hfailed)
  have hfield := loaded_eq_ok_iff.mp hf
  refine ends_bind (ends_orFail (fun result hturn => ?_) fun error herror =>
    hrefused f error hfield herror)
  exact ends_bind (ends_setField (ends_pure (hdone f result.1 result.2 hfield hturn)))

/-- Changing a tree replaces it, or it changes nothing. -/
theorem ends_editTree {a : AgentId} {edit : Tree → Except TreeError Tree}
    {Done : Unit → Game → Prop}
    (hdone : ∀ f tree edited, g.field = some f → f.tree a = .ok tree → edit tree = .ok edited →
      Done () ⟨some (f.setTree a edited)⟩)
    (hfailed : ∀ error, Failed error g) : Ends (editTree a edit) g Done Failed := by
  refine ends_bind (ends_ask (fun f hf => ?_) fun error _ => hfailed error)
  refine ends_bind (ends_orFail (fun tree htree => ?_) fun error _ => hfailed _)
  refine ends_bind (ends_orFail (fun edited hedited => ?_) fun error _ => hfailed _)
  exact ends_setField (hdone f tree edited (ready_eq_ok_iff.mp hf).1 htree hedited)

end Operations

/-! ### Reachable games -/

/-- What can be done to a game. -/
inductive Operation where
  | loadBoard (lines : List String)
  | loadTrees (lines : List String)
  | loadTreeFiles (files : List (List String))
  | tick (a : AgentId)
  | nextAction {σ : Type} (observer : TurnObserver σ) (memory : σ)
  | resetTree (a : AgentId)
  | jumpTo (a : AgentId) (node : String)
  | addSibling (a : AgentId) (existing node : String)

/-- The program of an operation, without its answer. -/
def Operation.run : Operation → GameM Unit
  | loadBoard lines => (fun _ => ()) <$> Game.loadBoard lines
  | loadTrees lines => (fun _ => ()) <$> Game.loadTrees lines
  | loadTreeFiles files => (fun _ => ()) <$> Game.loadTreeFiles files
  | tick a => (fun _ => ()) <$> Game.tick a
  | nextAction observer memory => (fun _ => ()) <$> Game.nextAction observer memory
  | resetTree a => Game.resetTree a
  | jumpTo a node => Game.jumpTo a node
  | addSibling a existing node => Game.addSibling a existing node

/-- The game after an operation, whether or not it stops with an error. -/
def after (g : Game) (op : Operation) : Game :=
  match op.run g with
  | .ok _ g' => g'
  | .error _ g' => g'

/-- The games that operations make, beginning without anything. -/
inductive Reachable : Game → Prop
  | new : Reachable Game.new
  | after {g : Game} (op : Operation) : Reachable g → Reachable (g.after op)

/-! ### Invariants -/

/-- The field has the property, if there is one. -/
def Holds (P : Field → Prop) (g : Game) : Prop := ∀ f, g.field = some f → P f

section Invariant

variable {P : Field → Prop} {g : Game}

theorem holds_some {f : Field} (h : P f) : Holds P ⟨some f⟩ := by
  rintro f' hf'
  exact Option.some.inj hf' ▸ h

/-- A turn of a ladybug keeps an invariant. -/
theorem Holds.turn (h : Holds P g) (hP : Field.Invariant P) (a : AgentId) :
    Ends (turn a) g (fun _ => Holds P) fun _ => Holds P :=
  ends_turn (fun f _ _ hf hturn => holds_some (hP.turn (h f hf) hturn)) (fun _ _ => h)
    fun _ _ _ _ => h

/-- Turns of several ladybugs keep an invariant, even if one of them stops with an error. -/
theorem Holds.turns (h : Holds P g) (hP : Field.Invariant P) {σ : Type}
    (observer : TurnObserver σ) (ids : List AgentId) (memory : σ) :
    Ends (turns observer ids memory) g (fun _ => Holds P) fun _ => Holds P := by
  induction ids generalizing g memory with
  | nil => exact ends_pure h
  | cons a rest ih =>
      refine ends_bind ((h.turn hP a).imp (fun trace g' h' => ?_) fun _ _ h' => h')
      refine ends_bind (ends_ask (fun f _ => ?_) fun _ _ => h')
      exact ends_bind ((ih h' _).imp (fun _ _ h'' => ends_pure h'') fun _ _ h'' => h'')

/-- Every operation keeps an invariant, whether or not it stops with an error. -/
theorem Holds.run (h : Holds P g) (hP : Field.Invariant P) (op : Operation) :
    Ends (op.run) g (fun _ => Holds P) fun _ => Holds P := by
  have hload (files : List (List String)) :
      Ends (loadTreeFiles files) g (fun _ => Holds P) fun _ => Holds P :=
    ends_loadTreeFiles (fun f _ hf htrees => holds_some (hP.bind (h f hf) htrees)) fun _ => h
  have hedit (a : AgentId) (edit : Tree → Except TreeError Tree) :
      Ends (editTree a edit) g (fun _ => Holds P) fun _ => Holds P :=
    ends_editTree (fun f _ edited hf htree _ => holds_some (hP.setTree (h f hf) htree edited))
      fun _ => h
  cases op with
  | loadBoard lines =>
      exact ends_map (ends_loadBoard (fun _ hboard => holds_some (hP.ofBoard hboard)) fun _ => h)
  | loadTrees lines => exact ends_map (hload [lines])
  | loadTreeFiles files => exact ends_map (hload files)
  | tick a => exact ends_map (ends_bind (ends_ask (fun _ _ => h.turn hP a) fun _ _ => h))
  | nextAction observer memory =>
      exact ends_map (ends_bind (ends_ask (fun f _ => h.turns hP observer _ memory) fun _ _ => h))
  | resetTree a => exact hedit a _
  | jumpTo a node => exact hedit a _
  | addSibling a existing node =>
      exact ends_bind (ends_orFail (fun spec _ => hedit a _) fun _ _ => h)

/-- **An invariant holds of the field of every reachable game.** -/
theorem Reachable.holds (h : Reachable g) (hP : Field.Invariant P) : Holds P g := by
  induction h with
  | new => nofun
  | @after g op _ ih =>
      have hrun := ih.run hP op
      rw [Ends] at hrun
      rw [Game.after]
      split
      · next hop => rwa [hop] at hrun
      · next hop => rwa [hop] at hrun

end Invariant

end Game

end Ladybug
