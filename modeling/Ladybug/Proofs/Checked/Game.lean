import Ladybug.Proofs.Checked.Field

/-!
# Valid accesses throughout a game

Whoever plays a game hands it lines, texts, names and numbers, and none of them need be good for
anything: a number may be `0` or belong to nobody, and a text may be no flowchart. An access is
invalid only if the game itself is at fault. So everything that can be done to a game and asked of
it is written once more with checked accesses, and so is what is shown of a game. In a game that is
*faultless*, all of that returns what it returns without checks.

A game is faultless if its field is secure, and a field is secure from the load of its board on, as
long as boards are small. Nothing else is asked of what a game is given.

## Main definitions

* `Checked.Program` and `Checked.Runs` — programs with checked accesses, and that one of them does
  what an unchecked one does.
* `Checked.played` — the game after a history, with checked accesses.
* `Game.SmallBoards` — the boards that a history loads are small.
* `Game.Faultless` — whatever is done to the game next, asked of it or shown of it, all accesses
  are valid.

## Main results

* `Game.secure_played` — a game of small boards has a secure field.
* `Checked.run_runs` — an operation on a secure field makes valid accesses only.
* `Game.faultless_played` — so does every history of small boards, and what comes next.
-/

namespace Ladybug

namespace Checked

/-! ### Programs -/

/-- Programs over the state of a game, all of whose accesses are checked. The state survives an
error, but not a fault. -/
abbrev Program (α : Type) := ExceptT GameError (StateT Game Checked) α

section Programs

open Game (ask_of_ok ask_of_error)

variable {α β ε : Type}

/-- Answers a question about the game as it is. -/
def ask (question : Game → ExceptT GameError Checked α) : Program α :=
  ExceptT.mk fun g => do return (← (question g).run, g)

/-- Stops with the error of a failed step. -/
def orFail (wrap : ε → GameError) (step : ExceptT ε Checked α) : Program α :=
  ask fun _ => ExceptT.adapt wrap step

/-- Replaces the field. -/
def setField (f : Field) : Program Unit := ExceptT.mk fun _ => .ok (.ok (), ⟨some f⟩)

/-- What a program has ended with, and the game it leaves. -/
def ended : EStateM.Result GameError Game α → Except GameError α × Game
  | .ok value g => (.ok value, g)
  | .error error g => (.error error, g)

/-- The checked program does not fault, and it ends as the unchecked one. -/
def Runs (checked : Program α) (plain : GameM α) (g : Game) : Prop :=
  checked.run.run g = .ok (ended (plain g))

variable {g : Game} {checked : Program β} {plain : GameM β}

theorem runs_pure (value : α) (g : Game) : Runs (pure value) (pure value) g := rfl

/-- What follows needs to run only on the game that is left. -/
theorem Runs.bind {rest : β → Program α} {rest' : β → GameM α} (h : Runs checked plain g)
    (hrest : ∀ value g', plain g = .ok value g' → Runs (rest value) (rest' value) g') :
    Runs (checked >>= rest) (plain >>= rest') g := by
  rw [Runs] at h ⊢
  rw [ExceptT.run_bind, StateT.run_bind, h, ok_bind]
  cases hplain : plain g with
  | ok value g' =>
      rw [bind_of_ok hplain]
      exact hrest value g' hplain
  | error error g' =>
      rw [bind_of_error hplain]
      rfl

/-- A value may be made into another one. -/
theorem Runs.map (h : Runs checked plain g) (f : β → α) : Runs (f <$> checked) (f <$> plain) g := by
  rw [map_eq_pure_bind, map_eq_pure_bind]
  exact h.bind fun _ _ _ => rfl

/-- An access that is valid is passed. -/
theorem Runs.access {access : Checked β} {value : β} {rest : β → Program α} {whole : GameM α}
    (h : access = .ok value) (hrest : Runs (rest value) whole g) :
    Runs ((liftM access : Program β) >>= rest) whole g := by
  subst h
  exact hrest

/-- A question leaves the game as it is for what follows. -/
theorem Runs.ask {question : Game → ExceptT GameError Checked β}
    {question' : Game → Except GameError β} {rest : β → Program α} {rest' : β → GameM α}
    (h : Agrees (question g) (question' g))
    (hrest : ∀ answer, question' g = .ok answer → Runs (rest answer) (rest' answer) g) :
    Runs (Checked.ask question >>= rest) (Game.ask question' >>= rest') g := by
  have hask : Runs (Checked.ask question) (Game.ask question') g := by
    change (do return (← (question g).run, g) : Checked _) = _
    rw [show (question g).run = _ from h, ok_bind, Game.ask]
    cases question' g <;> rfl
  refine hask.bind fun answer g' hanswer => ?_
  cases hquestion : question' g with
  | ok answer' =>
      rw [ask_of_ok hquestion] at hanswer
      obtain ⟨rfl, rfl⟩ := EStateM.Result.ok.inj hanswer
      exact hrest _ hquestion
  | error error =>
      rw [ask_of_error hquestion] at hanswer
      cases hanswer

/-- A step that is not about the game leaves it as it is. -/
theorem Runs.orFail {wrap : ε → GameError} {step : ExceptT ε Checked β} {step' : Except ε β}
    {rest : β → Program α} {rest' : β → GameM α} (h : Agrees step step')
    (hrest : ∀ value, step' = .ok value → Runs (rest value) (rest' value) g) :
    Runs (Checked.orFail wrap step >>= rest) (Game.orFail wrap step' >>= rest') g := by
  have hask : Game.orFail wrap step' = Game.ask fun _ => step'.mapError wrap := by
    funext g
    cases step' <;> rfl
  rw [hask]
  refine Runs.ask h.mapError fun value hvalue => hrest value ?_
  cases step' with
  | ok value' => exact congrArg Except.ok (Except.ok.inj hvalue)
  | error error => cases hvalue

/-- What follows needs to run only on the new field. -/
theorem Runs.setField {f : Field} {rest : Unit → Program α} {rest' : Unit → GameM α}
    (hrest : Runs (rest ()) (rest' ()) ⟨some f⟩) :
    Runs (Checked.setField f >>= rest) (Game.setField f >>= rest') g :=
  hrest

end Programs

/-! ### Operations -/

namespace Program

/-- Reads a board, which takes no access. -/
def loadBoard (lines : List String) : Program Nat := do
  let board ← orFail .board (outcome (Board.read lines))
  setField (.ofBoard board)
  return board.spawns.length

/-- Reads trees from several texts and binds them. -/
def loadTreeFiles (files : List (List String)) : Program Nat := do
  let f ← ask fun g => outcome g.loaded
  let trees ← orFail .trees (readTreeFiles files f.ladybugs)
  let f ← liftM (Checked.bind f trees)
  setField f
  return trees.length

/-- One turn of a ladybug on the field in play. -/
def turn (a : AgentId) : Program Trace := do
  let f ← ask fun g => outcome g.loaded
  let (trace, f) ← orFail id (fieldTurn f a)
  setField f
  return trace

/-- One turn of a single ladybug. -/
def tick (a : AgentId) : Program Trace := do
  let _ ← ask fun g => outcome g.ready
  turn a

/-- One turn of each of the given ladybugs, before the eyes of an observer. -/
def turns {σ : Type} (observer : TurnObserver σ) : List AgentId → σ → Program (Trace × σ)
  | [], memory => return ([], memory)
  | a :: rest, memory => do
    let trace ← turn a
    let f ← ask fun g => outcome g.loaded
    let memory := observer.onTurnDone a f.world (observer.onTrace trace memory)
    let (later, memory) ← turns observer rest memory
    return (trace ++ later, memory)

/-- One turn of every ladybug that is active now. -/
def nextAction {σ : Type} (observer : TurnObserver σ) (memory : σ) : Program (Trace × σ) := do
  let f ← ask fun g => outcome g.ready
  let ids ← liftM (activeIds f.world.colony)
  turns observer ids memory

/-- Changes the tree of a ladybug. -/
def editTree (a : AgentId) (edit : Tree → ExceptT TreeError Checked Tree) : Program Unit := do
  let f ← ask fun g => outcome g.ready
  let tree ← orFail id (Checked.tree f a)
  let tree ← orFail .edit (edit tree)
  let f ← liftM (setTree f a tree)
  setField f

/-- Reads a node and adds it to a ladybug's tree, directly after the named one. -/
def addSibling (a : AgentId) (existing node : String) : Program Unit := do
  let spec ← orFail .trees (readNode node)
  editTree a fun tree => do return (← Checked.addSibling tree existing spec).1

/-- The program of an operation, without its answer. -/
def ofOperation : Game.Operation → Program Unit
  | .loadBoard lines => (fun _ => ()) <$> loadBoard lines
  | .loadTrees lines => (fun _ => ()) <$> loadTreeFiles [lines]
  | .loadTreeFiles files => (fun _ => ()) <$> loadTreeFiles files
  | .tick a => (fun _ => ()) <$> tick a
  | .nextAction observer memory => (fun _ => ()) <$> nextAction observer memory
  | .resetTree a => editTree a fun tree => liftM (reset tree)
  | .jumpTo a node => editTree a fun tree => Checked.jumpTo tree node
  | .addSibling a existing node => addSibling a existing node

end Program

/-- The game after an operation, whether or not it stops with an error. -/
def after (g : Game) (op : Game.Operation) : Checked Game := do
  let (_, g) ← (Program.ofOperation op).run.run g
  return g

/-- The game after a history. -/
def played : List Game.Operation → Checked Game
  | [] => .ok .new
  | op :: earlier => do
    let g ← played earlier
    after g op

/-! ### Questions -/

namespace Question

/-- The tree of a ladybug. -/
def tree (g : Game) (a : AgentId) : ExceptT GameError Checked Tree := do
  let f ← outcome g.ready
  Checked.tree f a

/-- The name of the node announced for a ladybug's next turn. -/
def head (g : Game) (a : AgentId) : ExceptT GameError Checked String := do
  let tree ← tree g a
  liftM (Checked.head tree)

/-- The tree of a ladybug has a node with the name. -/
def hasNode (g : Game) (a : AgentId) (node : String) : ExceptT GameError Checked Bool := do
  let tree ← tree g a
  return tree.arena.hasNode node

/-- Where an active ladybug stands and which way it faces. -/
def position (g : Game) (a : AgentId) : ExceptT GameError Checked (Position × Direction) := do
  let f ← outcome g.ready
  checkActive f a
  let p ← liftM (Checked.position f.world.colony a)
  let d ← liftM (direction f.world.colony a)
  return (p, d)

/-- The numbers of the ladybugs that have a tree, ascending. -/
def activeLadybugs (g : Game) : ExceptT GameError Checked (List AgentId) := do
  let f ← outcome g.ready
  liftM (activeIds f.world.colony)

/-- The ladybug exists and has a tree. -/
def isActive (g : Game) (a : AgentId) : Checked Bool :=
  match g.field with
  | none => .ok false
  | some f => do
    let known ← contains f.world.colony a
    if known then Checked.isActive f.world.colony a else return false

end Question

end Checked

/-! ### Secure games -/

namespace Game

open Checked

variable {g g' : Game} {a : AgentId} {history : List Operation}

/-- The boards that the history loads are small. -/
def SmallBoards (history : List Operation) : Prop :=
  ∀ lines board, Operation.loadBoard lines ∈ history → Board.read lines = .ok board → board.Small

/-- What is recorded on a secure field may be shown. -/
theorem Plays.writable {trace : Trace} (hplays : Plays g trace g') (h : Holds Field.Secure g) :
    ∀ e ∈ trace, e.kind.Writable := by
  induction hplays with
  | nil => exact nofun
  | step hbefore hstep ih =>
      intro e he
      rcases List.mem_append.mp he with hold | hnew
      · exact ih e hold
      · exact (hbefore.holds h Field.Secure.step _ rfl).writable hstep e hnew

/-- A turn leaves a secure field secure. -/
theorem ends_turn_secure (h : Holds Field.Secure g) (a : AgentId) :
    Ends (turn a) g (fun _ => Holds Field.Secure) fun _ => Holds Field.Secure :=
  (ends_turn_plays g a).imp (fun _ _ hplays => hplays.holds h Field.Secure.step)
    fun _ _ hplays => hplays.holds h Field.Secure.step

/-- **A game of small boards has a secure field.** -/
theorem secure_played (hsmall : SmallBoards history) : Holds Field.Secure (played history) := by
  induction history with
  | nil => exact nofun
  | cons op earlier ih =>
      have hearlier := ih fun lines board hmem => hsmall lines board (List.mem_cons_of_mem _ hmem)
      have hreach : (played earlier).Reachable := reachable_iff.mpr ⟨earlier, rfl⟩
      refine hreach.after_holds op hearlier (fun lines board hop hread => ?_)
        (fun hsecure hread => hsecure.bind hread) Field.Secure.step
      exact Field.secure_ofBoard hread (hsmall lines board (hop ▸ List.mem_cons_self) hread)

end Game

namespace Checked

open Game

variable {g : Game}

theorem loadBoard_runs (lines : List String) (g : Game) :
    Runs (Program.loadBoard lines) (Game.loadBoard lines) g :=
  .orFail (.outcome _) fun board _ => .setField (runs_pure board.spawns.length _)

theorem loadTreeFiles_runs (h : Holds Field.Secure g) (files : List (List String)) :
    Runs (Program.loadTreeFiles files) (Game.loadTreeFiles files) g := by
  refine .ask (.outcome _) fun f hf => ?_
  refine .orFail (readTreeFiles_agrees files f.ladybugs) fun trees hread => ?_
  have hsecure := h f (loaded_eq_ok_iff.mp hf)
  have hlength := length_of_readTreeFiles hread
  exact .access (bind_eq hsecure hlength.2) (.setField (runs_pure trees.length _))

theorem turn_runs (h : Holds Field.Secure g) (a : AgentId) :
    Runs (Program.turn a) (Game.turn a) g := by
  refine .ask (.outcome _) fun f hf => ?_
  refine .orFail (fieldTurn_agrees (h f (loaded_eq_ok_iff.mp hf)) a) fun (trace, f') _ => ?_
  exact .setField (runs_pure trace _)

theorem tick_runs (h : Holds Field.Secure g) (a : AgentId) :
    Runs (Program.tick a) (Game.tick a) g :=
  .ask (.outcome _) fun _ _ => turn_runs h a

/-- Each turn leaves a secure field to the next one. -/
theorem turns_runs {σ : Type} (observer : TurnObserver σ) {ids : List AgentId} {memory : σ}
    (h : Holds Field.Secure g) :
    Runs (Program.turns observer ids memory) (Game.turns observer ids memory) g := by
  induction ids generalizing g memory with
  | nil => exact runs_pure _ g
  | cons a rest ih =>
      refine (turn_runs h a).bind fun trace g' hturn => ?_
      have hsecure := ends_turn_secure h a
      rw [Ends, hturn] at hsecure
      refine .ask (.outcome _) fun f _ => ?_
      exact (ih hsecure).bind fun later g'' _ => runs_pure (trace ++ later.1, later.2) g''

theorem nextAction_runs (h : Holds Field.Secure g) {σ : Type} (observer : TurnObserver σ)
    (memory : σ) : Runs (Program.nextAction observer memory) (Game.nextAction observer memory) g := by
  refine .ask (.outcome _) fun f hf => ?_
  have hsecure := h f (ready_eq_ok_iff.mp hf).1
  exact .access hsecure.activeIds (turns_runs observer h)

/-- Trees on a secure field are sound, so it is enough that the change is checked for sound
trees. -/
theorem editTree_runs (h : Holds Field.Secure g) (a : AgentId)
    {edit : Tree → ExceptT TreeError Checked Tree} {edit' : Tree → Except TreeError Tree}
    (hedit : ∀ t : Tree, t.Sound → Agrees (edit t) (edit' t)) :
    Runs (Program.editTree a edit) (Game.editTree a edit') g := by
  refine .ask (.outcome _) fun f hf => ?_
  have hsecure := h f (ready_eq_ok_iff.mp hf).1
  refine .orFail (tree_agrees hsecure a) fun t htree => ?_
  obtain ⟨hreach, hcontains⟩ := hsecure.tree htree
  refine .orFail (hedit t hreach.sound) fun edited _ => ?_
  exact .access (setTree_eq hsecure hcontains edited) rfl

/-- **An operation on a secure field makes valid accesses only**, whatever it is given. -/
theorem run_runs (h : Holds Field.Secure g) (op : Operation) :
    Runs (Program.ofOperation op) op.run g := by
  cases op with
  | loadBoard lines => exact (loadBoard_runs lines g).map _
  | loadTrees lines => exact (loadTreeFiles_runs h [lines]).map _
  | loadTreeFiles files => exact (loadTreeFiles_runs h files).map _
  | tick a => exact (tick_runs h a).map _
  | nextAction observer memory => exact (nextAction_runs h observer memory).map _
  | resetTree a => exact editTree_runs h a fun t ht => .lift (reset_eq ht)
  | jumpTo a node => exact editTree_runs h a fun t ht => jumpTo_agrees ht node
  | addSibling a existing node =>
      refine .orFail (readNode_agrees node) fun spec _ => ?_
      exact editTree_runs h a fun t ht => (addSibling_agrees ht existing spec).map

/-- The game after an operation is the same with and without checks. -/
theorem after_eq (h : Holds Field.Secure g) (op : Operation) : after g op = .ok (g.after op) := by
  rw [after, show (Program.ofOperation op).run.run g = _ from run_runs h op, ok_bind, Game.after]
  cases op.run g <;> rfl

/-! ### Questions about a secure field -/

section Questions

variable {a : AgentId}

theorem Question.tree_agrees (h : Holds Field.Secure g) (a : AgentId) :
    Agrees (Question.tree g a) (g.tree a) :=
  .bind (.outcome _) fun f hf => Checked.tree_agrees (h f (ready_eq_ok_iff.mp hf).1) a

/-- A tree that a game gives away is sound, and its nodes may be shown. -/
theorem sound_of_tree (h : Holds Field.Secure g) {t : Tree} (htree : g.tree a = .ok t) :
    t.Sound ∧ t.Legible := by
  obtain ⟨f, hf, htree⟩ := exists_ok_of_bind htree
  have hreach := ((h f (ready_eq_ok_iff.mp hf).1).tree htree).1
  exact ⟨hreach.sound, hreach.legible fun spec ⟨_, hread⟩ => Flowchart.legible_of_readNode hread⟩

theorem Question.head_agrees (h : Holds Field.Secure g) (a : AgentId) :
    Agrees (Question.head g a) (g.head a) :=
  .bind (Question.tree_agrees h a) fun _ htree => .lift (head_eq (sound_of_tree h htree).1)

theorem Question.hasNode_agrees (h : Holds Field.Secure g) (a : AgentId) (node : String) :
    Agrees (Question.hasNode g a node) (g.hasNode a node) :=
  .bind (Question.tree_agrees h a) fun _ _ => .pure _

theorem Question.position_agrees (h : Holds Field.Secure g) (a : AgentId) :
    Agrees (Question.position g a) (g.position a) := by
  refine .bind (.outcome _) fun f hf => ?_
  have hsecure := h f (ready_eq_ok_iff.mp hf).1
  refine .bind (checkActive_agrees hsecure a) fun _ hactive => ?_
  have hcontains := contains_of_checkActive hactive
  exact .access (position_eq hsecure.settled.world hcontains)
    (.access (direction_eq hsecure.settled.world hcontains) (.pure _))

theorem Question.activeLadybugs_agrees (h : Holds Field.Secure g) :
    Agrees (Question.activeLadybugs g) g.activeLadybugs :=
  .bind (.outcome _) fun f hf => .lift (h f (ready_eq_ok_iff.mp hf).1).activeIds

theorem Question.isActive_eq (h : Holds Field.Secure g) (a : AgentId) :
    Question.isActive g a = .ok (g.isActive a) := by
  rw [Question.isActive, Game.isActive]
  cases hfield : g.field with
  | none => rfl
  | some f =>
      dsimp only
      rw [contains_eq, ok_bind, Option.any_some]
      cases hcontains : f.world.colony.contains a with
      | false => rfl
      | true => exact Checked.isActive_eq (h f hfield).settled.world.active hcontains

/-- Where a ladybug stands may be shown. -/
theorem shownPosition_of_position (h : Holds Field.Secure g) {p : Position} {d : Direction}
    (hposition : g.position a = .ok (p, d)) : shownPosition p = .ok (Render.position p) := by
  obtain ⟨f, hf, hanswer⟩ := exists_ok_of_bind hposition
  obtain ⟨_, hactive, hanswer⟩ := exists_ok_of_bind hanswer
  obtain ⟨rfl, rfl⟩ := Prod.mk.inj (Except.ok.inj hanswer)
  have hsecure := h f (ready_eq_ok_iff.mp hf).1
  have hbounds := hsecure.settled.world.inBounds a (contains_of_checkActive hactive)
  exact shownPosition_eq (toDisplay_of_inBounds hsecure.world_small hbounds)

/-- The world may be shown. -/
theorem shownBoard_of_world (h : Holds Field.Secure g) {w : World} (hw : g.world = .ok w)
    {visible : List AgentId} (hvisible : ∀ a ∈ visible, w.colony.contains a) :
    board w visible = .ok (Render.board w visible) := by
  obtain ⟨f, hf, hworld⟩ := exists_ok_of_bind hw
  obtain rfl := Except.ok.inj hworld
  have hsecure := h f (loaded_eq_ok_iff.mp hf)
  exact board_eq hsecure.settled.world hsecure.world_small.countable hvisible

end Questions

/-! ### What is read may be written -/

/-- A node that has been read may be written. -/
theorem representation_of_readNode {text : String} {spec : NodeSpec}
    (h : Flowchart.readNode text = .ok spec) :
    representation spec.kind = .ok spec.kind.representation :=
  representation_eq (Flowchart.legible_of_readNode h).writable

/-- The nodes of a legible tree may be written. -/
theorem representation_of_legible {t : Tree} (h : t.Legible) {i : NodeIdx} (hi : i < t.arena.size) :
    representation (t.arena.kind i) = .ok (t.arena.kind i).representation :=
  representation_eq (h.arena i hi).writable

end Checked

/-! ### Faultless games -/

namespace Game

open Checked

/-- Whatever is done to the game next, and whatever is asked of it or shown of it, all accesses are
valid. -/
structure Faultless (g : Game) : Prop where
  runs : ∀ op, Runs (Program.ofOperation op) op.run g
  tree : ∀ a, Agrees (Question.tree g a) (g.tree a)
  head : ∀ a, Agrees (Question.head g a) (g.head a)
  hasNode : ∀ a node, Agrees (Question.hasNode g a node) (g.hasNode a node)
  position : ∀ a, Agrees (Question.position g a) (g.position a)
  activeLadybugs : Agrees (Question.activeLadybugs g) g.activeLadybugs
  isActive : ∀ a, Question.isActive g a = .ok (g.isActive a)
  /-- Where a ladybug stands may be shown. -/
  shown : ∀ a p d, g.position a = .ok (p, d) → shownPosition p = .ok (Render.position p)
  /-- So may the board, with any ladybugs visible. -/
  board : ∀ w visible, g.world = .ok w → (∀ a ∈ visible, w.colony.contains a) →
    Checked.board w visible = .ok (Render.board w visible)
  /-- What an operation records may be shown. -/
  traceLine : ∀ op, ∀ e ∈ Operation.recorded g op, Checked.traceLine e = .ok (Render.traceLine e)
  /-- The nodes of a tree in the game may be written. -/
  nodes : ∀ a t, g.tree a = .ok t → ∀ i < t.arena.size,
    representation (t.arena.kind i) = .ok (t.arena.kind i).representation

section Faultless

variable {g : Game} {history : List Operation}

/-- What an operation on a secure field records may be shown. -/
theorem recorded_writable (hreach : g.Reachable) (h : Holds Field.Secure g) (op : Operation) :
    ∀ e ∈ op.recorded g, e.kind.Writable := by
  cases op with
  | tick a => exact (hreach.after_plays (.tick a) rfl rfl).writable h
  | nextAction observer memory =>
      exact (hreach.after_plays (.nextAction observer memory) rfl rfl).writable h
  | _ => exact nofun

/-- A reachable game with a secure field is faultless. -/
theorem Reachable.faultless (hreach : g.Reachable) (h : Holds Field.Secure g) : g.Faultless where
  runs := run_runs h
  tree := Question.tree_agrees h
  head := Question.head_agrees h
  hasNode := Question.hasNode_agrees h
  position := Question.position_agrees h
  activeLadybugs := Question.activeLadybugs_agrees h
  isActive := Question.isActive_eq h
  shown _ _ _ := shownPosition_of_position h
  board _ _ hw := shownBoard_of_world h hw
  traceLine op e he := traceLine_eq (recorded_writable hreach h op e he)
  nodes _ _ htree _ := representation_of_legible (sound_of_tree h htree).2

/-- A history may be played with checks. -/
theorem played_eq (hsmall : SmallBoards history) : Checked.played history = .ok (played history) := by
  induction history with
  | nil => rfl
  | cons op earlier ih =>
      have hearlier : SmallBoards earlier := fun lines board hmem =>
        hsmall lines board (List.mem_cons_of_mem _ hmem)
      rw [Checked.played, ih hearlier, ok_bind]
      exact after_eq (secure_played hearlier) op

/-- **A game never makes an invalid access**, whatever texts, names and numbers it is given, as long
as its boards are small. The game after a history is the same with and without checks. All that is
done to it then returns what it returns without checks, and so does all that is asked of it or
shown of it. Whatever node is read from a text, in a game or not, may be written. -/
theorem faultless_played (history : List Operation) (hsmall : SmallBoards history) :
    (Checked.played history = .ok (played history) ∧ (played history).Faultless) ∧
      (∀ text spec, Flowchart.readNode text = .ok spec →
        representation spec.kind = .ok spec.kind.representation) ∧
      ∀ lines ladybugs trees, Flowchart.readTrees lines ladybugs = .ok trees → ∀ t ∈ trees,
        ∀ i < t.arena.size,
          representation (t.arena.kind i) = .ok (t.arena.kind i).representation := by
  have hreach : (played history).Reachable := reachable_iff.mpr ⟨history, rfl⟩
  refine ⟨⟨played_eq hsmall, hreach.faultless (secure_played hsmall)⟩,
    fun text spec => representation_of_readNode, fun lines ladybugs trees hread t ht i hi => ?_⟩
  exact representation_of_legible (Flowchart.legible_of_readTrees hread ht) hi

/-- Two ladybugs on a small board play a round after a tick that nobody can take. -/
theorem faultless_played_duel :
    let history : List Operation := [.nextAction .silent (), .tick ⟨0⟩,
      .loadTrees ["flowchart TD", "A[->] --> B[fly 2147483647,-2147483647]"], .loadBoard [">.<"]]
    SmallBoards history ∧
      (Checked.played history = .ok (played history) ∧ (played history).Faultless) ∧
      (∀ text spec, Flowchart.readNode text = .ok spec →
        representation spec.kind = .ok spec.kind.representation) ∧
      ∀ lines ladybugs trees, Flowchart.readTrees lines ladybugs = .ok trees → ∀ t ∈ trees,
        ∀ i < t.arena.size,
          representation (t.arena.kind i) = .ok (t.arena.kind i).representation := by
  intro history
  have hsmall : SmallBoards history := by
    intro lines board hmem hread
    obtain rfl : lines = [">.<"] := by simpa [history] using hmem
    have hboard : Board.read [">.<"] = .ok ⟨⟨3, 1, #[.empty, .empty, .empty], rfl⟩,
        [⟨⟨0, 0⟩, .right⟩, ⟨⟨2, 0⟩, .left⟩]⟩ := by decide +kernel
    obtain rfl := Except.ok.inj (hboard.symm.trans hread)
    exact ⟨by decide, by decide, by decide⟩
  exact ⟨hsmall, faultless_played history hsmall⟩

end Faultless

end Game

end Ladybug
