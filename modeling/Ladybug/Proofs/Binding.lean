import Ladybug.Proofs.Accepting
import Ladybug.Proofs.Histories
import Ladybug.Proofs.Rounds

/-!
# Trees are bound to the first ladybugs

Which ladybugs have a tree is decided by the last load of trees alone. The number it returned
says how many there are, from one to as many as there are ladybugs, and they are the first ones
in the order of their numbers. Until there was such a load, nobody has a tree.

Whether an operation about one ladybug is refused depends on nothing else. A number beyond the
ladybugs of the board names nobody, a number beyond those with a tree names a ladybug that
cannot act, and for all others the operation goes ahead. In a round of turns, none of the
ladybugs that take part is refused, so that only a missing load can stop it, before anybody has
acted.

## Main definitions

* `Field.BoundTo` — the trees of a field are bound as the last load of trees says.
* `Game.Request` — an operation about one ladybug, and `Game.Guarded` — when it is refused.

## Main results

* `Flowchart.length_of_readTreeFiles` — how many trees there are in several texts.
* `Game.boundTo_played` — the trees of a game are bound as the last load of trees says.
* `Game.Request.guarded` — which operations about one ladybug are refused.
* `Game.binding_played` — both of them, and what becomes of a round, after every history.
-/

namespace Ladybug

/-! ### The number of trees -/

namespace Flowchart

/-- Each block is closed as one tree. -/
theorem Made.length_eq {number : Nat} {blocks : List (List (List Char))} {trees : List Tree}
    (h : Made number blocks trees) : trees.length = blocks.length := by
  induction h with
  | nil => rfl
  | cons _ _ ih => exact congrArg (· + 1) ih

/-- A text has at most as many trees as there are ladybugs. -/
theorem length_of_readTrees {lines : List String} {ladybugs : Nat} {trees : List Tree}
    (h : readTrees lines ladybugs = .ok trees) : trees.length ≤ ladybugs := by
  obtain ⟨blocks, -, hmade, -, hle⟩ := readTrees_eq_ok_iff.mp h
  exact hmade.length_eq ▸ hle

end Flowchart

/-- The trees of further texts leave their total within what there are ladybugs for. -/
theorem length_of_readTreeFilesAfter {total : Nat} {files : List (List String)}
    {parsed trees : List Tree} (h : readTreeFilesAfter total parsed files = .ok trees)
    (hparsed : parsed.length ≤ total) : 1 ≤ trees.length ∧ trees.length ≤ total := by
  induction files generalizing parsed with
  | nil =>
      rw [readTreeFilesAfter] at h
      split at h
      · cases h
      · next hsome =>
          obtain rfl := Except.ok.inj h
          exact ⟨List.length_pos_iff.mpr fun hnil => hsome (hnil ▸ rfl), hparsed⟩
  | cons file rest ih =>
      rw [readTreeFilesAfter] at h
      split at h
      · cases h
      · cases h
      · next more hread =>
          have hmore := Flowchart.length_of_readTrees hread
          refine ih h ?_
          rw [List.length_append]
          omega

/-- Several texts have at least one tree, and at most as many as there are ladybugs. -/
theorem length_of_readTreeFiles {files : List (List String)} {ladybugs : Nat} {trees : List Tree}
    (h : readTreeFiles files ladybugs = .ok trees) :
    1 ≤ trees.length ∧ trees.length ≤ ladybugs :=
  length_of_readTreeFilesAfter h (Nat.zero_le _)

/-! ### The first ladybugs -/

namespace Colony

variable {c : Colony} {a : AgentId}

/-- The numbers that belong to a colony are counted from one. -/
theorem contains_iff : c.contains a ↔ 1 ≤ a.number ∧ a.number ≤ c.count := by
  rw [contains, Bool.and_eq_true, decide_eq_true_iff, decide_eq_true_iff, AgentId.index]
  omega

/-- If the first ladybugs are active and no others, their numbers are those that are listed. -/
theorem activeIds_of_first {n : Nat} (hn : n ≤ c.count)
    (h : ∀ a, c.contains a → (c.isActive a ↔ a.index < n)) :
    c.activeIds = (List.range n).map AgentId.ofIndex := by
  -- The numbers up to `n` are kept, and those after them are left out.
  have hids : c.ids = (List.range n).map AgentId.ofIndex ++
      ((List.range (c.count - n)).map (n + ·)).map AgentId.ofIndex := by
    rw [ids, ← List.map_append, ← List.range_add, Nat.add_sub_cancel' hn]
  have hactive : ∀ row < c.count, (c.isActive (.ofIndex row) ↔ row < n) := fun row hrow =>
    h _ (mem_ids.mp (List.mem_map.mpr ⟨row, List.mem_range.mpr hrow, rfl⟩))
  rw [activeIds, hids, List.filter_append, List.filter_eq_self.mpr, List.filter_eq_nil_iff.mpr,
    List.append_nil]
  · intro a ha
    obtain ⟨_, hrow, rfl⟩ := List.mem_map.mp ha
    obtain ⟨row, hlt, rfl⟩ := List.mem_map.mp hrow
    have := List.mem_range.mp hlt
    rw [hactive _ (by omega)]
    omega
  · intro a ha
    obtain ⟨row, hrow, rfl⟩ := List.mem_map.mp ha
    have hlt := List.mem_range.mp hrow
    exact (hactive row (Nat.lt_of_lt_of_le hlt hn)).mpr hlt

end Colony

namespace Field

/-! ### Fields with bound trees -/

/-- The trees of the field are bound as the last load of trees says, if it came after the
board. -/
structure BoundTo (f : Field) (bound? : Option Nat) : Prop where
  /-- There is one place for a tree per ladybug. -/
  places : f.trees.size = f.world.colony.count
  /-- The active ladybugs are those with a tree in their place. -/
  active : ∀ a, f.world.colony.contains a →
    (f.world.colony.isActive a ↔ ∃ t, f.trees[a.index]? = some (some t))
  /-- Without trees nobody is active. -/
  nobody : f.treesLoaded = false → f.world.colony.activeIds = []
  /-- With trees, the first ladybugs are active, as many as the load of trees returned. -/
  first : f.treesLoaded = true → ∃ k, bound? = some k ∧ 1 ≤ k ∧ k ≤ f.world.colony.count ∧
    f.world.colony.activeIds = (List.range k).map AgentId.ofIndex

/-- What the loads leave behind and no other operation changes. -/
structure Loaded (bound? : Option Nat) (f : Field) : Prop where
  initial : f.initial.colony.Aligned
  count : f.world.colony.count = f.initial.colony.count
  places : f.trees.size = f.world.colony.count
  nobody : f.treesLoaded = false → ∀ a, f.world.colony.isActive a = false
  first : f.treesLoaded = true → ∃ k, bound? = some k ∧ 1 ≤ k ∧ k ≤ f.world.colony.count ∧
    ∀ a, f.world.colony.contains a → (f.world.colony.isActive a ↔ a.index < k)

section Loaded

variable {f f' : Field} {bound? : Option Nat}

/-- A board was loaded. -/
theorem loaded_ofBoard (board : Board) (bound? : Option Nat) :
    Loaded bound? (.ofBoard board) where
  initial := Colony.aligned_ofSpawns board.spawns
  count := rfl
  places := Array.size_replicate
  nobody _ := Colony.isActive_ofSpawns board.spawns
  first := nofun

/-- Trees were loaded. -/
theorem Loaded.bind (h : Loaded bound? f) {files : List (List String)} {trees : List Tree}
    (htrees : readTreeFiles files f.ladybugs = .ok trees) :
    Loaded (some trees.length) (f.bind trees) := by
  obtain ⟨active, heq, -⟩ := exists_activateFirst_eq f.initial.colony trees.length
  have hcount : (f.bind trees).world.colony.count = f.initial.colony.count := by
    rw [Field.bind, heq]
  obtain ⟨hpos, hle⟩ := length_of_readTreeFiles htrees
  refine ⟨h.initial, hcount, ?_, ?_, fun _ => ⟨trees.length, rfl, hpos, hcount ▸ hle, ?_⟩⟩
  · rw [hcount]
    simp [Field.bind, ladybugs]
  · intro hnone
    cases hnone
  · intro a ha
    rw [Colony.contains_congr hcount] at ha
    exact isActive_bind_iff h.initial trees ha

/-- Nothing was loaded. -/
theorem Loaded.continues (h : Loaded bound? f) (hcontinues : f.Continues f') :
    Loaded bound? f' where
  initial := hcontinues.initial ▸ h.initial
  count := by rw [hcontinues.count, hcontinues.initial, h.count]
  places := by rw [hcontinues.places, hcontinues.count, h.places]
  nobody hloaded a := by
    rw [hcontinues.isActive]
    exact h.nobody (hcontinues.treesLoaded ▸ hloaded) a
  first hloaded := by
    obtain ⟨k, hk, hpos, hle, hfirst⟩ := h.first (hcontinues.treesLoaded ▸ hloaded)
    refine ⟨k, hk, hpos, hcontinues.count ▸ hle, fun a ha => ?_⟩
    rw [hcontinues.isActive]
    exact hfirst a (Colony.contains_congr hcontinues.count a ▸ ha)

/-- If the active ladybugs are those with a tree, the trees are bound as the last load says. -/
theorem Loaded.boundTo (h : Loaded bound? f) (hbound : f.Bound) : f.BoundTo bound? where
  places := h.places
  active := hbound.active
  nobody hloaded := List.filter_eq_nil_iff.mpr fun a _ => by
    rw [h.nobody hloaded a]
    exact Bool.false_ne_true
  first hloaded := by
    obtain ⟨k, hk, hpos, hle, hfirst⟩ := h.first hloaded
    exact ⟨k, hk, hpos, hle, Colony.activeIds_of_first hle hfirst⟩

end Loaded

/-! ### Who can act -/

section CheckActive

variable {f : Field} {a : AgentId}

/-- A stranger is refused as unknown. -/
theorem checkActive_of_not_contains (h : ¬ f.world.colony.contains a) :
    f.checkActive a = .error (.unknownLadybug a) := by
  rw [checkActive, Bool.eq_false_iff.mpr h]
  rfl

/-- A ladybug that is not active is refused as such. -/
theorem checkActive_of_not_isActive (hcontains : f.world.colony.contains a)
    (h : ¬ f.world.colony.isActive a) : f.checkActive a = .error (.inactiveLadybug a) := by
  rw [checkActive, hcontains, Bool.eq_false_iff.mpr h]
  rfl

/-- An active ladybug is not refused. -/
theorem checkActive_of_isActive (hcontains : f.world.colony.contains a)
    (h : f.world.colony.isActive a) : f.checkActive a = .ok () := by
  rw [checkActive, hcontains, h]
  rfl

/-- A ladybug that is refused has no tree to offer. -/
theorem tree_of_checkActive {error : GameError} (h : f.checkActive a = .error error) :
    f.tree a = .error error := by
  rw [tree, h]
  rfl

end CheckActive

end Field

namespace Game

/-! ### Operations about one ladybug -/

/-- The error of a program that stops with one. -/
def refusal? {α : Type} (program : GameM α) (g : Game) : Option GameError :=
  match program g with
  | .ok _ _ => none
  | .error error _ => some error

/-- What can be asked of one ladybug. -/
inductive Request where
  | tick
  | head
  | resetTree
  | jumpTo (node : String)
  | hasNode (node : String)
  | tree
  | position

/-- The program of a request, without its answer. -/
def Request.run (a : AgentId) : Request → GameM Unit
  | tick => (fun _ => ()) <$> Game.tick a
  | head => (fun _ => ()) <$> ask (·.head a)
  | resetTree => Game.resetTree a
  | jumpTo node => Game.jumpTo a node
  | hasNode node => (fun _ => ()) <$> ask (·.hasNode a node)
  | tree => (fun _ => ()) <$> ask (·.tree a)
  | position => (fun _ => ()) <$> ask (·.position a)

/-- The refusal tells a stranger from a ladybug without a tree, where there are `count` ladybugs,
and the first `k` of them have a tree. -/
structure Guarded (count k : Nat) (a : AgentId) (refusal? : Option GameError) : Prop where
  unknown : ∀ b, refusal? = some (.unknownLadybug b) ↔
    b = a ∧ (a.number = 0 ∨ count < a.number)
  inactive : ∀ b, refusal? = some (.inactiveLadybug b) ↔
    b = a ∧ k < a.number ∧ a.number ≤ count

section Requests

variable {α β : Type} {g g' : Game} {f : Field} {a : AgentId} {error : GameError}

theorem refusal?_of_ok {program : GameM α} {value : α} (h : program g = .ok value g') :
    refusal? program g = none := by
  rw [refusal?, h]

theorem refusal?_of_error {program : GameM α} (h : program g = .error error g') :
    refusal? program g = some error := by
  rw [refusal?, h]

/-- What is made of the value does not matter. -/
theorem refusal?_map (f : α → β) (program : GameM α) :
    refusal? (f <$> program) g = refusal? program g := by
  cases h : program g with
  | ok value g' =>
      rw [refusal?_of_ok h, refusal?_of_ok (map_of_ok h f)]
  | error error g' =>
      rw [refusal?_of_error h, refusal?_of_error (map_of_error h f)]

/-- A question with an answer is not refused. -/
theorem refusal?_question_of_ok {question : Game → Except GameError α} {answer : α}
    (h : question g = .ok answer) : refusal? ((fun _ => ()) <$> ask question) g = none :=
  (refusal?_map ..).trans (refusal?_of_ok (ask_of_ok h))

/-- A question without an answer is refused with its error. -/
theorem refusal?_question_of_error {question : Game → Except GameError α}
    (h : question g = .error error) :
    refusal? ((fun _ => ()) <$> ask question) g = some error :=
  (refusal?_map ..).trans (refusal?_of_error (ask_of_error h))

/-- The tree of a ladybug is that on the field. -/
theorem tree_of_ready (hready : g.ready = .ok f) (a : AgentId) : g.tree a = f.tree a := by
  rw [tree, hready]
  rfl

/-- A turn that is refused on the field stops a tick. -/
theorem refusal?_tick_of_error (hready : g.ready = .ok f) (h : f.turn a = .error error) :
    refusal? (tick a) g = some error := by
  rw [refusal?, tick_of_ready hready, bind_of_error (orFail_of_error h)]
  rfl

/-- A missing tree cannot be changed. -/
theorem refusal?_editTree_of_error (hready : g.ready = .ok f) (h : f.tree a = .error error)
    (edit : Tree → Except TreeError Tree) : refusal? (editTree a edit) g = some error := by
  rw [refusal?, editTree, bind_of_ok (ask_of_ok hready), bind_of_error (orFail_of_error h)]
  rfl

/-- A tree can be changed unless the change itself is refused. -/
theorem refusal?_editTree_of_ok (hready : g.ready = .ok f) {t : Tree} (h : f.tree a = .ok t)
    (edit : Tree → Except TreeError Tree) :
    refusal? (editTree a edit) g = none ∨
      ∃ fault, refusal? (editTree a edit) g = some (.edit fault) := by
  cases hedit : edit t with
  | ok edited =>
      left
      rw [refusal?, editTree, bind_of_ok (ask_of_ok hready), bind_of_ok (orFail_of_ok h),
        bind_of_ok (orFail_of_ok hedit)]
      rfl
  | error fault =>
      right
      refine ⟨fault, ?_⟩
      rw [refusal?, editTree, bind_of_ok (ask_of_ok hready), bind_of_ok (orFail_of_ok h),
        bind_of_error (orFail_of_error hedit)]

/-- What is refused to a ladybug on the field is refused to all requests. -/
theorem Request.refusal?_run (request : Request) (hready : g.ready = .ok f)
    (h : f.checkActive a = .error error) : refusal? (request.run a) g = some error := by
  have htree := Field.tree_of_checkActive h
  have htree' : g.tree a = .error error := (tree_of_ready hready a).trans htree
  cases request with
  | tick =>
      refine (refusal?_map ..).trans (refusal?_tick_of_error hready ?_)
      rw [Field.turn, htree]
      rfl
  | head =>
      refine refusal?_question_of_error ?_
      rw [Game.head, htree']
      rfl
  | resetTree => exact refusal?_editTree_of_error hready htree _
  | jumpTo node => exact refusal?_editTree_of_error hready htree _
  | hasNode node =>
      refine refusal?_question_of_error ?_
      rw [Game.hasNode, htree']
      rfl
  | tree => exact refusal?_question_of_error htree'
  | position =>
      refine refusal?_question_of_error ?_
      rw [Game.position, hready]
      change (f.checkActive a >>= _) = _
      rw [h]
      rfl

/-- If a ladybug has a tree, a request is refused only because its tree cannot be changed as it
asks. -/
theorem Request.refusal?_run_of_tree (request : Request) (hready : g.ready = .ok f) {t : Tree}
    (htree : f.tree a = .ok t) :
    refusal? (request.run a) g = none ∨
      ∃ fault, refusal? (request.run a) g = some (.edit fault) := by
  have htree' : g.tree a = .ok t := (tree_of_ready hready a).trans htree
  cases request with
  | tick => exact .inl ((refusal?_map ..).trans (refusal?_of_ok (tick_of_tree hready htree)))
  | head =>
      have hhead : g.head a = .ok t.head := by
        rw [Game.head, htree']
        rfl
      exact .inl (refusal?_question_of_ok hhead)
  | resetTree => exact refusal?_editTree_of_ok hready htree _
  | jumpTo node => exact refusal?_editTree_of_ok hready htree _
  | hasNode node =>
      have hnode : g.hasNode a node = .ok (t.arena.hasNode node) := by
        rw [Game.hasNode, htree']
        rfl
      exact .inl (refusal?_question_of_ok hnode)
  | tree => exact .inl (refusal?_question_of_ok htree')
  | position =>
      obtain ⟨⟨hcontains, hactive⟩, -⟩ := Field.tree_eq_ok_iff.mp htree
      have hposition : g.position a =
          .ok (f.world.colony.position a, f.world.colony.direction a) := by
        rw [Game.position, hready]
        change (f.checkActive a >>= _) = _
        rw [Field.checkActive_of_isActive hcontains hactive]
        rfl
      exact .inl (refusal?_question_of_ok hposition)

/-- **A request is refused exactly to strangers and to ladybugs without a tree**, apart from a
change that the tree does not allow. -/
theorem Request.guarded (request : Request) (hready : g.ready = .ok f) (hbound : f.Bound) {k : Nat}
    (hfirst : ∀ a, f.world.colony.contains a → (f.world.colony.isActive a ↔ a.index < k))
    (a : AgentId) : Guarded f.world.colony.count k a (refusal? (request.run a) g) := by
  by_cases hcontains : f.world.colony.contains a
  · obtain ⟨hpos, hle⟩ := Colony.contains_iff.mp hcontains
    by_cases hactive : f.world.colony.isActive a
    · have hlt : a.number - 1 < k := (hfirst a hcontains).mp hactive
      obtain ⟨t, htree⟩ := hbound.exists_tree hcontains hactive
      obtain hdone | ⟨fault, hrefused⟩ := request.refusal?_run_of_tree hready htree
      · rw [hdone]
        exact ⟨fun b => ⟨nofun, by omega⟩, fun b => ⟨nofun, by omega⟩⟩
      · rw [hrefused]
        exact ⟨fun b => ⟨nofun, by omega⟩, fun b => ⟨nofun, by omega⟩⟩
    · have hge : ¬ a.number - 1 < k := fun hlt => hactive ((hfirst a hcontains).mpr hlt)
      rw [request.refusal?_run hready (Field.checkActive_of_not_isActive hcontains hactive)]
      refine ⟨fun b => ⟨nofun, by omega⟩, fun b => ⟨fun h => ?_, fun h => ?_⟩⟩
      · exact ⟨(GameError.inactiveLadybug.inj (Option.some.inj h)).symm, by omega, hle⟩
      · rw [h.1]
  · have hnobody : a.number = 0 ∨ f.world.colony.count < a.number := by
      rw [Colony.contains_iff] at hcontains
      omega
    rw [request.refusal?_run hready (Field.checkActive_of_not_contains hcontains)]
    refine ⟨fun b => ⟨fun h => ?_, fun h => ?_⟩, fun b => ⟨nofun, by omega⟩⟩
    · exact ⟨(GameError.unknownLadybug.inj (Option.some.inj h)).symm, hnobody⟩
    · rw [h.1]

end Requests

/-! ### All histories -/

/-- In the game after a history, what is loaded is what the history says. -/
theorem loaded_played {history : List Operation} {f : Field}
    (hfield : (played history).field = some f) : f.Loaded (lastBound? history) := by
  have hrel := rel_played (P := fun _ bound? f => f.Loaded bound?)
    (fun _ => Field.loaded_ofBoard _) (fun h htrees => h.bind htrees)
    (fun h => h.continues) history
  rw [hfield] at hrel
  generalize lastBoard? history = lines? at hrel
  cases hrel with
  | some h => exact h

/-- A game without trees refuses a round before anybody acts. -/
theorem nextAction_of_not_treesLoaded {g : Game} (h : g.treesLoaded = false) {σ : Type}
    (observer : TurnObserver σ) (memory : σ) :
    nextAction observer memory g =
      .error (if g.boardLoaded then .treesNotLoaded else .boardNotLoaded) g := by
  have hready : g.ready = .error (if g.boardLoaded then .treesNotLoaded else .boardNotLoaded) := by
    rw [treesLoaded] at h
    rw [ready, loaded, boardLoaded]
    cases hfield : g.field with
    | none => rfl
    | some f =>
        rw [hfield, Option.any_some] at h
        change (if f.treesLoaded then Except.ok f else .error GameError.treesNotLoaded) = _
        rw [h]
        rfl
  rw [nextAction, bind_of_error (ask_of_error hready)]

/-- **Trees are bound to the first ladybugs after every history.** As soon as there is a board,
there is one place for a tree per ladybug, the active ladybugs are those with a tree in their
place, and these are the first ones, as many as the last load of trees returned. A request is
refused to a stranger exactly if the number is zero or beyond the ladybugs, and to a ladybug
without a tree exactly if its number is beyond those with a tree. A round of turns is refused
exactly if a board or trees are missing, and before anybody acts; otherwise each of the active
ladybugs has its turn. -/
theorem binding_played (history : List Operation) :
    (∀ f, (played history).field = some f → f.BoundTo (lastBound? history)) ∧
    (∀ f k, (played history).ready = .ok f → lastBound? history = some k →
      ∀ (request : Request) (a : AgentId),
        Guarded f.world.colony.count k a (refusal? (request.run a) (played history))) ∧
    ((played history).treesLoaded = false →
      ∀ {σ : Type} (observer : TurnObserver σ) (memory : σ),
        nextAction observer memory (played history) =
          .error (if (played history).boardLoaded then .treesNotLoaded else .boardNotLoaded)
            (played history)) ∧
    ((played history).treesLoaded = true →
      ∃ ids reports g', (played history).activeLadybugs = .ok ids ∧
        Ticks (played history) ids reports g' ∧
        ∀ {σ : Type} (observer : TurnObserver σ) (memory : σ),
          nextAction observer memory (played history) =
            .ok (reports.flatMap Report.trace,
              observer.hear (reports.flatMap Report.calls) memory) g') := by
  have hreach : (played history).Reachable := reachable_iff.mpr ⟨history, rfl⟩
  have hbound := hreach.holds Field.bound_invariant
  refine ⟨fun f hfield => ?_, fun f k hready hk request a => ?_, fun h => ?_, fun h => ?_⟩
  · exact (loaded_played hfield).boundTo (hbound f hfield)
  · obtain ⟨hfield, hloaded⟩ := ready_eq_ok_iff.mp hready
    obtain ⟨k', hk', -, -, hfirst⟩ := (loaded_played hfield).first hloaded
    obtain rfl := Option.some.inj (hk'.symm.trans hk)
    exact request.guarded hready (hbound f hfield) hfirst a
  · exact nextAction_of_not_treesLoaded h
  · obtain ⟨f, hready⟩ := ready_of_treesLoaded h
    obtain ⟨reports, g', hticks, hround⟩ := exists_round hreach hready
    refine ⟨f.world.colony.activeIds, reports, g', ?_, hticks, hround⟩
    rw [activeLadybugs, hready]
    rfl

/-- Of two ladybugs, the first one got a tree. -/
theorem binding_played_one_of_two :
    let history : List Operation := [.loadTrees ["flowchart TD", "A[move]"], .loadBoard [">.<"]]
    ∃ f, (played history).ready = .ok f ∧ lastBound? history = some 1 ∧ f.BoundTo (some 1) ∧
      ∀ (request : Request) (a : AgentId),
        Guarded f.world.colony.count 1 a (refusal? (request.run a) (played history)) := by
  intro history
  obtain ⟨f, hready⟩ : ∃ f, (played history).ready = .ok f :=
    ready_of_treesLoaded (by decide +kernel)
  have hlast : lastBound? history = some 1 := by decide +kernel
  obtain ⟨hbound, hguarded, -⟩ := binding_played history
  have hfield := (ready_eq_ok_iff.mp hready).1
  exact ⟨f, hready, hlast, hlast ▸ hbound f hfield, hguarded f 1 hready hlast⟩

end Game

end Ladybug
