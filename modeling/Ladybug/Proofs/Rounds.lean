import Ladybug.Proofs.Refusals

/-!
# A round is made of single turns

There are two ways of giving ladybugs their turns: a round for all who are active when it
begins, and single ticks, each of which looks at the whole game again before it does
anything. A round leaves the same game as one tick for each of these ladybugs in the order of
their numbers, and it returns what the ticks have recorded, end to end.

Whoever follows the round gets to see the record of each turn and then the world right after
it. What an observer makes of that goes into its memory and nowhere else, so the game and the
record of the round are the same for all observers.

## Main definitions

* `TurnObserver.Call` and `TurnObserver.hear` — what an observer gets to see, and the memory
  that it keeps of that.
* `Game.Report` — what there is to tell of one turn.
* `Game.Ticks` — single ticks of several ladybugs, one after another.

## Main results

* `Game.exists_ticks` — active ladybugs can be given single ticks.
* `Game.turns_of_ticks` — a round comes to the same as single ticks.
* `Game.Reachable.nextAction_eq_ticks` — so it does in every reachable game with trees.
-/

namespace Ladybug

/-! ### What an observer gets to see -/

namespace TurnObserver

/-- One of the things that an observer gets to see. -/
inductive Call where
  | trace (trace : Trace)
  | turnDone (a : AgentId) (w : World)
deriving DecidableEq

/-- The memory of an observer after all it got to see, the first of it first. -/
def hear {σ : Type} (observer : TurnObserver σ) : List Call → σ → σ
  | [], memory => memory
  | .trace trace :: calls, memory => observer.hear calls (observer.onTrace trace memory)
  | .turnDone a w :: calls, memory => observer.hear calls (observer.onTurnDone a w memory)

end TurnObserver

/-- The numbers of the active ladybugs are listed in ascending order. -/
theorem Colony.pairwise_activeIds (c : Colony) :
    c.activeIds.Pairwise fun a b => a.number < b.number := by
  refine List.Pairwise.filter _ (List.pairwise_map.mpr ?_)
  exact List.pairwise_lt_range.imp fun h => Nat.succ_lt_succ h

namespace Game

/-- A game with trees is ready. -/
theorem ready_of_treesLoaded {g : Game} (h : g.treesLoaded = true) : ∃ f, g.ready = .ok f := by
  rw [treesLoaded] at h
  cases hfield : g.field with
  | none =>
      rw [hfield] at h
      cases h
  | some f =>
      rw [hfield] at h
      exact ⟨f, ready_eq_ok_iff.mpr ⟨hfield, h⟩⟩

/-! ### Single ticks -/

/-- What there is to tell of one turn. -/
structure Report where
  agent : AgentId
  /-- What the turn has recorded. -/
  trace : Trace
  /-- The world right after the turn. -/
  world : World

/-- What an observer gets to see of a turn. -/
def Report.calls (r : Report) : List TurnObserver.Call :=
  [.trace r.trace, .turnDone r.agent r.world]

/-- Single ticks lead from one game to another, one for each of the given ladybugs in their
order, and each of them is reported. -/
inductive Ticks : Game → List AgentId → List Report → Game → Prop
  | nil {g : Game} : Ticks g [] [] g
  | cons {g next g' : Game} {a : AgentId} {rest : List AgentId} {trace : Trace} {w : World}
      {reports : List Report} (htick : tick a g = .ok trace next) (hworld : next.world = .ok w)
      (hrest : Ticks next rest reports g') : Ticks g (a :: rest) (⟨a, trace, w⟩ :: reports) g'

variable {g g' : Game} {f : Field} {a : AgentId}

/-- A tick that succeeds is a turn. -/
theorem turn_of_tick {trace : Trace} (h : tick a g = .ok trace g') : turn a g = .ok trace g' := by
  cases hready : g.ready with
  | ok f => rwa [tick, bind_of_ok (ask_of_ok hready)] at h
  | error error =>
      rw [tick, bind_of_error (ask_of_error hready)] at h
      cases h

/-- In a game that is ready, a tick is a turn on its field. -/
theorem tick_of_ready (hready : g.ready = .ok f) (a : AgentId) :
    tick a g = (orFail id (f.turn a) >>= fun done => setField done.2 >>= fun _ => pure done.1)
      g := by
  have hloaded : g.loaded = .ok f := loaded_eq_ok_iff.mpr (ready_eq_ok_iff.mp hready).1
  rw [tick, bind_of_ok (ask_of_ok hready), turn, bind_of_ok (ask_of_ok hloaded)]

/-- A ladybug with a tree can be given a tick, which is one of the tree. -/
theorem tick_of_tree {t : Tree} (hready : g.ready = .ok f) (htree : f.tree a = .ok t) :
    tick a g = .ok (t.tick f.world a).trace
      ⟨some { f.setTree a (t.tick f.world a).tree with world := (t.tick f.world a).world }⟩ := by
  rw [tick_of_ready hready, bind_of_ok (orFail_of_ok (Field.turn_of_tree htree))]
  rfl

/-- If the field is ready for it, an active ladybug can be given a tick. The field is ready for
the next one then, and the active ladybugs stay the same. -/
theorem exists_tick (hready : g.ready = .ok f) (h : f.Bound) (ha : a ∈ f.world.colony.activeIds) :
    ∃ trace f', tick a g = .ok trace ⟨some f'⟩ ∧ Game.ready ⟨some f'⟩ = .ok f' ∧ f'.Bound ∧
      f'.world.colony.activeIds = f.world.colony.activeIds := by
  obtain ⟨hcontains, hactive⟩ := Colony.mem_activeIds.mp ha
  obtain ⟨t, htree⟩ := h.exists_tree hcontains hactive
  obtain ⟨-, hloaded⟩ := ready_eq_ok_iff.mp hready
  exact ⟨(t.tick f.world a).trace, _, tick_of_tree hready htree,
    ready_eq_ok_iff.mpr ⟨rfl, hloaded⟩, Field.bound_invariant.turn h (Field.turn_of_tree htree),
    (t.tick_deed f.world a).colony.activeIds⟩

/-- Active ladybugs can be given single ticks, one after another. -/
theorem exists_ticks {ids : List AgentId} (hready : g.ready = .ok f) (h : f.Bound)
    (hids : ids ⊆ f.world.colony.activeIds) : ∃ reports g', Ticks g ids reports g' := by
  induction ids generalizing g f with
  | nil => exact ⟨[], g, .nil⟩
  | cons a rest ih =>
      obtain ⟨ha, hrest⟩ := List.cons_subset.mp hids
      obtain ⟨trace, next, htick, hready', hbound, hsame⟩ := exists_tick hready h ha
      obtain ⟨reports, g', hticks⟩ := ih hready' hbound (hsame ▸ hrest)
      exact ⟨⟨a, trace, next.world⟩ :: reports, g', .cons htick rfl hticks⟩

/-! ### Rounds -/

/-- Turns of several ladybugs come to the same as single ticks of them, whoever is watching. -/
theorem turns_of_ticks {ids : List AgentId} {reports : List Report} (h : Ticks g ids reports g')
    {σ : Type} (observer : TurnObserver σ) (memory : σ) :
    turns observer ids memory g =
      .ok (reports.flatMap Report.trace, observer.hear (reports.flatMap Report.calls) memory)
        g' := by
  induction h generalizing memory with
  | nil => rfl
  | @cons g next g' a rest trace w reports htick hworld hrest ih =>
      obtain ⟨f, hloaded, rfl⟩ : ∃ f, next.loaded = .ok f ∧ f.world = w := by
        obtain ⟨f, hf, hw⟩ := exists_ok_of_bind hworld
        exact ⟨f, hf, Except.ok.inj hw⟩
      rw [turns, bind_of_ok (turn_of_tick htick), bind_of_ok (ask_of_ok hloaded), bind_of_ok (ih _)]
      rfl

/-- A round is one of those who are active when it begins. -/
theorem nextAction_of_ready (hready : g.ready = .ok f) {σ : Type} (observer : TurnObserver σ)
    (memory : σ) :
    nextAction observer memory g = turns observer f.world.colony.activeIds memory g := by
  rw [nextAction, bind_of_ok (ask_of_ok hready)]

/-- In a game with trees, the active ladybugs can be given single ticks, and a round comes to
the same. -/
theorem exists_round (h : g.Reachable) (hready : g.ready = .ok f) :
    ∃ reports g', Ticks g f.world.colony.activeIds reports g' ∧
      ∀ {σ : Type} (observer : TurnObserver σ) (memory : σ),
        nextAction observer memory g =
          .ok (reports.flatMap Report.trace,
            observer.hear (reports.flatMap Report.calls) memory) g' := by
  have hbound := h.holds Field.bound_invariant f (ready_eq_ok_iff.mp hready).1
  obtain ⟨reports, g', hticks⟩ := exists_ticks hready hbound (List.Subset.refl _)
  refine ⟨reports, g', hticks, fun observer memory => ?_⟩
  rw [nextAction_of_ready hready, turns_of_ticks hticks]

/-- **A round is one tick for each ladybug that is active when it begins**, in the order of their
numbers. It leaves the same game, and it returns what the ticks have recorded, end to end. For
each of the ladybugs in turn, an observer gets to see what its tick has recorded, and then its
number with the world right after the tick. The game and the record are the same for all
observers. -/
theorem Reachable.nextAction_eq_ticks (h : g.Reachable) (hloaded : g.treesLoaded = true) :
    ∃ ids reports g', g.activeLadybugs = .ok ids ∧
      ids.Pairwise (fun a b => a.number < b.number) ∧ Ticks g ids reports g' ∧
      ∀ {σ : Type} (observer : TurnObserver σ) (memory : σ),
        nextAction observer memory g =
          .ok (reports.flatMap Report.trace,
            observer.hear (reports.flatMap Report.calls) memory) g' := by
  obtain ⟨f, hready⟩ := ready_of_treesLoaded hloaded
  obtain ⟨reports, g', hticks, hround⟩ := exists_round h hready
  refine ⟨f.world.colony.activeIds, reports, g', ?_, Colony.pairwise_activeIds _, hticks, hround⟩
  rw [activeLadybugs, hready]
  rfl

/-- Two ladybugs with one free cell between them take a round. -/
theorem nextAction_eq_ticks_blocked :
    let g := (Game.new.after (.loadBoard [">.<"])).after
      (.loadTrees ["flowchart TD", "A[move]", "flowchart TD", "B[move]"])
    ∃ ids reports g', g.activeLadybugs = .ok ids ∧
      ids.Pairwise (fun a b => a.number < b.number) ∧ Ticks g ids reports g' ∧
      ∀ {σ : Type} (observer : TurnObserver σ) (memory : σ),
        nextAction observer memory g =
          .ok (reports.flatMap Report.trace,
            observer.hear (reports.flatMap Report.calls) memory) g' := by
  intro g
  have hreach : g.Reachable := .after _ (.after _ .new)
  exact hreach.nextAction_eq_ticks (by decide +kernel)

end Game

end Ladybug
