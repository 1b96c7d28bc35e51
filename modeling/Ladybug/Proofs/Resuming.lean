import Ladybug.Proofs.OneAction
import Ladybug.Proofs.Play

/-!
# Turns make up one pass

A turn halts at an action, and the next one starts again at the root: where to go on stands
only in the statuses and in the resume pointer. Nevertheless the turns of a fresh tree
together do what one pass through the tree does, with the same log and the same worlds.
Playing a fresh tree is a pass, and by the laws of plays it can be played turn by turn, until
a walk comes to the end of the tree.

## Main definitions

* `Tree.Fresh` — nothing of the tree has been entered.
* `Tree.played` — the tree and the world before each turn.
* `Tree.TurnsMakeUpPass` — what the turns have in common with the pass.

## Main results

* `Flowchart.fresh_of_readTrees` and `Tree.Sound.fresh_reset` — which trees are fresh.
* `Play.run_eq_evaluate` — playing a fresh tree is a pass.
* `Tree.Reachable.turns_make_up_pass` — the turns of a fresh tree make up its pass.
-/

namespace Ladybug

/-! ### Fresh trees -/

/-- No node has been entered. -/
def Tree.Fresh (t : Tree) : Prop := ∀ i, t.arena.status i = .notEntered

/-- A tree that was just read is fresh. -/
theorem Flowchart.fresh_of_readTrees {lines : List String} {ladybugs : Nat} {trees : List Tree}
    (h : readTrees lines ladybugs = .ok trees) {t : Tree} (ht : t ∈ trees) : t.Fresh :=
  (sound_of_readTrees h ht).2

/-- A tree that was just reset is fresh. -/
theorem Tree.Sound.fresh_reset {t : Tree} (h : t.Sound) : t.reset.Fresh := by
  intro i
  have hmem : ∀ j ∈ t.preorder, j < t.arena.size := fun j hj =>
    List.mem_range.mp (h.preorder_perm.mem_iff.mp hj)
  change (t.arena.setStatuses t.preorder .notEntered).status i = .notEntered
  rw [Arena.status_setStatuses hmem]
  split
  · rfl
  · next hi =>
      rw [h.preorder_perm.mem_iff, List.mem_range] at hi
      rw [Arena.status, Arena.node_of_size_le (Nat.le_of_not_lt hi)]
      rfl

/-! ### Playing fresh nodes -/

namespace Play

variable {env : Nat → World → World} {a : AgentId}

/-- Playing nodes leaves the pass that evaluating them leaves, it stops if one of the
outcomes stops it, and it leaves as many successes as there are among the outcomes. -/
structure Agrees (stopsOn : Bool → Bool) (is : List NodeIdx) (played : Play × Bool)
    (passed : Pass × List Bool) : Prop where
  pass : played.1.pass = passed.1
  stopped : played.2 = passed.2.any stopsOn
  successes : (is.countP fun i => played.1.tree.arena.status i = .success) =
    passed.2.count true

/-- A node that has ended counts by its outcome. -/
theorem countP_cons_of_status {t : Arena} {i : NodeIdx} {is : List NodeIdx} {ok : Bool} {n : Nat}
    (hi : t.status i = .ofOutcome ok) (his : (is.countP fun j => t.status j = .success) = n) :
    ((i :: is).countP fun j => t.status j = .success) = [ok].count true + n := by
  rw [List.countP_cons, his, hi, Nat.add_comm]
  cases ok <;> rfl

/-- A node that settles the composite agrees, if those after it have not begun. -/
theorem agrees_of_stops {stopsOn : Bool → Bool} {u : Play} {i : NodeIdx} {is : List NodeIdx}
    {ok : Bool} (hstops : stopsOn ok = true) (hi : u.tree.arena.status i = .ofOutcome ok)
    (his : ∀ j ∈ is, u.tree.arena.status j = .notEntered) :
    Agrees stopsOn (i :: is) (u, true) (u.pass, [ok]) where
  pass := rfl
  stopped := by rw [List.any_cons, hstops, Bool.true_or]
  successes := by
    refine countP_cons_of_status hi (List.countP_eq_zero.mpr fun j hj => ?_)
    rw [his j hj]
    decide

/-- A node that does not settle it agrees in front of others that agree. -/
theorem Agrees.cons {stopsOn : Bool → Bool} {i : NodeIdx} {is : List NodeIdx}
    {played : Play × Bool} {passed : Pass × List Bool} (h : Agrees stopsOn is played passed)
    {ok : Bool} (hstops : stopsOn ok = false)
    (hi : played.1.tree.arena.status i = .ofOutcome ok) :
    Agrees stopsOn (i :: is) played (passed.1, ok :: passed.2) where
  pass := h.pass
  stopped := by rw [h.stopped, List.any_cons, hstops, Bool.false_or]
  successes := by
    rw [countP_cons_of_status hi h.successes, ← List.count_append, List.singleton_append]

/-- The pass after a node ends. -/
theorem pass_finish {t : Arena} {s : Play} (h : s.tree.arena.shape = t.shape) (i : NodeIdx)
    (ok : Bool) :
    (s.finish a i ok).pass = s.pass.log [⟨a, t.id i, t.kind i, .ofOutcome ok⟩] := by
  rw [← Tree.entryFor_of_shape h]
  rfl

/-- The status of a node that ends. -/
theorem status_finish {t : Arena} {s : Play} {i : NodeIdx} (h : s.tree.arena.shape = t.shape)
    (hlt : i < t.size) (ok : Bool) : (s.finish a i ok).tree.arena.status i = .ofOutcome ok := by
  have hlt' : i < s.tree.arena.size := by rwa [Arena.size_of_shape h]
  exact (Arena.status_setStatus hlt' _ i).trans (if_pos rfl)

/-- Playing a fresh node is evaluating it, if that is so of the forest below. -/
theorem run_eq_evaluate_of_below (env : Nat → World → World) (a : AgentId) {t : Arena}
    {s : Play} {i : NodeIdx} {below : Forest} {depth : Nat}
    (hshape : s.tree.arena.shape = t.shape) (hi : t.children i = below.roots)
    (hgrows : t.Grows below) (hmem : i ∉ below.preorder) (hlt : i < t.size)
    (hdepth : below.height ≤ depth)
    (hfresh : ∀ j ∈ i :: below.preorder, s.tree.arena.status j = .notEntered)
    (hbelow : ∀ (u : Play) (stopsOn : Bool → Bool), u.tree.arena.shape = t.shape →
      (∀ j ∈ below.preorder, u.tree.arena.status j = .notEntered) →
      Agrees stopsOn below.roots (runAll (run env a depth) stopsOn u below.roots)
        (Arena.evaluateAll (t.evaluate env a depth) stopsOn u.pass below.roots)) :
    (run env a (depth + 1) s i).1.pass = (t.evaluate env a (depth + 1) s.pass i).1 ∧
      (run env a (depth + 1) s i).2 = (t.evaluate env a (depth + 1) s.pass i).2 ∧
      (run env a (depth + 1) s i).1.tree.arena.status i =
        .ofOutcome (run env a (depth + 1) s i).2 := by
  have hs : (s.tree.arena.status i).outcome? = none := by
    rw [hfresh i List.mem_cons_self]
    rfl
  have hsize : i < s.tree.arena.size := by rwa [Arena.size_of_shape hshape]
  cases hk : t.kind i with
  | action action =>
      have hk' : s.tree.arena.kind i = .action action := (Arena.kind_of_shape hshape i).trans hk
      rw [run_of_action hs hk', Arena.evaluate, hk]
      refine ⟨?_, rfl, ?_⟩
      · rw [perform, Tree.finish, Tree.entryFor_of_shape hshape, hk]
      · rw [perform, Tree.finish, Tree.setStatus]
        exact (Arena.status_setStatus hsize _ i).trans (if_pos rfl)
  | condition condition =>
      have hk' : s.tree.arena.kind i = .condition condition :=
        (Arena.kind_of_shape hshape i).trans hk
      rw [run_of_condition hs hk', Arena.evaluate, hk]
      refine ⟨?_, rfl, status_finish hshape hlt _⟩
      rw [pass_finish hshape, hk]
  | composite composite =>
      have hk' : s.tree.arena.kind i = .composite composite :=
        (Arena.kind_of_shape hshape i).trans hk
      have henter : s.Keeps [i] (s.enter a i) := keeps_enter s List.mem_cons_self
      have hfresh' : ∀ j ∈ below.preorder, (s.enter a i).tree.arena.status j = .notEntered := by
        intro j hj
        rw [henter.frame j (by simpa using ne_of_mem_of_not_mem hj hmem)]
        exact hfresh j (List.mem_cons_of_mem i hj)
      have hpass : (s.enter a i).pass = s.pass.log [⟨a, t.id i, t.kind i, .entry⟩] := by
        rw [enter, Tree.enter, if_pos (hfresh i List.mem_cons_self), Tree.entryFor_of_shape hshape]
      have hagrees := hbelow (s.enter a i) composite.stopsOn (henter.shape.trans hshape) hfresh'
      have hkeeps : (s.enter a i).Keeps below.preorder
          (runAll (run env a depth) composite.stopsOn (s.enter a i) below.roots).1 :=
        keeps_runAll ((hgrows.of_shape hshape).of_shape henter.shape) hdepth composite.stopsOn
      obtain ⟨u, stopped, hu⟩ : ∃ u stopped, runAll (run env a depth) composite.stopsOn
          (s.enter a i) below.roots = (u, stopped) := ⟨_, _, rfl⟩
      obtain ⟨q, oks, hq⟩ : ∃ q oks, Arena.evaluateAll (t.evaluate env a depth)
          composite.stopsOn (s.enter a i).pass below.roots = (q, oks) := ⟨_, _, rfl⟩
      rw [hu, hq] at hagrees
      rw [hu] at hkeeps
      rw [hpass, ← hi] at hq
      have hshape' : u.tree.arena.shape = t.shape :=
        hkeeps.shape.trans (henter.shape.trans hshape)
      have hsuccesses : u.tree.successes i = oks.count true := by
        rw [Tree.successes, Arena.children_of_shape hshape', hi]
        exact hagrees.successes
      rw [← hi, ← Arena.children_of_shape hshape] at hu
      obtain rfl : u.pass = q := hagrees.pass
      obtain rfl : stopped = oks.any composite.stopsOn := hagrees.stopped
      rw [run_of_composite hs hk' hu, Arena.evaluate_of_composite hk hq, hsuccesses]
      exact ⟨pass_finish hshape' i _, rfl, status_finish hshape' hlt _⟩

/-- Playing the trees of a fresh forest is evaluating them. -/
theorem agrees_of_fresh {t : Arena} {s : Play} {f : Forest} (hshape : s.tree.arena.shape = t.shape)
    (hf : t.Grows f) (hnodup : f.preorder.Nodup) (hlt : ∀ i ∈ f.preorder, i < t.size)
    {depth : Nat} (hdepth : f.height ≤ depth) (stopsOn : Bool → Bool)
    (hfresh : ∀ i ∈ f.preorder, s.tree.arena.status i = .notEntered) :
    Agrees stopsOn f.roots (runAll (run env a depth) stopsOn s f.roots)
      (Arena.evaluateAll (t.evaluate env a depth) stopsOn s.pass f.roots) := by
  induction f generalizing s depth stopsOn with
  | nil => exact ⟨rfl, rfl, rfl⟩
  | cons i below rest ihBelow ihRest =>
      obtain ⟨hi, hbelow, hrest⟩ := hf
      simp only [Forest.height, Nat.max_le] at hdepth
      simp only [Forest.preorder, List.nodup_cons, List.mem_append, not_or] at hnodup
      simp only [Forest.preorder, List.mem_cons, List.mem_append] at hlt hfresh
      obtain ⟨⟨hmem, hmem'⟩, hnodup⟩ := hnodup
      obtain ⟨depth, rfl⟩ : ∃ d, depth = d + 1 := ⟨depth - 1, by omega⟩
      have hheight : below.height ≤ depth := by omega
      have hnode : s.Keeps (i :: below.preorder) (run env a (depth + 1) s i).1 :=
        keeps_run ((Arena.children_of_shape hshape i).trans hi) (hbelow.of_shape hshape) hheight
      obtain ⟨hpass, hok, hstatus⟩ := run_eq_evaluate_of_below env a hshape hi
        hbelow hmem (hlt i (.inl rfl)) hheight
        (fun j hj => hfresh j ((List.mem_cons.mp hj).imp_right .inl))
        fun u stopsOn hu hu' => ihBelow hu hbelow hnodup.of_append_left
          (fun j hj => hlt j (.inr (.inl hj))) hheight stopsOn hu'
      obtain ⟨u, ok, hu⟩ : ∃ u ok, run env a (depth + 1) s i = (u, ok) := ⟨_, _, rfl⟩
      obtain ⟨q, ok', hq⟩ : ∃ q ok', t.evaluate env a (depth + 1) s.pass i = (q, ok') :=
        ⟨_, _, rfl⟩
      rw [hu] at hpass hok hstatus hnode
      rw [hq] at hpass hok
      obtain rfl : u.pass = q := hpass
      obtain rfl : ok = ok' := hok
      have hfresh' : ∀ j ∈ rest.preorder, u.tree.arena.status j = .notEntered := by
        intro j hj
        have hapart : j ∉ i :: below.preorder := by
          intro hj'
          rcases List.mem_cons.mp hj' with rfl | hj'
          · exact hmem' hj
          · exact List.disjoint_of_nodup_append hnodup hj' hj
        rw [hnode.frame j hapart]
        exact hfresh j (.inr (.inr hj))
      rw [Forest.roots, Arena.evaluateAll, hq]
      cases hstops : stopsOn ok with
      | true =>
          rw [runAll_of_stops hu hstops]
          simp only [hstops, if_true]
          exact agrees_of_stops hstops hstatus fun j hj =>
            hfresh' j (Forest.mem_preorder_of_mem_roots hj)
      | false =>
          have hagrees := ihRest (s := u) (hnode.shape.trans hshape) hrest
            hnodup.of_append_right (fun j hj => hlt j (.inr (.inr hj))) hdepth.2 stopsOn hfresh'
          have hkeeps : u.Keeps rest.preorder
              (runAll (run env a (depth + 1)) stopsOn u rest.roots).1 :=
            keeps_runAll ((hrest.of_shape hshape).of_shape hnode.shape) hdepth.2 stopsOn
          rw [runAll_of_goesOn hu hstops]
          simp only [hstops, Bool.false_eq_true, if_false]
          exact hagrees.cons hstops ((hkeeps.frame i hmem').trans hstatus)

/-- Playing a fresh tree is a pass. -/
theorem run_eq_evaluate {t : Tree} (h : t.Sound) (hfresh : t.Fresh)
    (env : Nat → World → World) (a : AgentId) (w : World) :
    (run env a t.arena.size ⟨t, .start w⟩ t.root).1.pass = (t.evaluate env a w).1 ∧
      (run env a t.arena.size ⟨t, .start w⟩ t.root).2 = (t.evaluate env a w).2 := by
  obtain ⟨below, hspans⟩ := h.exists_spans
  obtain ⟨depth, hdepth⟩ : ∃ d, t.arena.size = d + 1 :=
    ⟨t.arena.size - 1, by have hlt := hspans.height_lt; omega⟩
  have hheight : below.height ≤ depth := by
    have hlt := hspans.height_lt
    omega
  obtain ⟨hmem, hnodup⟩ := List.nodup_cons.mp hspans.nodup
  obtain ⟨hpass, hok, -⟩ := run_eq_evaluate_of_below env a
    (s := ⟨t, .start w⟩) rfl hspans.children hspans.grows hmem h.root_lt hheight
    (fun i _ => hfresh i)
    fun u stopsOn hu hu' => agrees_of_fresh hu hspans.grows hnodup
      (fun i hi => hspans.mem_iff.mp (List.mem_cons_of_mem _ hi)) hheight stopsOn hu'
  rw [Tree.evaluate, hdepth]
  exact ⟨hpass, hok⟩

/-! ### Playing turn by turn -/

/-- A turn of the tree, after which others change the world. -/
def turn (env : Nat → World → World) (a : AgentId) (s : Play) : Play where
  tree := (s.tree.tick s.pass.world a).tree
  pass :=
    s.pass.act env (s.tree.tick s.pass.world a).trace (s.tree.tick s.pass.world a).world

/-- A turn whose first walk halts performs the pending action. -/
theorem tick_of_halted {t : Tree} (h : t.Sound) {w : World}
    (hend : (t.firstWalk w a).ending = .halted) :
    t.walks w a = t.firstWalk w a ∧ ∃ action, (t.walks w a).tree.pending? = some action := by
  have hwalks := Tree.walks_of_halted hend
  rw [hwalks]
  exact ⟨rfl, Option.isSome_iff_exists.mp ((h.firstWalk_passes w a).halts hend).2.1⟩

/-- It records the action last, and no other one. -/
theorem trace_tick_of_halted {t : Tree} (h : t.Sound) {w : World}
    (hend : (t.firstWalk w a).ending = .halted) :
    ∃ before e, (t.tick w a).trace = before ++ [e] ∧
      (∀ e ∈ before, e.kind.isAction = false) ∧ e.kind.isAction = true := by
  obtain ⟨-, action, hpending⟩ := tick_of_halted h hend
  rw [Tree.tick_of_pending hpending]
  exact ⟨_, _, rfl, fun e he => ((h.walks_passes w a).records e he).isAction, rfl⟩

/-- As a step of a play it is the walk and its action. -/
theorem turn_of_halted (env : Nat → World → World) {s : Play} (h : s.tree.Sound)
    (hend : (s.tree.firstWalk s.pass.world a).ending = .halted) :
    s.turn env a =
      (s.after (s.tree.firstWalk s.pass.world a)).performPending env a := by
  obtain ⟨hwalks, action, hpending⟩ := tick_of_halted h hend
  rw [turn, Tree.tick_of_pending hpending, hwalks, performPending]
  rw [hwalks] at hpending
  have hkind := Tree.kind_of_pending? hpending
  simp only [after, hpending, perform, Tree.finish, Tree.entryFor, hkind, Pass.act, Pass.log,
    List.append_assoc]
  rfl

/-- Playing a tree comes to the same after a turn whose first walk halts. -/
theorem run_turn {s : Play} (h : s.tree.Sound)
    (hend : (s.tree.firstWalk s.pass.world a).ending = .halted) :
    run env a s.tree.arena.size (s.turn env a) s.tree.root =
      run env a s.tree.arena.size s s.tree.root := by
  obtain ⟨below, hspans⟩ := h.exists_spans
  have hheight := hspans.height_lt
  obtain ⟨depth, hdepth⟩ : ∃ d, s.tree.arena.size = d + 1 := ⟨s.tree.arena.size - 1, by omega⟩
  rw [turn_of_halted env h hend, Tree.firstWalk, hdepth]
  rw [Tree.firstWalk, hdepth] at hend
  exact (run_of_halted_walk hspans.children hspans.grows hspans.nodup
    (fun j hj => hspans.mem_iff.mp hj) (by omega) hend).symm

/-- Playing a tree only adds to the pass. -/
theorem keeps_run_root (env : Nat → World → World) (a : AgentId) {s : Play}
    (h : s.tree.Sound) :
    s.Keeps s.tree.preorder (run env a s.tree.arena.size s s.tree.root).1 := by
  obtain ⟨below, hspans⟩ := h.exists_spans
  have hheight := hspans.height_lt
  obtain ⟨depth, hdepth⟩ : ∃ d, s.tree.arena.size = d + 1 := ⟨s.tree.arena.size - 1, by omega⟩
  rw [hdepth, hspans.preorder_eq]
  exact keeps_run hspans.children hspans.grows (by omega)

/-- The play before turn number `k`, counted from zero. -/
def turns (env : Nat → World → World) (a : AgentId) (s : Play) : Nat → Play
  | 0 => s
  | k + 1 => (s.turns env a k).turn env a

/-- A play some halting turns after its start: it comes to the same as the play at the
start, and the log so far consists of one piece for each turn. -/
structure Stage (env : Nat → World → World) (a : AgentId) (start : Play) (k : Nat) (s : Play) :
    Prop where
  sound : s.tree.Sound
  size : s.tree.arena.size = start.tree.arena.size
  root : s.tree.root = start.tree.root
  run_eq : run env a start.tree.arena.size s start.tree.root =
    run env a start.tree.arena.size start start.tree.root
  pieces : ∃ cut : List Trace, s.pass.trace.pieces = (cut, []) ∧ cut.length = k
  acted : s.pass.acted.length = k

namespace Stage

variable {start s : Play} {k : Nat}

/-- A turn that halts leads to the next stage. -/
theorem turn (h : Stage env a start k s)
    (hend : (s.tree.firstWalk s.pass.world a).ending = .halted) :
    Stage env a start (k + 1) (s.turn env a) where
  sound := h.sound.tick ..
  size := (h.sound.tick_keeps ..).size.trans h.size
  root := (h.sound.tick_keeps ..).root.trans h.root
  run_eq := by
    rw [← h.run_eq, ← h.size, ← h.root]
    exact run_turn h.sound hend
  pieces := by
    obtain ⟨cut, hcut, hlength⟩ := h.pieces
    obtain ⟨before, e, htrace, hbefore, he⟩ := trace_tick_of_halted h.sound hend
    refine ⟨cut ++ [before ++ [e]], ?_, by rw [List.length_append, hlength]; rfl⟩
    change Trace.pieces (s.pass.trace ++ _) = _
    rw [htrace, Trace.pieces_append hcut, Trace.pieces_append_singleton hbefore he]
  acted := by
    change (s.pass.acted ++ [_]).length = k + 1
    rw [List.length_append, h.acted]
    rfl

/-- A stage before the last action of the play halts. -/
theorem halts_of_lt (h : Stage env a start k s)
    (hlt : k < (run env a start.tree.arena.size start start.tree.root).1.pass.acted.length) :
    (s.tree.firstWalk s.pass.world a).ending = .halted := by
  cases hend : (s.tree.firstWalk s.pass.world a).ending with
  | halted => rfl
  | finished ok =>
      have hrun := run_of_finished_walk env hend
      rw [h.size, h.root, h.run_eq] at hrun
      rw [hrun] at hlt
      exact absurd h.acted (Nat.ne_of_gt hlt)

/-- A stage behind the last action of the play ends it. -/
theorem run_eq_of_length_le (h : Stage env a start k s)
    (hle : (run env a start.tree.arena.size start start.tree.root).1.pass.acted.length ≤ k) :
    ∃ ok, (s.tree.firstWalk s.pass.world a).ending = .finished ok ∧
      run env a start.tree.arena.size start start.tree.root =
        (s.after (s.tree.firstWalk s.pass.world a), ok) := by
  cases hend : (s.tree.firstWalk s.pass.world a).ending with
  | halted =>
      have hnext := h.turn hend
      have hkeeps := keeps_run_root env a hnext.sound
      rw [hnext.size, hnext.root, hnext.run_eq] at hkeeps
      have hlength := hkeeps.acted.length_le
      rw [hnext.acted] at hlength
      omega
  | finished ok =>
      have hrun := run_of_finished_walk env hend
      rw [h.size, h.root, h.run_eq] at hrun
      refine ⟨ok, rfl, ?_⟩
      rw [Tree.firstWalk, h.size, h.root]
      exact hrun

/-- What a stage has of the log and of the worlds is in those of the whole play. -/
theorem keeps (h : Stage env a start k s) :
    s.Keeps s.tree.preorder (run env a start.tree.arena.size start start.tree.root).1 := by
  have hkeeps := keeps_run_root env a h.sound
  rwa [h.size, h.root, h.run_eq] at hkeeps

/-- The turn of a stage that halts records the next piece of the log. -/
theorem getElem?_pieces (h : Stage env a start k s)
    (hend : (s.tree.firstWalk s.pass.world a).ending = .halted) :
    (run env a start.tree.arena.size start
        start.tree.root).1.pass.trace.pieces.1[k]? =
      some (s.tree.tick s.pass.world a).trace := by
  obtain ⟨rest, hrest⟩ := (h.turn hend).keeps.trace
  obtain ⟨cut, hcut, hlength⟩ := h.pieces
  obtain ⟨before, e, htrace, hbefore, he⟩ := trace_tick_of_halted h.sound hend
  have hpiece : Trace.pieces (s.tree.tick s.pass.world a).trace =
      ([(s.tree.tick s.pass.world a).trace], []) := by
    rw [htrace]
    exact Trace.pieces_append_singleton hbefore he
  rw [← hrest]
  change (Trace.pieces ((s.pass.trace ++ (s.tree.tick s.pass.world a).trace) ++ rest)).1[k]? = _
  rw [List.append_assoc, Trace.pieces_append hcut, Trace.pieces_append hpiece]
  simp [← hlength]

/-- It leaves the world that the next action of the play leaves. -/
theorem getElem?_acted (h : Stage env a start k s)
    (hend : (s.tree.firstWalk s.pass.world a).ending = .halted) :
    (run env a start.tree.arena.size start start.tree.root).1.pass.acted[k]? =
      some (s.tree.tick s.pass.world a).world := by
  obtain ⟨rest, hrest⟩ := (h.turn hend).keeps.acted
  rw [← hrest]
  change ((s.pass.acted ++ [(s.tree.tick s.pass.world a).world]) ++ rest)[k]? = _
  simp [← h.acted]

/-- At the end of the play the log has a piece for each stage, and the last walk records its
remainder. -/
theorem pieces_of_finished (h : Stage env a start k s) {ok : Bool}
    (hrun : run env a start.tree.arena.size start start.tree.root =
      (s.after (s.tree.firstWalk s.pass.world a), ok)) :
    (run env a start.tree.arena.size start
        start.tree.root).1.pass.trace.pieces.1.length = k ∧
      (run env a start.tree.arena.size start start.tree.root).1.pass.trace.pieces.2 =
        (s.tree.firstWalk s.pass.world a).trace := by
  obtain ⟨cut, hcut, hlength⟩ := h.pieces
  have hpasses := h.sound.firstWalk_passes s.pass.world a
  rw [hrun]
  change (Trace.pieces (s.pass.trace ++ (s.tree.firstWalk s.pass.world a).trace)).1.length = k ∧
    (Trace.pieces (s.pass.trace ++ (s.tree.firstWalk s.pass.world a).trace)).2 = _
  rw [Trace.pieces_append hcut,
    Trace.pieces_eq_of_forall fun e he => (hpasses.records e he).isAction, List.append_nil]
  exact ⟨hlength, rfl⟩

end Stage

/-- Up to the last action of the play, each turn leads to the next stage. -/
theorem stage_turns {start : Play} (h : start.tree.Sound) (hstart : start.pass.trace = [])
    (hacted : start.pass.acted = []) {k : Nat}
    (hk : k ≤ (run env a start.tree.arena.size start start.tree.root).1.pass.acted.length) :
    Stage env a start k (start.turns env a k) := by
  induction k with
  | zero =>
      refine ⟨h, rfl, rfl, rfl, ⟨[], ?_, rfl⟩, ?_⟩
      · rw [turns, hstart, Trace.pieces]
      · rw [turns, hacted]
        rfl
  | succ k ih =>
      have hstage := ih (Nat.le_of_succ_le hk)
      exact hstage.turn (hstage.halts_of_lt hk)

end Play

/-! ### Turns and the pass -/

namespace Tree

/-- The tree and the world before turn number `k`, counted from zero. Right after turn
number `k` the world is changed by `env k`. -/
def played (t : Tree) (env : Nat → World → World) (a : AgentId) (w : World) :
    Nat → Tree × World
  | 0 => (t, w)
  | k + 1 =>
    let (u, v) := t.played env a w k
    let turn := u.tick v a
    (turn.tree, env k turn.world)

/-- The tree and the world before a turn are those of the play. -/
theorem played_eq_turns (t : Tree) (env : Nat → World → World) (a : AgentId) (w : World)
    (k : Nat) :
    t.played env a w k =
        (((Play.mk t (.start w)).turns env a k).tree,
          ((Play.mk t (.start w)).turns env a k).pass.world) ∧
      ((Play.mk t (.start w)).turns env a k).pass.acted.length = k := by
  induction k with
  | zero => exact ⟨rfl, rfl⟩
  | succ k ih =>
      obtain ⟨hplayed, hlength⟩ := ih
      rw [played, hplayed, Play.turns, Play.turn, Pass.act, hlength, List.length_append, hlength]
      exact ⟨rfl, rfl⟩

/-- The turns of a tree make up its pass: a turn for each action, and the walk that comes to
the end of the tree after the last of them. -/
structure TurnsMakeUpPass (t : Tree) (env : Nat → World → World) (a : AgentId) (w : World) :
    Prop where
  /-- The log has one piece for each action. -/
  pieces : (t.evaluate env a w).1.trace.pieces.1.length = (t.evaluate env a w).1.acted.length
  /-- Each of the turns halts in its first walk. -/
  halts : ∀ k < (t.evaluate env a w).1.acted.length,
    ((t.played env a w k).1.firstWalk (t.played env a w k).2 a).ending = .halted
  /-- It records the piece of the log up to its action. -/
  trace : ∀ k < (t.evaluate env a w).1.acted.length,
    (t.evaluate env a w).1.trace.pieces.1[k]? =
      some ((t.played env a w k).1.tick (t.played env a w k).2 a).trace
  /-- It leaves the world that the action leaves in the pass. -/
  world : ∀ k < (t.evaluate env a w).1.acted.length,
    (t.evaluate env a w).1.acted[k]? =
      some ((t.played env a w k).1.tick (t.played env a w k).2 a).world
  /-- The walk after all actions comes to the end of the tree, with the outcome of the
  pass. -/
  finishes :
    ((t.played env a w (t.evaluate env a w).1.acted.length).1.firstWalk
      (t.played env a w (t.evaluate env a w).1.acted.length).2 a).ending =
        .finished (t.evaluate env a w).2
  /-- It records the remainder of the log. -/
  remainder :
    ((t.played env a w (t.evaluate env a w).1.acted.length).1.firstWalk
      (t.played env a w (t.evaluate env a w).1.acted.length).2 a).trace =
        (t.evaluate env a w).1.trace.pieces.2
  /-- It is made in the world that the pass leaves. -/
  last : (t.played env a w (t.evaluate env a w).1.acted.length).2 = (t.evaluate env a w).1.world

/-- **The turns of a fresh tree make up one pass**, whatever the others do to the world
between them. -/
theorem Reachable.turns_make_up_pass {Admitted : NodeSpec → Prop} {t : Tree}
    (h : t.Reachable Admitted) (hfresh : t.Fresh) (env : Nat → World → World) (a : AgentId)
    (w : World) : t.TurnsMakeUpPass env a w := by
  obtain ⟨hpass, hok⟩ := Play.run_eq_evaluate h.sound hfresh env a w
  have hstage {k : Nat} (hk : k ≤ (t.evaluate env a w).1.acted.length) :
      Play.Stage env a ⟨t, .start w⟩ k ((Play.mk t (.start w)).turns env a k) :=
    Play.stage_turns h.sound rfl rfl (by rw [hpass]; exact hk)
  have hhalts {k : Nat} (hk : k < (t.evaluate env a w).1.acted.length) :=
    (hstage (Nat.le_of_lt hk)).halts_of_lt (by rw [hpass]; exact hk)
  obtain ⟨ok, hend, hrun⟩ := (hstage (Nat.le_refl _)).run_eq_of_length_le (by rw [hpass])
  obtain ⟨hlength, hremainder⟩ := (hstage (Nat.le_refl _)).pieces_of_finished hrun
  rw [hpass] at hlength hremainder
  obtain rfl : (t.evaluate env a w).2 = ok := by rw [← hok, hrun]
  have hworld : (t.evaluate env a w).1.world =
      ((Play.mk t (.start w)).turns env a (t.evaluate env a w).1.acted.length).pass.world :=
    (congrArg Pass.world hpass).symm.trans
      (congrArg (fun played : Play × Bool => played.1.pass.world) hrun)
  refine ⟨hlength, ?_, ?_, ?_, ?_, ?_, ?_⟩
  · intro k hk
    rw [(played_eq_turns t env a w k).1]
    exact hhalts hk
  · intro k hk
    rw [(played_eq_turns t env a w k).1, ← hpass]
    exact (hstage (Nat.le_of_lt hk)).getElem?_pieces (hhalts hk)
  · intro k hk
    rw [(played_eq_turns t env a w k).1, ← hpass]
    exact (hstage (Nat.le_of_lt hk)).getElem?_acted (hhalts hk)
  · rw [(played_eq_turns t env a w _).1]
    exact hend
  · rw [(played_eq_turns t env a w _).1]
    exact hremainder.symm
  · rw [(played_eq_turns t env a w _).1]
    exact hworld.symm

/-- Two turns and the walk after them make up a pass with two actions, between which another
ladybug turns. -/
theorem turns_make_up_pass_of_two :
    let w : World :=
      ⟨Grid.blank 3 1, Colony.ofSpawns [⟨⟨0, 0⟩, .right⟩, ⟨⟨2, 0⟩, .left⟩]⟩
    let env : Nat → World → World := fun _ w => w.turn ⟨2⟩ Direction.turnLeft
    ∃ t : Tree,
      Flowchart.readTrees
        ["flowchart TD", "A[->] --> B[?]", "B --> C([treeFront])", "B --> D[move]",
          "A --> E[placeLeaf]"] 2 = .ok [t] ∧
      (t.evaluate env .first w).1.acted.length = 2 ∧ t.Fresh ∧
      t.TurnsMakeUpPass env .first w := by
  intro w env
  have hpass (t : Tree)
      (ht : Flowchart.readTrees
        ["flowchart TD", "A[->] --> B[?]", "B --> C([treeFront])", "B --> D[move]",
          "A --> E[placeLeaf]"] 2 = .ok [t]) : t.Fresh ∧ t.TurnsMakeUpPass env .first w := by
    have hfresh := Flowchart.fresh_of_readTrees ht List.mem_cons_self
    have hread : Reachable (fun _ => True) t := .read ht List.mem_cons_self
    exact ⟨hfresh, hread.turns_make_up_pass hfresh env .first w⟩
  exact ⟨_, rfl, by decide, hpass _ rfl⟩

end Tree

end Ladybug
