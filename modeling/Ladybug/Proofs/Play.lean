import Ladybug.Proofs.OnePass

/-!
# Playing a tree

Between the turns of a tree and one pass through it stands a *play*, which walks a tree as a
turn does, statuses and all, but performs an action at once and goes on. A play reads the
statuses only to pass over nodes that have ended. So it comes to the same whether a tree is
played at once or only after a turn that halted: what the turn has done is passed over, and
the composites on the way to its action are running already and are not entered again.

## Main definitions

* `Play` — a tree together with a pass; `Play.run` plays the tree.
* `Play.performPending` — the end of a turn that halted.
* `Play.Keeps` — what a play of some nodes leaves as it was.

## Main results

* `Play.run_of_finished_walk` — a walk that does not halt is a play without actions.
* `Play.runAll_of_halted_scan` — a play of a forest may begin with a turn that halts there.
* `Play.run_of_halted_walk` — so may the play of a tree.
* `Play.keeps_run` — a play keeps what is not below its node, and adds to the pass.
-/

namespace Ladybug

/-! ### Plays -/

/-- A tree in the middle of a pass. -/
structure Play where
  tree : Tree
  pass : Pass

namespace Play

/-- The play after a stretch of a walk. -/
def after {ε : Type} (s : Play) (walk : Walk ε) : Play := ⟨walk.tree, s.pass.log walk.trace⟩

/-- Enters a composite. -/
def enter (s : Play) (a : AgentId) (i : NodeIdx) : Play :=
  ⟨(s.tree.enter a i).1, s.pass.log (s.tree.enter a i).2⟩

/-- Ends a node with an outcome. -/
def finish (s : Play) (a : AgentId) (i : NodeIdx) (ok : Bool) : Play :=
  s.after (s.tree.finish a i ok)

/-- Performs an action as the end of a turn does. -/
def perform (env : Nat → World → World) (s : Play) (a : AgentId) (i : NodeIdx)
    (action : Action) : Play where
  tree :=
    { (s.tree.finish a i (action.perform s.pass.world a).2).tree with
      current := i, jumped := false }
  pass :=
    s.pass.act env (s.tree.finish a i (action.perform s.pass.world a).2).trace
      (action.perform s.pass.world a).1

/-- Performs the action under the resume pointer. -/
def performPending (env : Nat → World → World) (s : Play) (a : AgentId) : Play :=
  match s.tree.pending? with
  | none => s
  | some action => s.perform env a s.tree.current action

/-- Plays nodes from left to right, up to one whose outcome stops that. -/
def runAll (visit : Play → NodeIdx → Play × Bool) (stopsOn : Bool → Bool) :
    Play → List NodeIdx → Play × Bool
  | s, [] => (s, false)
  | s, i :: rest =>
    let (u, ok) := visit s i
    if stopsOn ok then (u, true) else runAll visit stopsOn u rest

/-- Plays a node and everything below it, down to the given depth: the walk of a turn that
does not halt at actions. -/
def run (env : Nat → World → World) (a : AgentId) : Nat → Play → NodeIdx → Play × Bool
  | 0, s, _ => (s, false)
  | depth + 1, s, i =>
    match (s.tree.arena.status i).outcome?, s.tree.arena.kind i with
    | some ok, _ => (s, ok)
    | none, .action action => (s.perform env a i action, (action.perform s.pass.world a).2)
    | none, .condition condition =>
      (s.finish a i (condition.holds s.pass.world a), condition.holds s.pass.world a)
    | none, .composite composite =>
      let (u, stopped) :=
        runAll (run env a depth) composite.stopsOn (s.enter a i) (s.tree.arena.children i)
      let ok := composite.verdict stopped (u.tree.successes i)
      (u.finish a i ok, ok)

variable {env : Nat → World → World} {a : AgentId}

/-! ### The cases of a play -/

/-- A node that has ended keeps its outcome. -/
theorem run_of_finished {s : Play} {i : NodeIdx} {ok : Bool}
    (h : (s.tree.arena.status i).outcome? = some ok) (depth : Nat) :
    run env a (depth + 1) s i = (s, ok) := by
  rw [run, h]

/-- An action is performed. -/
theorem run_of_action {s : Play} {i : NodeIdx} {action : Action}
    (h : (s.tree.arena.status i).outcome? = none)
    (hkind : s.tree.arena.kind i = .action action) (depth : Nat) :
    run env a (depth + 1) s i =
      (s.perform env a i action, (action.perform s.pass.world a).2) := by
  rw [run, h, hkind]

/-- A condition is asked. -/
theorem run_of_condition {s : Play} {i : NodeIdx} {condition : Condition}
    (h : (s.tree.arena.status i).outcome? = none)
    (hkind : s.tree.arena.kind i = .condition condition) (depth : Nat) :
    run env a (depth + 1) s i =
      (s.finish a i (condition.holds s.pass.world a), condition.holds s.pass.world a) := by
  rw [run, h, hkind]

/-- A composite is entered, its children are played, and it ends. -/
theorem run_of_composite {s u : Play} {i : NodeIdx} {composite : Composite} {stopped : Bool}
    (h : (s.tree.arena.status i).outcome? = none)
    (hkind : s.tree.arena.kind i = .composite composite) {depth : Nat}
    (hall : runAll (run env a depth) composite.stopsOn (s.enter a i)
      (s.tree.arena.children i) = (u, stopped)) :
    run env a (depth + 1) s i =
      (u.finish a i (composite.verdict stopped (u.tree.successes i)),
        composite.verdict stopped (u.tree.successes i)) := by
  rw [run, h, hkind]
  simp only [hall]

section RunAll

variable {visit : Play → NodeIdx → Play × Bool} {stopsOn : Bool → Bool} {s u : Play}
  {i : NodeIdx} {ok : Bool}

theorem runAll_of_stops (h : visit s i = (u, ok)) (hstops : stopsOn ok = true)
    (rest : List NodeIdx) : runAll visit stopsOn s (i :: rest) = (u, true) := by
  rw [runAll, h]
  simp only [hstops, if_true]

theorem runAll_of_goesOn (h : visit s i = (u, ok)) (hstops : stopsOn ok = false)
    (rest : List NodeIdx) :
    runAll visit stopsOn s (i :: rest) = runAll visit stopsOn u rest := by
  rw [runAll, h]
  simp only [hstops, Bool.false_eq_true, if_false]

end RunAll

/-- Stretches of walks may be joined before they are played or after. -/
theorem after_after {ε ε' : Type} (s : Play) (first : Walk ε) (second : Walk ε') :
    s.after (second.after first.trace) = (s.after first).after second := by
  simp only [after, Walk.after, Pass.log, List.append_assoc]

/-! ### Walks that do not halt -/

/-- Going through nodes without a halt is playing them, if the same holds of each node. -/
theorem runAll_of_scan {visit : Tree → NodeIdx → Walk WalkEnd}
    {play : Play → NodeIdx → Play × Bool} {w : World}
    (h : ∀ (s : Play) (i : NodeIdx) (ok : Bool), s.pass.world = w →
      (visit s.tree i).ending = .finished ok → play s i = (s.after (visit s.tree i), ok))
    {stopsOn : Bool → Bool} {is : List NodeIdx} {s : Play} (hw : s.pass.world = w)
    (hend : (Tree.scan visit stopsOn s.tree is).ending ≠ .halted) :
    runAll play stopsOn s is =
      (s.after (Tree.scan visit stopsOn s.tree is),
        decide ((Tree.scan visit stopsOn s.tree is).ending = .stopped)) := by
  induction is generalizing s with
  | nil => simp [runAll, Tree.scan, after, Pass.log]
  | cons i rest ih =>
      cases hvisit : (visit s.tree i).ending with
      | halted =>
          rw [Tree.scan_of_halted hvisit] at hend
          exact absurd rfl hend
      | finished ok =>
          have hplay := h s i ok hw hvisit
          cases hstops : stopsOn ok with
          | true =>
              rw [runAll_of_stops hplay hstops, Tree.scan_of_stops hvisit hstops]
              rfl
          | false =>
              rw [Tree.scan_of_goesOn hvisit hstops] at hend ⊢
              rw [runAll_of_goesOn hplay hstops, after_after]
              exact ih (s := s.after (visit s.tree i)) hw hend

/-- A walk that does not halt is a play without actions. -/
theorem run_of_finished_walk (env : Nat → World → World) {depth : Nat} {s : Play} {i : NodeIdx}
    {ok : Bool}
    (hend : (Tree.walk s.pass.world a depth s.tree i).ending = .finished ok) :
    run env a depth s i = (s.after (Tree.walk s.pass.world a depth s.tree i), ok) := by
  induction depth generalizing s i ok with
  | zero => cases hend
  | succ depth ih =>
      cases hs : (s.tree.arena.status i).outcome? with
      | some old =>
          rw [Tree.walk_of_finished hs] at hend ⊢
          obtain rfl := WalkEnd.finished.inj hend
          rw [run_of_finished hs, after, Pass.log, List.append_nil]
      | none =>
          cases hk : s.tree.arena.kind i with
          | action action =>
              rw [Tree.walk_of_action hs hk] at hend
              cases hend
          | condition condition =>
              rw [Tree.walk_of_condition hs hk] at hend ⊢
              obtain rfl := WalkEnd.finished.inj hend
              rw [run_of_condition hs hk, finish]
          | composite composite =>
              rw [Tree.walk_of_composite hs hk] at hend ⊢
              by_cases hhalted : (Tree.scan (Tree.walk s.pass.world a depth) composite.stopsOn
                  (s.tree.enter a i).1 (s.tree.arena.children i)).ending = .halted
              · rw [Tree.conclude_of_halted hhalted] at hend
                cases hend
              · rw [Tree.conclude_of_not_halted hhalted] at hend ⊢
                obtain rfl := WalkEnd.finished.inj hend
                have hall := runAll_of_scan (w := s.pass.world)
                  (fun u j ok hw hj => by rw [← hw] at hj ⊢; exact ih hj) (s := s.enter a i) rfl
                  hhalted
                rw [run_of_composite hs hk hall]
                simp only [finish, after, enter, Walk.after, Tree.finish, Pass.log,
                  List.append_assoc]
                rfl

/-! ### Walks that halt -/

/-- Performing the pending action keeps the shape of the tree. -/
theorem shape_performPending (s : Play) :
    (s.performPending env a).tree.arena.shape = s.tree.arena.shape := by
  rw [performPending]
  split
  · rfl
  · exact Arena.shape_setStatus ..

/-- Performing the pending action changes no status but that of the action. -/
theorem status_performPending_of_ne (s : Play) {i : NodeIdx} (h : i ≠ s.tree.current) :
    (s.performPending env a).tree.arena.status i = s.tree.arena.status i := by
  rw [performPending]
  split
  · rfl
  · exact Arena.status_setStatus_of_ne _ h _

/-- Entering a composite that has not ended leaves it running. -/
theorem status_enter {s : Play} {i : NodeIdx} (hlt : i < s.tree.arena.size)
    (h : (s.tree.arena.status i).outcome? = none) :
    (s.enter a i).tree.arena.status i = .running := Tree.status_enter_self hlt h

/-- A composite that is running is not entered again. -/
theorem enter_of_running {s : Play} {i : NodeIdx} (h : s.tree.arena.status i = .running) :
    s.enter a i = s := by
  rw [enter, Tree.enter, h]
  simp [Pass.log]

/-- Playing an action comes to the same if the turn that halts at it is done first. -/
theorem run_of_halted_action {s : Play} {i : NodeIdx} {action : Action}
    (hlt : i < s.tree.arena.size) (hs : (s.tree.arena.status i).outcome? = none)
    (hk : s.tree.arena.kind i = .action action) (depth : Nat) :
    run env a (depth + 1) s i =
      run env a (depth + 1)
        ((s.after (Tree.walk s.pass.world a (depth + 1) s.tree i)).performPending env a) i := by
  have hplay : (s.after (Tree.walk s.pass.world a (depth + 1) s.tree i)).performPending env a =
      s.perform env a i action := by
    have hpending : Tree.pending? { s.tree with current := i } = some action := by
      rw [Tree.pending?, hk]
    rw [Tree.walk_of_action hs hk, after, performPending, hpending, Pass.log, List.append_nil]
    rfl
  have hstatus : ((s.perform env a i action).tree.arena.status i).outcome? =
      some (action.perform s.pass.world a).2 := by
    rw [perform, Tree.finish, Tree.setStatus]
    rw [Arena.status_setStatus hlt, if_pos rfl, Status.outcome?_ofOutcome]
  rw [hplay, run_of_finished hstatus, run_of_action hs hk]

/-- A walk that halts below a composite has entered it and halts among its children. -/
theorem after_walk_of_halted_composite {s : Play} {i : NodeIdx} {composite : Composite}
    {depth : Nat} {scanned : Walk ScanEnd} (hs : (s.tree.arena.status i).outcome? = none)
    (hk : s.tree.arena.kind i = .composite composite)
    (hscanned : Tree.scan (Tree.walk s.pass.world a depth) composite.stopsOn
      (s.enter a i).tree (s.tree.arena.children i) = scanned)
    (hend : (Tree.walk s.pass.world a (depth + 1) s.tree i).ending = .halted) :
    scanned.ending = .halted ∧
      s.after (Tree.walk s.pass.world a (depth + 1) s.tree i) =
        (s.enter a i).after scanned := by
  rw [enter] at hscanned
  rw [Tree.walk_of_composite hs hk, hscanned] at hend ⊢
  by_cases hhalted : scanned.ending = .halted
  · rw [Tree.conclude_of_halted hhalted]
    exact ⟨hhalted, by simp only [after, Walk.after, Pass.log, enter, List.append_assoc]⟩
  · rw [Tree.conclude_of_not_halted hhalted] at hend
    cases hend

/-- Playing a node comes to the same if a turn that halts below it is done first, provided
that this is so of the forest below the node. -/
theorem run_of_halted_walk_of_below {s : Play} {i : NodeIdx} {below : Forest} {depth : Nat}
    (hi : s.tree.arena.children i = below.roots) (hgrows : s.tree.arena.Grows below)
    (hmem : i ∉ below.preorder) (hlt : i < s.tree.arena.size) (hdepth : below.height ≤ depth)
    (hbelow : ∀ (u : Play) (stopsOn : Bool → Bool), u.tree.arena.shape = s.tree.arena.shape →
      (Tree.scan (Tree.walk u.pass.world a depth) stopsOn u.tree below.roots).ending = .halted →
      runAll (run env a depth) stopsOn u below.roots =
        runAll (run env a depth) stopsOn
          ((u.after (Tree.scan (Tree.walk u.pass.world a depth) stopsOn u.tree
            below.roots)).performPending env a) below.roots)
    (hend : (Tree.walk s.pass.world a (depth + 1) s.tree i).ending = .halted) :
    run env a (depth + 1) s i =
      run env a (depth + 1)
        ((s.after (Tree.walk s.pass.world a (depth + 1) s.tree i)).performPending env a) i := by
  cases hs : (s.tree.arena.status i).outcome? with
  | some ok =>
      rw [Tree.walk_of_finished hs] at hend
      cases hend
  | none =>
      cases hk : s.tree.arena.kind i with
      | action action => exact run_of_halted_action hlt hs hk depth
      | condition condition =>
          rw [Tree.walk_of_condition hs hk] at hend
          cases hend
      | composite composite =>
          obtain ⟨scanned, hscanned⟩ : ∃ scanned, Tree.scan (Tree.walk s.pass.world a depth)
              composite.stopsOn (s.enter a i).tree (s.tree.arena.children i) = scanned := ⟨_, rfl⟩
          obtain ⟨hhalted, hwalk⟩ := after_walk_of_halted_composite hs hk hscanned hend
          have henter : Tree.Passes s.pass.world a s.tree [i] (s.tree.enter a i).2
              (s.enter a i).tree False :=
            .enter List.mem_cons_self hk
          have hscan := Tree.scan_passes (w := s.pass.world) (a := a)
            (hgrows.of_shape henter.shape) hdepth composite.stopsOn
          have hsame := hbelow (s.enter a i) composite.stopsOn henter.shape
          rw [← hi, show (s.enter a i).pass.world = s.pass.world from rfl, hscanned] at hsame
          rw [← hi, hscanned] at hscan
          have hcurrent : scanned.tree.current ∈ below.preorder := (hscan.halts hhalted).1
          rw [hwalk]
          obtain ⟨v, hv⟩ : ∃ v, ((s.enter a i).after scanned).performPending env a = v := ⟨_, rfl⟩
          have hshape : v.tree.arena.shape = s.tree.arena.shape :=
            hv ▸ (shape_performPending _).trans (hscan.shape.trans henter.shape)
          -- The composite is running already when its children are played again.
          have hrunning : v.tree.arena.status i = .running := by
            rw [← hv, status_performPending_of_ne _ (ne_of_mem_of_not_mem hcurrent hmem).symm]
            exact (hscan.frame i hmem).trans (status_enter hlt hs)
          have hs' : (v.tree.arena.status i).outcome? = none := by rw [hrunning]; rfl
          have hk' : v.tree.arena.kind i = .composite composite :=
            (Arena.kind_of_shape hshape i).trans hk
          rw [hv] at hsame ⊢
          have hall : runAll (run env a depth) composite.stopsOn (v.enter a i)
              (v.tree.arena.children i) =
              runAll (run env a depth) composite.stopsOn (s.enter a i)
                (s.tree.arena.children i) := by
            rw [enter_of_running hrunning, Arena.children_of_shape hshape, hsame hhalted]
          rw [run_of_composite hs hk rfl, run_of_composite hs' hk' hall]

/-- Going through nodes goes on behind one that does not stop it. -/
theorem after_scan_of_goesOn {visit : Tree → NodeIdx → Walk WalkEnd} {stopsOn : Bool → Bool}
    {s : Play} {i : NodeIdx} {ok : Bool} (h : (visit s.tree i).ending = .finished ok)
    (hstops : stopsOn ok = false) (rest : List NodeIdx) :
    (Tree.scan visit stopsOn s.tree (i :: rest)).ending =
        (Tree.scan visit stopsOn (s.after (visit s.tree i)).tree rest).ending ∧
      s.after (Tree.scan visit stopsOn s.tree (i :: rest)) =
        (s.after (visit s.tree i)).after
          (Tree.scan visit stopsOn (s.after (visit s.tree i)).tree rest) := by
  rw [Tree.scan_of_goesOn h hstops, after_after]
  exact ⟨rfl, rfl⟩

/-- A node that has ended is passed over once a turn has halted behind it. -/
theorem runAll_of_halted_rest {s : Play} {w : World} {i : NodeIdx} {rest : Forest} {depth : Nat}
    {stopsOn : Bool → Bool} {ok : Bool} (hrest : s.tree.arena.Grows rest)
    (hmem : i ∉ rest.preorder) (hdepth : rest.height ≤ depth + 1)
    (houtcome : (s.tree.arena.status i).outcome? = some ok) (hstops : stopsOn ok = false)
    (hend : (Tree.scan (Tree.walk w a (depth + 1)) stopsOn s.tree rest.roots).ending =
      .halted) :
    runAll (run env a (depth + 1)) stopsOn
        ((s.after (Tree.scan (Tree.walk w a (depth + 1)) stopsOn s.tree
          rest.roots)).performPending env a) (i :: rest.roots) =
      runAll (run env a (depth + 1)) stopsOn
        ((s.after (Tree.scan (Tree.walk w a (depth + 1)) stopsOn s.tree
          rest.roots)).performPending env a) rest.roots := by
  have hscan := Tree.scan_passes (w := w) (a := a) hrest hdepth stopsOn
  have hcurrent := (hscan.halts hend).1
  refine runAll_of_goesOn (run_of_finished ?_ depth) hstops _
  rw [status_performPending_of_ne _ (ne_of_mem_of_not_mem hcurrent hmem).symm, ← houtcome]
  exact congrArg Status.outcome? (hscan.frame i hmem)

/-- Playing the trees of a forest comes to the same if a turn that halts in the forest is
done first. -/
theorem runAll_of_halted_scan {s : Play} {w : World} (hw : s.pass.world = w) {f : Forest}
    (hf : s.tree.arena.Grows f)
    (hnodup : f.preorder.Nodup) (hlt : ∀ i ∈ f.preorder, i < s.tree.arena.size) {depth : Nat}
    (hdepth : f.height ≤ depth) {stopsOn : Bool → Bool}
    (hend : (Tree.scan (Tree.walk w a depth) stopsOn s.tree f.roots).ending =
      .halted) :
    runAll (run env a depth) stopsOn s f.roots =
      runAll (run env a depth) stopsOn
        ((s.after (Tree.scan (Tree.walk w a depth) stopsOn s.tree
          f.roots)).performPending env a) f.roots := by
  induction f generalizing s w depth stopsOn with
  | nil => cases hend
  | cons i below rest ihBelow ihRest =>
      subst hw
      obtain ⟨hi, hbelow, hrest⟩ := hf
      simp only [Forest.height, Nat.max_le] at hdepth
      simp only [Forest.preorder, List.nodup_cons, List.mem_append, not_or] at hnodup
      simp only [Forest.preorder, List.mem_cons, List.mem_append] at hlt
      obtain ⟨⟨hmem, hmem'⟩, hnodup⟩ := hnodup
      obtain ⟨depth, rfl⟩ : ∃ d, depth = d + 1 := ⟨depth - 1, by omega⟩
      have hheight : below.height ≤ depth := by omega
      rw [Forest.roots] at hend ⊢
      cases hvisit : (Tree.walk s.pass.world a (depth + 1) s.tree i).ending with
      | halted =>
          have hnode : run env a (depth + 1) s i = _ :=
            run_of_halted_walk_of_below hi hbelow hmem (hlt i (.inl rfl)) hheight
              (fun u _ hu hu' => ihBelow rfl (hbelow.of_shape hu) hnodup.of_append_left
                (fun j hj => by
                  rw [Arena.size_of_shape hu]
                  exact hlt j (.inr (.inl hj))) hheight hu') hvisit
          rw [Tree.scan_of_halted hvisit]
          change _ = runAll _ _ ((s.after (Tree.walk s.pass.world a (depth + 1) s.tree
            i)).performPending env a) _
          rw [runAll, runAll, hnode]
      | finished ok =>
          have hplay := run_of_finished_walk env hvisit
          have hpasses := Tree.walk_passes (w := s.pass.world) (a := a) hi hbelow
            (Nat.lt_succ_of_le hheight)
          cases hstops : stopsOn ok with
          | true =>
              rw [Tree.scan_of_stops hvisit hstops] at hend
              cases hend
          | false =>
              obtain ⟨hending, hafter⟩ := after_scan_of_goesOn hvisit hstops rest.roots
              have houtcome := Tree.outcome?_of_finished_walk hi hbelow (hlt i (.inl rfl)) hheight
                hvisit
              obtain ⟨u, hu⟩ : ∃ u, u = s.after (Tree.walk s.pass.world a (depth + 1) s.tree i) :=
                ⟨_, rfl⟩
              have hshape : u.tree.arena.shape = s.tree.arena.shape := by
                rw [hu]
                exact hpasses.shape
              have hworld : u.pass.world = s.pass.world := by rw [hu]; rfl
              have houtcome' : (u.tree.arena.status i).outcome? = some ok := by
                rw [hu]
                exact houtcome
              rw [← hu] at hending hafter hplay
              rw [hending] at hend
              rw [hafter, runAll_of_goesOn hplay hstops, runAll_of_halted_rest
                (hrest.of_shape hshape) hmem' hdepth.2 houtcome' hstops hend]
              refine ihRest hworld (hrest.of_shape hshape) hnodup.of_append_right ?_ hdepth.2 hend
              intro j hj
              rw [Arena.size_of_shape hshape]
              exact hlt j (.inr (.inr hj))

/-- Playing a tree comes to the same if a turn that halts in it is done first. -/
theorem run_of_halted_walk {s : Play} {i : NodeIdx} {below : Forest}
    (hi : s.tree.arena.children i = below.roots) (hgrows : s.tree.arena.Grows below)
    (hnodup : (i :: below.preorder).Nodup)
    (hlt : ∀ j ∈ i :: below.preorder, j < s.tree.arena.size) {depth : Nat}
    (hdepth : below.height ≤ depth)
    (hend : (Tree.walk s.pass.world a (depth + 1) s.tree i).ending = .halted) :
    run env a (depth + 1) s i =
      run env a (depth + 1)
        ((s.after (Tree.walk s.pass.world a (depth + 1) s.tree i)).performPending env a) i := by
  obtain ⟨hmem, hnodup⟩ := List.nodup_cons.mp hnodup
  refine run_of_halted_walk_of_below hi hgrows hmem (hlt i List.mem_cons_self) hdepth ?_ hend
  intro u stopsOn hu hend'
  refine runAll_of_halted_scan rfl (hgrows.of_shape hu) hnodup (fun j hj => ?_) hdepth hend'
  rw [Arena.size_of_shape hu]
  exact hlt j (List.mem_cons_of_mem i hj)

/-! ### What a play leaves -/

/-- What a play of some nodes leaves of the tree, and of the pass so far. -/
structure Keeps (s : Play) (nodes : List NodeIdx) (u : Play) : Prop where
  shape : u.tree.arena.shape = s.tree.arena.shape
  /-- Other nodes keep their status. -/
  frame : ∀ i, i ∉ nodes → u.tree.arena.status i = s.tree.arena.status i
  trace : s.pass.trace <+: u.pass.trace
  acted : s.pass.acted <+: u.pass.acted

theorem Keeps.refl (s : Play) (nodes : List NodeIdx) : s.Keeps nodes s where
  shape := rfl
  frame _ _ := rfl
  trace := List.prefix_refl _
  acted := List.prefix_refl _

theorem Keeps.mono {s u : Play} {nodes more : List NodeIdx} (h : s.Keeps nodes u)
    (hsub : nodes ⊆ more) : s.Keeps more u where
  shape := h.shape
  frame i hi := h.frame i fun hi' => hi (hsub hi')
  trace := h.trace
  acted := h.acted

theorem Keeps.trans {s u v : Play} {nodes : List NodeIdx} (h : s.Keeps nodes u)
    (h' : u.Keeps nodes v) : s.Keeps nodes v where
  shape := h'.shape.trans h.shape
  frame i hi := (h'.frame i hi).trans (h.frame i hi)
  trace := h.trace.trans h'.trace
  acted := h.acted.trans h'.acted

theorem keeps_finish (s : Play) {i : NodeIdx} {nodes : List NodeIdx} (hi : i ∈ nodes)
    (ok : Bool) : s.Keeps nodes (s.finish a i ok) where
  shape := Arena.shape_setStatus ..
  frame _ hj := Arena.status_setStatus_of_ne _ (ne_of_mem_of_not_mem hi hj).symm _
  trace := List.prefix_append ..
  acted := List.prefix_refl _

theorem keeps_enter (s : Play) {i : NodeIdx} {nodes : List NodeIdx} (hi : i ∈ nodes) :
    s.Keeps nodes (s.enter a i) := by
  rw [enter, Tree.enter]
  split
  · exact
      { shape := Arena.shape_setStatus ..
        frame := fun _ hj =>
          Arena.status_setStatus_of_ne _ (ne_of_mem_of_not_mem hi hj).symm _
        trace := List.prefix_append ..
        acted := List.prefix_refl _ }
  · exact ⟨rfl, fun _ _ => rfl, List.prefix_append .., List.prefix_refl _⟩

theorem keeps_perform (s : Play) {i : NodeIdx} {nodes : List NodeIdx} (hi : i ∈ nodes)
    (action : Action) : s.Keeps nodes (s.perform env a i action) where
  shape := Arena.shape_setStatus ..
  frame _ hj := Arena.status_setStatus_of_ne _ (ne_of_mem_of_not_mem hi hj).symm _
  trace := List.prefix_append ..
  acted := List.prefix_append ..

/-- A play keeps what is not below its node, if that is so of the forest below. -/
theorem keeps_run_of_below {s : Play} {i : NodeIdx} {below : Forest} {depth : Nat}
    (hi : s.tree.arena.children i = below.roots)
    (hbelow : ∀ (u : Play) (stopsOn : Bool → Bool), u.tree.arena.shape = s.tree.arena.shape →
      u.Keeps below.preorder (runAll (run env a depth) stopsOn u below.roots).1) :
    s.Keeps (i :: below.preorder) (run env a (depth + 1) s i).1 := by
  cases hs : (s.tree.arena.status i).outcome? with
  | some ok =>
      rw [run_of_finished hs]
      exact .refl s _
  | none =>
      cases hk : s.tree.arena.kind i with
      | action action =>
          rw [run_of_action hs hk]
          exact keeps_perform s List.mem_cons_self action
      | condition condition =>
          rw [run_of_condition hs hk]
          exact keeps_finish s List.mem_cons_self _
      | composite composite =>
          have henter : s.Keeps (i :: below.preorder) (s.enter a i) :=
            keeps_enter s List.mem_cons_self
          have hall := (hbelow (s.enter a i) composite.stopsOn henter.shape).mono
            (List.subset_cons_self i _)
          rw [run_of_composite hs hk rfl, hi]
          exact (henter.trans hall).trans (keeps_finish _ List.mem_cons_self _)

/-- A play of the trees of a forest keeps what is not in the forest. -/
theorem keeps_runAll {s : Play} {f : Forest} (hf : s.tree.arena.Grows f) {depth : Nat}
    (hdepth : f.height ≤ depth) (stopsOn : Bool → Bool) :
    s.Keeps f.preorder (runAll (run env a depth) stopsOn s f.roots).1 := by
  induction f generalizing s depth stopsOn with
  | nil => exact .refl s _
  | cons i below rest ihBelow ihRest =>
      obtain ⟨hi, hbelow, hrest⟩ := hf
      simp only [Forest.height, Nat.max_le] at hdepth
      obtain ⟨depth, rfl⟩ : ∃ d, depth = d + 1 := ⟨depth - 1, by omega⟩
      have hnode : s.Keeps (i :: below.preorder) (run env a (depth + 1) s i).1 :=
        keeps_run_of_below hi fun u stopsOn hu => ihBelow (hbelow.of_shape hu) (by omega) stopsOn
      have hsub : i :: below.preorder ⊆ (Forest.cons i below rest).preorder :=
        List.cons_subset_cons i (List.subset_append_left ..)
      have hsub' : rest.preorder ⊆ (Forest.cons i below rest).preorder :=
        List.Subset.trans (List.subset_append_right ..) (List.subset_cons_self ..)
      rw [Forest.roots]
      obtain ⟨u, ok, hu⟩ : ∃ u ok, run env a (depth + 1) s i = (u, ok) := ⟨_, _, rfl⟩
      rw [hu] at hnode
      cases hstops : stopsOn ok with
      | true =>
          rw [runAll_of_stops hu hstops]
          exact hnode.mono hsub
      | false =>
          rw [runAll_of_goesOn hu hstops]
          exact (hnode.mono hsub).trans
            ((ihRest (hrest.of_shape hnode.shape) hdepth.2 stopsOn).mono hsub')

/-- A play keeps what is not below its node. -/
theorem keeps_run {s : Play} {i : NodeIdx} {below : Forest}
    (hi : s.tree.arena.children i = below.roots) (hbelow : s.tree.arena.Grows below)
    {depth : Nat} (hdepth : below.height ≤ depth) :
    s.Keeps (i :: below.preorder) (run env a (depth + 1) s i).1 :=
  keeps_run_of_below hi fun _ stopsOn hu => keeps_runAll (hbelow.of_shape hu) hdepth stopsOn

end Play

end Ladybug
