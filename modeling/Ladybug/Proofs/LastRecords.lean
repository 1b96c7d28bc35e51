import Ladybug.Proofs.Resuming

/-!
# The last records of a turn tell the statuses

A turn writes statuses in several places: composites start running, conditions, composites and
the performed action end, and the whole tree is forgotten when it starts over. Every status but
the forgotten ones is written together with a record. So the statuses after a turn can be read
off its records: the last one of a node tells its status, and a node without a record keeps the
status it had when the turn began, or when the tree started over.

That holds of the single writes and of stretches that follow one another, and so of every walk,
whatever statuses it begins with. Names are unique in a linked table, which is why a record is of
one node only.

## Main definitions

* `TraceEvent.status` — the status of a node after an event.
* `Trace.last?` — the last event at the node with a name.
* `Tree.Follows` — statuses are those of the last records.
* `Tree.RecordsTurn` — what the records of a turn tell.

## Main results

* `Tree.walk_records` — a walk records every status it changes.
* `Tree.exists_trace_of_finished_walk` — a walk that ends a node records its outcome last.
* `Tree.Reachable.records_turn` — so does a whole turn of a reachable tree.
-/

namespace Ladybug

/-! ### The last record of a node -/

/-- A status with an outcome is that of a node that ended so. -/
theorem Status.eq_ofOutcome {s : Status} {ok : Bool} (h : s.outcome? = some ok) :
    s = .ofOutcome ok := by
  cases s <;> cases h <;> rfl

/-- The status that a node has after an event. -/
def TraceEvent.status : TraceEvent → Status
  | entry => .running
  | success => .success
  | failure => .failure

@[simp] theorem TraceEvent.status_ofOutcome (succeeded : Bool) :
    (ofOutcome succeeded).status = .ofOutcome succeeded := by
  cases succeeded <;> rfl

namespace Trace

/-- The last event that is recorded at the node with a name. -/
def last? (trace : Trace) (id : String) : Option TraceEvent :=
  (trace.filter fun e => e.nodeId == id).getLast?.map TraceEntry.event

/-- Of two traces the later one has the last word, if it has a record of the node. -/
theorem last?_append (first second : Trace) (id : String) :
    last? (first ++ second) id = (last? second id).or (last? first id) := by
  rw [last?, List.filter_append, List.getLast?_append, last?, last?]
  cases (second.filter fun e => e.nodeId == id).getLast? <;> rfl

theorem last?_singleton (e : TraceEntry) (id : String) :
    last? [e] id = if e.nodeId = id then some e.event else none := by
  by_cases h : e.nodeId = id <;> simp [last?, h]

end Trace

namespace Tree

open Arena

variable {w : World} {a : AgentId} {t u v : Tree} {i : NodeIdx}

/-- Every node has the status of its last record in the trace, and a node without one has the
given status. -/
def Follows (t : Tree) (trace : Trace) (before : NodeIdx → Status) : Prop :=
  ∀ i < t.arena.size,
    t.arena.status i = ((trace.last? (t.arena.id i)).map TraceEvent.status).getD (before i)

/-! ### Stretches -/

/-- Between two trees only statuses have changed, and the trace tells how. -/
structure Records (t : Tree) (trace : Trace) (u : Tree) : Prop where
  shape : u.arena.shape = t.arena.shape
  follows : u.Follows trace t.arena.status

namespace Records

/-- Where no status has changed, nothing is recorded. -/
theorem refl (h : u.arena = t.arena) : t.Records [] u where
  shape := congrArg Arena.shape h
  follows i _ := congrArg (fun table => status table i) h

/-- Stretches that follow one another make one. -/
theorem trans {first second : Trace} (h : t.Records first u) (h' : u.Records second v) :
    t.Records (first ++ second) v where
  shape := h'.shape.trans h.shape
  follows i hi := by
    have hu : i < u.arena.size := size_of_shape h'.shape ▸ hi
    rw [h'.follows i hi, h.follows i hu, Trace.last?_append, id_of_shape h'.shape]
    cases second.last? (u.arena.id i) <;> rfl

/-- Giving a node the status of an event and recording that event there is a stretch. -/
theorem setStatus (h : t.arena.Linked) (hi : i < t.arena.size) (event : TraceEvent) :
    t.Records [t.entryFor a i event] (t.setStatus i event.status) where
  shape := shape_setStatus ..
  follows j hj := by
    have hj' : j < t.arena.size := size_setStatus t.arena i event.status ▸ hj
    rw [Tree.setStatus, status_setStatus hi, id_setStatus, Trace.last?_singleton, entryFor]
    by_cases hij : j = i
    · subst hij
      rw [if_pos rfl, if_pos rfl]
      rfl
    · have hname : ¬ t.arena.id i = t.arena.id j := fun hid =>
        hij (Option.some.inj (((h.lookup?_iff _ j).mpr ⟨hj', rfl⟩).symm.trans
          ((h.lookup?_iff _ i).mpr ⟨hi, hid⟩)))
      rw [if_neg hij, if_neg hname]
      rfl

/-- Ending a node is a stretch. -/
theorem finish (h : t.arena.Linked) (hi : i < t.arena.size) (succeeded : Bool) :
    t.Records (t.finish a i succeeded).trace (t.finish a i succeeded).tree := by
  rw [Tree.finish, ← TraceEvent.status_ofOutcome]
  exact .setStatus h hi (.ofOutcome succeeded)

/-- Entering a node is a stretch. -/
theorem enter (h : t.arena.Linked) (hi : i < t.arena.size) :
    t.Records (t.enter a i).2 (t.enter a i).1 := by
  rw [Tree.enter]
  split
  · exact .setStatus h hi .entry
  · exact .refl rfl

/-- These are the steps of walks. -/
theorem holdsOfSteps {t : Arena} (h : t.Linked) : HoldsOfSteps a t Records where
  shape := Records.shape
  refl := Records.refl
  trans := Records.trans
  enter hu hi _ := .enter (h.of_shape hu) (by rwa [size_of_shape hu])
  finish hu hi _ := .finish (h.of_shape hu) (by rwa [size_of_shape hu])

end Records

/-! ### Walks -/

/-- **A walk records every status it changes.** -/
theorem walk_records (h : t.arena.Linked) (hi : i < t.arena.size) (depth : Nat) :
    t.Records (walk w a depth t i).trace (walk w a depth t i).tree :=
  (Records.holdsOfSteps h).walk w h hi rfl depth

/-- A walk that ends a node records its outcome last. -/
theorem exists_trace_of_finished_walk (h : t.arena.Linked)
    (hs : (t.arena.status i).outcome? = none) {depth : Nat} {ok : Bool}
    (hend : (walk w a depth t i).ending = .finished ok) :
    ∃ before, (walk w a depth t i).trace =
      before ++ [⟨a, t.arena.id i, t.arena.kind i, .ofOutcome ok⟩] := by
  cases depth with
  | zero => cases hend
  | succ depth =>
      cases hk : t.arena.kind i with
      | action action =>
          rw [walk_of_action hs hk] at hend
          cases hend
      | condition condition =>
          rw [walk_of_condition hs hk] at hend ⊢
          obtain rfl := WalkEnd.finished.inj hend
          exact ⟨[], by rw [← hk]; rfl⟩
      | composite composite =>
          rw [walk_of_composite hs hk] at hend ⊢
          have hsteps : HoldsOfSteps a t.arena Records := Records.holdsOfSteps h
          have hrows : ∀ j : Nat, j ∈ t.arena.children i → j < t.arena.size := fun j hj =>
            h.child_lt_size hj
          have hscan := hsteps.scan (fun u j hu hj => hsteps.walk w h hj hu depth) composite.stopsOn
            hrows (shape_enter t a i)
          generalize scan (walk w a depth) composite.stopsOn (t.enter a i).1
            (t.arena.children i) = scanned at hend hscan ⊢
          by_cases hhalted : scanned.ending = .halted
          · rw [conclude_of_halted hhalted] at hend
            cases hend
          · rw [conclude_of_not_halted hhalted] at hend ⊢
            obtain rfl := WalkEnd.finished.inj hend
            refine ⟨(t.enter a i).2 ++ scanned.trace, ?_⟩
            rw [List.append_assoc, ← hk,
              ← entryFor_of_shape (hscan.shape.trans (shape_enter t a i))]
            rfl

/-! ### Turns -/

/-- What the records of a turn tell. -/
structure RecordsTurn (t : Tree) (w : World) (a : AgentId) : Prop where
  /-- The records of the first walk come first. -/
  first : (t.firstWalk w a).trace <+: (t.tick w a).trace
  /-- If the first walk halts, every node has the status of its last record, and a node without
  one keeps its status. -/
  halted : (t.firstWalk w a).ending = .halted →
    (t.tick w a).tree.Follows (t.tick w a).trace t.arena.status
  /-- If it does not, the same holds of the records after it, and a node without one there has
  not been entered. -/
  restarted : (t.firstWalk w a).ending ≠ .halted →
    (t.tick w a).tree.Follows ((t.tick w a).trace.drop (t.firstWalk w a).trace.length)
      fun _ => .notEntered
  /-- A first walk of a tree that has already ended records nothing. -/
  silent : (t.arena.status t.root).isFinished → (t.firstWalk w a).trace = []
  /-- A first walk that ends the tree leaves the outcome at the root and records it last. -/
  outcome : ∀ ok, (t.firstWalk w a).ending = .finished ok →
    (t.firstWalk w a).tree.arena.status t.root = .ofOutcome ok ∧
      (¬ (t.arena.status t.root).isFinished → ∃ before, (t.firstWalk w a).trace =
        before ++ [⟨a, t.rootId, t.arena.kind t.root, .ofOutcome ok⟩])

section Turn

variable (h : t.Sound) (w : World) (a : AgentId)

include h

/-- The first walk of a turn keeps a tree sound. -/
theorem Sound.firstWalk_sound : (t.firstWalk w a).tree.Sound :=
  h.passes (h.firstWalk_passes w a) fun _ hi => List.mem_range.mp (h.preorder_perm.mem_iff.mp hi)

/-- It records the statuses it changes. -/
theorem Sound.firstWalk_records : t.Records (t.firstWalk w a).trace (t.firstWalk w a).tree :=
  walk_records h.linked h.root_lt _

/-- Starting over keeps a tree sound. -/
theorem Sound.restart : t.restart.Sound :=
  h.of_shape (shape_resetFrom ..) rfl h.current_lt fun _ hi => .inl (running_resetFrom hi)

/-- A turn records what its walks record, and the statuses it changes after them. -/
theorem Sound.tick_records : ∃ more, (t.tick w a).trace = (t.walks w a).trace ++ more ∧
    (t.walks w a).tree.Records more (t.tick w a).tree := by
  have hwalks := h.walks_sound w a
  cases hp : (t.walks w a).tree.pending? with
  | none =>
      rw [tick_of_not_pending hp]
      exact ⟨[], (List.append_nil _).symm, .refl rfl⟩
  | some action =>
      rw [tick_of_pending hp, ← TraceEvent.status_ofOutcome, ← kind_of_pending? hp]
      have hact := Records.setStatus (a := a) hwalks.linked hwalks.current_lt
        (.ofOutcome (action.perform w a).2)
      exact ⟨_, rfl, hact.shape, hact.follows⟩

/-- A first walk of a tree that has already ended leaves it as it is, without a record. -/
theorem Sound.firstWalk_of_finished {ok : Bool} (hs : (t.arena.status t.root).outcome? = some ok) :
    t.firstWalk w a = ⟨t, [], .finished ok⟩ := by
  obtain ⟨depth, hdepth⟩ := Nat.exists_eq_succ_of_ne_zero (Nat.ne_zero_of_lt h.root_lt)
  rw [firstWalk, hdepth, walk_of_finished hs]

/-- A first walk that ends the tree leaves the outcome at the root. -/
theorem Sound.status_root_of_finished {ok : Bool}
    (hend : (t.firstWalk w a).ending = .finished ok) :
    (t.firstWalk w a).tree.arena.status t.root = .ofOutcome ok := by
  cases hs : (t.arena.status t.root).outcome? with
  | some old =>
      rw [h.firstWalk_of_finished w a hs] at hend ⊢
      obtain rfl := WalkEnd.finished.inj hend
      exact Status.eq_ofOutcome hs
  | none =>
      obtain ⟨before, htrace⟩ := exists_trace_of_finished_walk h.linked hs hend
      have hrecords := h.firstWalk_records w a
      have hroot : t.root < (t.firstWalk w a).tree.arena.size := by
        rw [size_of_shape hrecords.shape]
        exact h.root_lt
      rw [hrecords.follows t.root hroot, id_of_shape hrecords.shape, firstWalk, htrace,
        Trace.last?_append, Trace.last?_singleton, if_pos rfl]
      exact TraceEvent.status_ofOutcome ok

/-- A first walk that ends the tree leaves the outcome at the root and records it last, unless
the tree had ended before. -/
theorem Sound.outcome_of_finished {ok : Bool} (hend : (t.firstWalk w a).ending = .finished ok) :
    (t.firstWalk w a).tree.arena.status t.root = .ofOutcome ok ∧
      (¬ (t.arena.status t.root).isFinished → ∃ before, (t.firstWalk w a).trace =
        before ++ [⟨a, t.rootId, t.arena.kind t.root, .ofOutcome ok⟩]) := by
  refine ⟨h.status_root_of_finished w a hend, fun hunfinished => ?_⟩
  have hs := Option.not_isSome_iff_eq_none.mp hunfinished
  exact exists_trace_of_finished_walk h.linked hs hend

/-- If the first walk halts, a turn records what the first walk records and the rest of what it
does, and these records tell the statuses. -/
theorem Sound.follows_of_halted (hend : (t.firstWalk w a).ending = .halted) :
    (t.firstWalk w a).trace <+: (t.tick w a).trace ∧
      (t.tick w a).tree.Follows (t.tick w a).trace t.arena.status := by
  obtain ⟨more, htrace, hmore⟩ := h.tick_records w a
  have hwalks := walks_of_halted hend
  rw [hwalks] at htrace hmore
  refine ⟨⟨more, htrace.symm⟩, ?_⟩
  rw [htrace]
  exact ((h.firstWalk_records w a).trans hmore).follows

/-- If the first walk does not halt, all nodes are fresh after it, so that the records after it
tell the statuses. -/
theorem Sound.follows_of_finished {ok : Bool} (hend : (t.firstWalk w a).ending = .finished ok) :
    (t.firstWalk w a).trace <+: (t.tick w a).trace ∧
      (t.tick w a).tree.Follows ((t.tick w a).trace.drop (t.firstWalk w a).trace.length)
        fun _ => .notEntered := by
  obtain ⟨more, htrace, hmore⟩ := h.tick_records w a
  have hrestart := (h.firstWalk_sound w a).restart
  have hfresh : (t.firstWalk w a).tree.restart.arena.status = fun _ => .notEntered :=
    funext (h.firstWalk_sound w a).fresh_reset
  have hwalks := walks_of_finished hend
  rw [hwalks] at htrace hmore
  have hsecond := (hrestart.firstWalk_records w a).trans hmore
  change _ = ((t.firstWalk w a).trace ++ _) ++ more at htrace
  rw [List.append_assoc] at htrace
  refine ⟨⟨_, htrace.symm⟩, ?_⟩
  rw [htrace, List.drop_left, ← hfresh]
  exact hsecond.follows

end Turn

/-- **The records of a turn tell the statuses after it**, whatever happened to the tree before
and whatever the world is like. -/
theorem Reachable.records_turn {Admitted : NodeSpec → Prop} (h : t.Reachable Admitted) (w : World)
    (a : AgentId) : t.RecordsTurn w a := by
  have hsound := h.sound
  have hsilent : (t.arena.status t.root).isFinished → (t.firstWalk w a).trace = [] := by
    intro hfinished
    obtain ⟨ok, hs⟩ := Option.isSome_iff_exists.mp hfinished
    rw [hsound.firstWalk_of_finished w a hs]
  cases hend : (t.firstWalk w a).ending with
  | halted =>
      obtain ⟨hfirst, hfollows⟩ := hsound.follows_of_halted w a hend
      exact
        { first := hfirst
          halted := fun _ => hfollows
          restarted := fun hne => absurd hend hne
          silent := hsilent
          outcome := fun _ => hsound.outcome_of_finished w a }
  | finished ok =>
      obtain ⟨hfirst, hfollows⟩ := hsound.follows_of_finished w a hend
      exact
        { first := hfirst
          halted := fun hhalted => by
            rw [hend] at hhalted
            cases hhalted
          restarted := fun _ => hfollows
          silent := hsilent
          outcome := fun _ => hsound.outcome_of_finished w a }

/-- After a jump to the last action and a turn, the first walk of the next turn ends the tree,
which starts over. The action that is still under the resume pointer is performed after its
parent has ended, and the records tell that, too. -/
theorem records_turn_left_over :
    let w : World := ⟨Grid.blank 3 1, Colony.ofSpawns [⟨⟨0, 0⟩, .right⟩]⟩
    ∃ t : Tree,
      Flowchart.readTrees ["flowchart TD", "A[->] --> B([treeFront])", "A --> C[move]"] 1 =
        .ok [t] ∧
      (((t.after (.jumpTo "C")).after (.tick w .first)).firstWalk w .first).ending =
        .finished true ∧
      ((t.after (.jumpTo "C")).after (.tick w .first)).RecordsTurn w .first := by
  intro w
  have hturn (t : Tree)
      (ht : Flowchart.readTrees
        ["flowchart TD", "A[->] --> B([treeFront])", "A --> C[move]"] 1 = .ok [t]) :
      ((t.after (.jumpTo "C")).after (.tick w .first)).RecordsTurn w .first := by
    have hread : Reachable (fun _ => True) t := .read ht (List.mem_singleton_self t)
    have hjump : Reachable (fun _ => True) (t.after (.jumpTo "C")) := .after hread trivial
    have htick : Reachable (fun _ => True) ((t.after (.jumpTo "C")).after (.tick w .first)) :=
      .after hjump trivial
    exact htick.records_turn w .first
  exact ⟨_, rfl, by decide, hturn _ rfl⟩

end Tree

end Ladybug
