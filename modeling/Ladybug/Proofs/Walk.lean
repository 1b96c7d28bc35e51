import Ladybug.Behavior.Tick
import Ladybug.Proofs.Links

/-!
# What a walk can do

A walk goes through a forest of a tree. It enters composites, ends conditions and
composites, and at the first action that has not ended it moves the resume pointer there and
halts. This module says once what that leaves of the tree: `Tree.Passes` collects what does
not change during a stretch of a walk, what may be recorded, and where the resume pointer
is when the stretch halts. It holds of the single steps, stretches that follow one another
compose, and so it holds of every walk that is given enough depth for its forest.

## Main definitions

* `Tree.HoldsOfSteps` — what holds of the steps of walks, and so of walks.
* `Tree.Passes` — what a stretch of a walk through some nodes leaves behind.

## Main results

* `Tree.walk_of_finished`, `Tree.walk_of_action`, `Tree.walk_of_condition` and
  `Tree.walk_of_composite` — the four ways of walking a node.
* `Tree.HoldsOfSteps.walk` — what holds of every step holds of every walk.
* `Tree.scan_passes` and `Tree.walk_passes` — every walk passes its forest.
* `Tree.Passes.restart` — so does forgetting the progress of a tree.
-/

namespace Ladybug

namespace Tree

open Arena

variable {w : World} {a : AgentId}

/-! ### Records and entries -/

/-- The record of an event is made of what the tree is apart from its statuses. -/
theorem entryFor_of_shape {t : Arena} {u : Tree} (h : u.arena.shape = t.shape) (i : NodeIdx)
    (event : TraceEvent) : u.entryFor a i event = ⟨a, t.id i, t.kind i, event⟩ := by
  rw [entryFor, id_of_shape h, kind_of_shape h]

/-- Entering a node changes statuses only. -/
theorem shape_enter (t : Tree) (a : AgentId) (i : NodeIdx) :
    (t.enter a i).1.arena.shape = t.arena.shape := by
  rw [enter]
  split
  · exact shape_setStatus ..
  · rfl

/-- Entering a node changes no other status. -/
theorem status_enter_of_ne (t : Tree) (a : AgentId) {i j : NodeIdx} (h : j ≠ i) :
    (t.enter a i).1.arena.status j = t.arena.status j := by
  rw [enter]
  split
  · exact status_setStatus_of_ne _ h _
  · rfl

/-- Entering a node that has not ended leaves it running. -/
theorem status_enter_self {t : Tree} {i : NodeIdx} (hi : i < t.arena.size)
    (h : (t.arena.status i).outcome? = none) : (t.enter a i).1.arena.status i = .running := by
  rw [enter]
  split
  · exact (status_setStatus hi _ i).trans (if_pos rfl)
  · next hne =>
      cases hs : t.arena.status i with
      | notEntered => exact absurd hs hne
      | running => rfl
      | success => rw [hs] at h; cases h
      | failure => rw [hs] at h; cases h

/-! ### The cases of a walk -/

/-- A node that has ended keeps its outcome. -/
theorem walk_of_finished {t : Tree} {i : NodeIdx} {ok : Bool}
    (h : (t.arena.status i).outcome? = some ok) (depth : Nat) :
    walk w a (depth + 1) t i = ⟨t, [], .finished ok⟩ := by
  rw [walk, h]

/-- An action takes the resume pointer. -/
theorem walk_of_action {t : Tree} {i : NodeIdx} {action : Action}
    (h : (t.arena.status i).outcome? = none) (hkind : t.arena.kind i = .action action)
    (depth : Nat) : walk w a (depth + 1) t i = ⟨{ t with current := i }, [], .halted⟩ := by
  rw [walk, h, hkind]

/-- A condition is asked. -/
theorem walk_of_condition {t : Tree} {i : NodeIdx} {condition : Condition}
    (h : (t.arena.status i).outcome? = none) (hkind : t.arena.kind i = .condition condition)
    (depth : Nat) : walk w a (depth + 1) t i = t.finish a i (condition.holds w a) := by
  rw [walk, h, hkind]

/-- A composite is entered, its children are gone through, and it is concluded. -/
theorem walk_of_composite {t : Tree} {i : NodeIdx} {composite : Composite}
    (h : (t.arena.status i).outcome? = none) (hkind : t.arena.kind i = .composite composite)
    (depth : Nat) :
    walk w a (depth + 1) t i =
      (conclude a i composite
        (scan (walk w a depth) composite.stopsOn (t.enter a i).1 (t.arena.children i))).after
        (t.enter a i).2 := by
  rw [walk, h, hkind]

/-- A composite does not end if the walk halted below it. -/
theorem conclude_of_halted {i : NodeIdx} {composite : Composite} {scanned : Walk ScanEnd}
    (h : scanned.ending = .halted) :
    conclude a i composite scanned = ⟨scanned.tree, scanned.trace, .halted⟩ := by
  rw [conclude, h]

/-- Otherwise it ends with its verdict. -/
theorem conclude_of_not_halted {i : NodeIdx} {composite : Composite} {scanned : Walk ScanEnd}
    (h : scanned.ending ≠ .halted) :
    conclude a i composite scanned =
      (scanned.tree.finish a i (composite.verdict (decide (scanned.ending = .stopped))
        (scanned.tree.successes i))).after scanned.trace := by
  rw [conclude]
  cases hend : scanned.ending with
  | halted => exact absurd hend h
  | stopped => rfl
  | exhausted => rfl

section Scan

variable {visit : Tree → NodeIdx → Walk WalkEnd} {stopsOn : Bool → Bool} {t : Tree}
  {i : NodeIdx} {rest : List NodeIdx}

theorem scan_of_halted (h : (visit t i).ending = .halted) :
    scan visit stopsOn t (i :: rest) = ⟨(visit t i).tree, (visit t i).trace, .halted⟩ := by
  rw [scan]
  simp only [h]

theorem scan_of_stops {ok : Bool} (h : (visit t i).ending = .finished ok)
    (hstops : stopsOn ok = true) :
    scan visit stopsOn t (i :: rest) = ⟨(visit t i).tree, (visit t i).trace, .stopped⟩ := by
  rw [scan]
  simp only [h, hstops, if_true]

theorem scan_of_goesOn {ok : Bool} (h : (visit t i).ending = .finished ok)
    (hstops : stopsOn ok = false) :
    scan visit stopsOn t (i :: rest) =
      (scan visit stopsOn (visit t i).tree rest).after (visit t i).trace := by
  rw [scan]
  simp only [h, hstops, Bool.false_eq_true, if_false]

end Scan

/-! ### What holds of every step -/

/-- A relation between a tree, the records that are made, and the tree afterwards. It holds where
nothing but the resume pointer changes, of the steps that walks in tables of one shape make, and
of stretches that follow one another. -/
structure HoldsOfSteps (a : AgentId) (t : Arena) (R : Tree → Trace → Tree → Prop) : Prop where
  shape : ∀ {u v trace}, R u trace v → v.arena.shape = u.arena.shape
  refl : ∀ {u v : Tree}, v.arena = u.arena → R u [] v
  trans : ∀ {u v x first second}, R u first v → R v second x → R u (first ++ second) x
  enter : ∀ {u : Tree} {i : Nat}, u.arena.shape = t.shape → i < t.size →
    (t.kind i).isAction = false → R u (u.enter a i).2 (u.enter a i).1
  finish : ∀ {u : Tree} {i : Nat}, u.arena.shape = t.shape → i < t.size →
    (t.kind i).isAction = false → ∀ ok, R u (u.finish a i ok).trace (u.finish a i ok).tree

namespace HoldsOfSteps

variable {t : Arena} {u : Tree} {R : Tree → Trace → Tree → Prop}

/-- What holds of every step and of the visits of children holds of going through them. -/
theorem scan (hR : HoldsOfSteps a t R) {visit : Tree → NodeIdx → Walk WalkEnd}
    (hvisit : ∀ (v : Tree) (j : Nat), v.arena.shape = t.shape → j < t.size →
      R v (visit v j).trace (visit v j).tree)
    (stopsOn : Bool → Bool) {is : List NodeIdx} (his : ∀ j : Nat, j ∈ is → j < t.size)
    (hu : u.arena.shape = t.shape) :
    R u (Tree.scan visit stopsOn u is).trace (Tree.scan visit stopsOn u is).tree := by
  induction is generalizing u with
  | nil => exact hR.refl rfl
  | cons j rest ih =>
      obtain ⟨hj, hrest⟩ := List.forall_mem_cons.mp his
      have hfirst := hvisit u j hu hj
      cases hend : (visit u j).ending with
      | halted =>
          rw [scan_of_halted hend]
          exact hfirst
      | finished ok =>
          cases hstops : stopsOn ok with
          | true =>
              rw [scan_of_stops hend hstops]
              exact hfirst
          | false =>
              rw [scan_of_goesOn hend hstops]
              exact hR.trans hfirst (ih hrest ((hR.shape hfirst).trans hu))

/-- It then holds of concluding a composite. -/
theorem conclude (hR : HoldsOfSteps a t R) {i : Nat} (hi : i < t.size)
    (hnot : (t.kind i).isAction = false) (composite : Composite) {scanned : Walk ScanEnd}
    (hu : u.arena.shape = t.shape) (hscan : R u scanned.trace scanned.tree) :
    R u (Tree.conclude a i composite scanned).trace (Tree.conclude a i composite scanned).tree := by
  by_cases hend : scanned.ending = .halted
  · rw [conclude_of_halted hend]
    exact hscan
  · rw [conclude_of_not_halted hend]
    exact hR.trans hscan (hR.finish ((hR.shape hscan).trans hu) hi hnot _)

/-- What holds of every step holds of every walk. -/
theorem walk (hR : HoldsOfSteps a t R) (w : World) (h : t.Linked) {i : Nat} (hi : i < t.size)
    (hu : u.arena.shape = t.shape) (depth : Nat) :
    R u (Tree.walk w a depth u i).trace (Tree.walk w a depth u i).tree := by
  induction depth generalizing u i with
  | zero => exact hR.refl rfl
  | succ depth ih =>
      cases hs : (u.arena.status i).outcome? with
      | some ok =>
          rw [walk_of_finished hs]
          exact hR.refl rfl
      | none =>
          have hkind := kind_of_shape hu i
          cases hk : u.arena.kind i with
          | action action =>
              rw [walk_of_action hs hk]
              exact hR.refl rfl
          | condition condition =>
              rw [walk_of_condition hs hk]
              exact hR.finish hu hi (by rw [← hkind, hk]; rfl) _
          | composite composite =>
              have hnot : (t.kind i).isAction = false := by rw [← hkind, hk]; rfl
              have hrows : ∀ j : Nat, j ∈ u.arena.children i → j < t.size := fun j hj => by
                rw [children_of_shape hu] at hj
                exact h.child_lt_size hj
              have henter := hR.enter hu hi hnot
              have hentered := (hR.shape henter).trans hu
              rw [walk_of_composite hs hk]
              exact hR.trans henter (hR.conclude hi hnot composite hentered
                (hR.scan (fun v j hv hj => ih hj hv) composite.stopsOn hrows hentered))

end HoldsOfSteps

/-! ### Stretches of a walk -/

/-- A record that a ladybug's walk makes in a world: it is not of an action, and one of a
condition says whether the condition holds. -/
structure IsWalkRecord (w : World) (a : AgentId) (e : TraceEntry) : Prop where
  agent : e.agent = a
  isAction : e.kind.isAction = false
  condition : ∀ c, e.kind = .condition c → e.event = .ofOutcome (c.holds w a)

/-- What a stretch of a walk through the given nodes leaves behind: the tree before it, its
records, the tree after it, and whether it halted. -/
structure Passes (w : World) (a : AgentId) (t : Tree) (nodes : List NodeIdx) (trace : Trace)
    (u : Tree) (halted : Prop) : Prop where
  shape : u.arena.shape = t.arena.shape
  root : u.root = t.root
  jumped : u.jumped = t.jumped
  /-- Other nodes keep their status. -/
  frame : ∀ i, i ∉ nodes → u.arena.status i = t.arena.status i
  records : ∀ e ∈ trace, IsWalkRecord w a e
  /-- Only composites have started running. -/
  running : ∀ i, u.arena.status i = .running →
    t.arena.status i = .running ∨ (t.arena.kind i).isComposite
  /-- Without a halt, the resume pointer stays. -/
  stays : ¬ halted → u.current = t.current
  /-- At a halt, the resume pointer is at an action that has not ended. -/
  halts : halted → u.current ∈ nodes ∧ u.pending?.isSome ∧
    (u.arena.status u.current).outcome? = none

/-- Nothing happens without steps. -/
theorem Passes.refl (t : Tree) (nodes : List NodeIdx) : Passes w a t nodes [] t False where
  shape := rfl
  root := rfl
  jumped := rfl
  frame _ _ := rfl
  records _ he := nomatch he
  running _ hi := .inl hi
  stays _ := rfl
  halts := False.elim

/-- A stretch may be said to go through more nodes. -/
theorem Passes.mono {t u : Tree} {nodes more : List NodeIdx} {trace : Trace} {halted : Prop}
    (h : Passes w a t nodes trace u halted) (hsub : nodes ⊆ more) :
    Passes w a t more trace u halted where
  shape := h.shape
  root := h.root
  jumped := h.jumped
  frame i hi := h.frame i fun hi' => hi (hsub hi')
  records := h.records
  running := h.running
  stays := h.stays
  halts hh := ⟨hsub (h.halts hh).1, (h.halts hh).2⟩

/-- Whether a stretch halted may be said in another way. -/
theorem Passes.iff {t u : Tree} {nodes : List NodeIdx} {trace : Trace} {halted halted' : Prop}
    (h : Passes w a t nodes trace u halted) (hiff : halted ↔ halted') :
    Passes w a t nodes trace u halted' := by
  rwa [← propext hiff]

/-- Stretches that follow one another make one. -/
theorem Passes.trans {t u v : Tree} {nodes : List NodeIdx} {first second : Trace} {halted : Prop}
    (h : Passes w a t nodes first u False) (h' : Passes w a u nodes second v halted) :
    Passes w a t nodes (first ++ second) v halted where
  shape := h'.shape.trans h.shape
  root := h'.root.trans h.root
  jumped := h'.jumped.trans h.jumped
  frame i hi := (h'.frame i hi).trans (h.frame i hi)
  records e he := (List.mem_append.mp he).elim (h.records e) (h'.records e)
  running i hi := by
    rcases h'.running i hi with hu | hu
    · exact h.running i hu
    · exact .inr (kind_of_shape h.shape i ▸ hu)
  stays hh := (h'.stays hh).trans (h.stays not_false)
  halts := h'.halts

/-- Giving one node a status and recording it there is a stretch. -/
theorem Passes.setStatus {t : Tree} {i : NodeIdx} {nodes : List NodeIdx} {event : TraceEvent}
    (hi : i ∈ nodes) (hrecord : IsWalkRecord w a (t.entryFor a i event)) {s : Status}
    (hs : s = .running → (t.arena.kind i).isComposite) :
    Passes w a t nodes [t.entryFor a i event] (t.setStatus i s) False where
  shape := shape_setStatus ..
  root := rfl
  jumped := rfl
  frame j hj := status_setStatus_of_ne _ (ne_of_mem_of_not_mem hi hj).symm s
  records e he := by
    obtain rfl := List.mem_singleton.mp he
    exact hrecord
  running j hj := by
    by_cases hji : j = i
    · subst hji
      rcases status_setStatus_eq t.arena j s j with h | h
      · exact .inr (hs (h.symm.trans hj))
      · exact .inl (h.symm.trans hj)
    · exact .inl ((status_setStatus_of_ne _ hji s).symm.trans hj)
  stays _ := rfl
  halts := False.elim

/-- An event of a composite may be recorded. -/
theorem isWalkRecord_of_composite {t : Tree} {i : NodeIdx} {composite : Composite}
    (hkind : t.arena.kind i = .composite composite) (event : TraceEvent) :
    IsWalkRecord w a (t.entryFor a i event) where
  agent := rfl
  isAction := by rw [entryFor, hkind]; rfl
  condition c hc := by
    rw [entryFor, hkind] at hc
    cases hc

/-- Entering a composite is a stretch. -/
theorem Passes.enter {t : Tree} {i : NodeIdx} {nodes : List NodeIdx} {composite : Composite}
    (hi : i ∈ nodes) (hkind : t.arena.kind i = .composite composite) :
    Passes w a t nodes (t.enter a i).2 (t.enter a i).1 False := by
  rw [Tree.enter]
  split
  · exact .setStatus hi (isWalkRecord_of_composite hkind .entry) fun _ => by rw [hkind]; rfl
  · exact .refl t nodes

/-- Ending a node is a stretch, if its outcome may be recorded. -/
theorem Passes.finish {t : Tree} {i : NodeIdx} {nodes : List NodeIdx} {ok : Bool} (hi : i ∈ nodes)
    (hrecord : IsWalkRecord w a (t.entryFor a i (.ofOutcome ok))) :
    Passes w a t nodes (t.finish a i ok).trace (t.finish a i ok).tree False := by
  refine .setStatus hi hrecord fun hs => ?_
  cases ok <;> cases hs

/-- Concluding a composite is a stretch, after which the walk has halted if it had before. -/
theorem Passes.conclude {t : Tree} {i : NodeIdx} {nodes : List NodeIdx} {composite : Composite}
    {scanned : Walk ScanEnd} (hi : i ∈ nodes) (hkind : t.arena.kind i = .composite composite)
    (h : Passes w a t nodes scanned.trace scanned.tree (scanned.ending = .halted)) :
    Passes w a t nodes (Tree.conclude a i composite scanned).trace
      (Tree.conclude a i composite scanned).tree
      ((Tree.conclude a i composite scanned).ending = .halted) := by
  have hkind' : scanned.tree.arena.kind i = .composite composite :=
    (kind_of_shape h.shape i).trans hkind
  have hsettle : ∀ ok, scanned.ending ≠ .halted → Passes w a t nodes
      (scanned.trace ++ (scanned.tree.finish a i ok).trace)
      (scanned.tree.finish a i ok).tree False := by
    intro ok hne
    exact (h.iff (iff_false_intro hne)).trans (.finish hi (isWalkRecord_of_composite hkind' _))
  cases hend : scanned.ending with
  | halted =>
      rw [Tree.conclude, hend]
      exact h.iff (by simp [hend])
  | stopped =>
      rw [Tree.conclude, hend]
      exact (hsettle _ (by simp [hend])).iff (by simp [Walk.after, Tree.finish])
  | exhausted =>
      rw [Tree.conclude, hend]
      exact (hsettle _ (by simp [hend])).iff (by simp [Walk.after, Tree.finish])

/-! ### Whole walks -/

/-- Walking a tree passes it, if going through the forest below its root does. -/
theorem walk_passes_of_below {t : Tree} {i : NodeIdx} {below : Forest} {depth : Nat}
    (hi : t.arena.children i = below.roots)
    (hbelow : ∀ (u : Tree) (stopsOn : Bool → Bool), u.arena.shape = t.arena.shape →
      Passes w a u below.preorder (scan (walk w a depth) stopsOn u below.roots).trace
        (scan (walk w a depth) stopsOn u below.roots).tree
        ((scan (walk w a depth) stopsOn u below.roots).ending = .halted)) :
    Passes w a t (i :: below.preorder) (walk w a (depth + 1) t i).trace
      (walk w a (depth + 1) t i).tree ((walk w a (depth + 1) t i).ending = .halted) := by
  cases hs : (t.arena.status i).outcome? with
  | some ok =>
      rw [walk_of_finished hs]
      exact (Passes.refl t _).iff (by simp)
  | none =>
      cases hk : t.arena.kind i with
      | action action =>
          rw [walk_of_action hs hk]
          exact
            { shape := rfl
              root := rfl
              jumped := rfl
              frame := fun _ _ => rfl
              records := nofun
              running := fun _ h => .inl h
              stays := fun h => absurd rfl h
              halts := fun _ => ⟨List.mem_cons_self, by simp [pending?, hk], hs⟩ }
      | condition condition =>
          rw [walk_of_condition hs hk]
          have hrecord : IsWalkRecord w a
              (t.entryFor a i (.ofOutcome (condition.holds w a))) :=
            { agent := rfl
              isAction := by rw [entryFor, hk]; rfl
              condition := fun c hc => by
                rw [entryFor, hk] at hc
                obtain rfl := NodeKind.condition.inj hc
                rfl }
          exact (Passes.finish List.mem_cons_self hrecord).iff (by simp [Tree.finish])
      | composite composite =>
          rw [walk_of_composite hs hk, hi]
          have henter : Passes w a t (i :: below.preorder) (t.enter a i).2 (t.enter a i).1 False :=
            .enter List.mem_cons_self hk
          have hscan := (hbelow (t.enter a i).1 composite.stopsOn henter.shape).mono
            (List.subset_cons_self i below.preorder)
          have hkind : (t.enter a i).1.arena.kind i = .composite composite :=
            (kind_of_shape henter.shape i).trans hk
          exact henter.trans (hscan.conclude List.mem_cons_self hkind)

/-- Going through the trees of a forest passes the forest. -/
theorem scan_passes {t : Tree} {f : Forest} (hf : t.arena.Grows f) {depth : Nat}
    (hdepth : f.height ≤ depth) (stopsOn : Bool → Bool) :
    Passes w a t f.preorder (scan (walk w a depth) stopsOn t f.roots).trace
      (scan (walk w a depth) stopsOn t f.roots).tree
      ((scan (walk w a depth) stopsOn t f.roots).ending = .halted) := by
  induction f generalizing t depth stopsOn with
  | nil => exact (Passes.refl t _).iff (by simp [Forest.roots, scan])
  | cons i below rest ihBelow ihRest =>
      obtain ⟨hi, hbelow, hrest⟩ := hf
      simp only [Forest.height, Nat.max_le] at hdepth
      obtain ⟨depth, rfl⟩ : ∃ d, depth = d + 1 := ⟨depth - 1, by omega⟩
      have hvisit : Passes w a t (i :: below.preorder) (walk w a (depth + 1) t i).trace
          (walk w a (depth + 1) t i).tree ((walk w a (depth + 1) t i).ending = .halted) :=
        walk_passes_of_below hi fun u stopsOn hu =>
          ihBelow (hbelow.of_shape hu) (by omega) stopsOn
      have hsub : i :: below.preorder ⊆ (Forest.cons i below rest).preorder :=
        List.cons_subset_cons i (List.subset_append_left ..)
      have hsub' : rest.preorder ⊆ (Forest.cons i below rest).preorder :=
        List.Subset.trans (List.subset_append_right ..) (List.subset_cons_self ..)
      rw [Forest.roots]
      cases hend : (walk w a (depth + 1) t i).ending with
      | halted =>
          rw [scan_of_halted hend]
          exact (hvisit.mono hsub).iff (by simp [hend])
      | finished ok =>
          have hgone := (hvisit.iff (by simp [hend] : _ ↔ False)).mono hsub
          cases hstops : stopsOn ok with
          | true =>
              rw [scan_of_stops hend hstops]
              exact hgone.iff (by simp)
          | false =>
              rw [scan_of_goesOn hend hstops]
              exact hgone.trans
                ((ihRest (hrest.of_shape hvisit.shape) hdepth.2 stopsOn).mono hsub')

/-- Walking a tree passes it. -/
theorem walk_passes {t : Tree} {i : NodeIdx} {below : Forest}
    (hi : t.arena.children i = below.roots) (hbelow : t.arena.Grows below) {depth : Nat}
    (hdepth : below.height < depth) :
    Passes w a t (i :: below.preorder) (walk w a depth t i).trace (walk w a depth t i).tree
      ((walk w a depth t i).ending = .halted) := by
  obtain ⟨depth, rfl⟩ : ∃ d, depth = d + 1 := ⟨depth - 1, by omega⟩
  exact walk_passes_of_below hi fun u stopsOn hu =>
    scan_passes (hbelow.of_shape hu) (by omega) stopsOn

/-- A walk that ends at a node leaves its outcome there. -/
theorem outcome?_of_finished_walk {t : Tree} {i : NodeIdx} {below : Forest}
    {depth : Nat} {ok : Bool} (hi : t.arena.children i = below.roots)
    (hbelow : t.arena.Grows below) (hlt : i < t.arena.size) (hdepth : below.height ≤ depth)
    (hend : (walk w a (depth + 1) t i).ending = .finished ok) :
    ((walk w a (depth + 1) t i).tree.arena.status i).outcome? = some ok := by
  have hfinish : ∀ (u : Tree) (ok' : Bool), u.arena.shape = t.arena.shape →
      ((u.finish a i ok').tree.arena.status i).outcome? = some ok' := by
    intro u ok' hu
    have hlt' : i < u.arena.size := by rwa [Arena.size_of_shape hu]
    rw [finish, setStatus, Arena.status_setStatus hlt', if_pos rfl,
      Status.outcome?_ofOutcome]
  cases hs : (t.arena.status i).outcome? with
  | some old =>
      rw [walk_of_finished hs] at hend ⊢
      rwa [← WalkEnd.finished.inj hend]
  | none =>
      cases hk : t.arena.kind i with
      | action action =>
          rw [walk_of_action hs hk] at hend
          cases hend
      | condition condition =>
          rw [walk_of_condition hs hk] at hend ⊢
          obtain rfl := WalkEnd.finished.inj hend
          exact hfinish t _ rfl
      | composite composite =>
          rw [walk_of_composite hs hk] at hend ⊢
          have henter : Passes w a t [i] (t.enter a i).2 (t.enter a i).1 False :=
            .enter List.mem_cons_self hk
          have hscan := scan_passes (w := w) (a := a) (hbelow.of_shape henter.shape) hdepth
            composite.stopsOn
          rw [hi] at hend ⊢
          by_cases hhalted : (scan (walk w a depth) composite.stopsOn
              (t.enter a i).1 below.roots).ending = .halted
          · rw [conclude_of_halted hhalted] at hend
            cases hend
          · rw [conclude_of_not_halted hhalted] at hend ⊢
            obtain rfl := WalkEnd.finished.inj hend
            exact hfinish _ _ (hscan.shape.trans henter.shape)

/-! ### The walks of a turn -/

/-- A turn whose first walk halts has no other one. -/
theorem walks_of_halted {t : Tree} (h : (t.firstWalk w a).ending = .halted) :
    t.walks w a = t.firstWalk w a := by
  rw [walks, h]

/-- Otherwise the tree starts over and is walked again. -/
theorem walks_of_finished {t : Tree} {ok : Bool} (h : (t.firstWalk w a).ending = .finished ok) :
    t.walks w a =
      ((t.firstWalk w a).tree.restart.firstWalk w a).after (t.firstWalk w a).trace := by
  rw [walks, h]

/-- Forgetting the progress below the root passes what lies there. -/
theorem Passes.restart (t : Tree) :
    Passes w a t (t.arena.preorderFrom t.root) [] t.restart False where
  shape := shape_resetFrom ..
  root := rfl
  jumped := rfl
  frame _ hi := status_setStatuses_of_not_mem _ hi _
  records _ he := nomatch he
  running i hi := by
    rcases status_setStatuses_eq t.arena (t.arena.preorderFrom t.root) .notEntered i with h | h
    · exact nomatch h.symm.trans hi
    · exact .inl (h.symm.trans hi)
  stays _ := rfl
  halts := False.elim

end Tree

end Ladybug
