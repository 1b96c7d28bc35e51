import Ladybug.Proofs.Leading
import Ladybug.Proofs.OneAction

/-!
# Jumps go straight to their targets

The turn after a jump walks down to the target and nowhere else. On the way it passes over
the children that the jump has marked as ended, and it enters the nodes above the target,
which is recorded for those that were not running. Then the target is the first node that
something else is recorded of: an action is performed, a condition is asked, and a composite
is entered.

## Main definitions

* `Tree.entries` — the records of entering the nodes of a way.
* `Tree.Comes` — a stretch of a walk goes straight to a node.
* `Tree.Turn.Reaches` — a turn goes straight to a node.

## Main results

* `Tree.walk_comes` — a walk along a way of nodes, each of which leads to the next, comes to
  its end.
* `Tree.Sound.tick_reaches` — so does a turn.
* `Tree.Reachable.jumpTo_reaches` — the turn after a jump goes straight to the target.
-/

namespace Ladybug

namespace Tree

open Arena

/-! ### Going straight to a node -/

/-- The records of entering the nodes of a way. Those that are running are not entered
again. -/
def entries (t : Tree) (a : AgentId) (way : List NodeIdx) : Trace :=
  (way.filter fun p => t.arena.status p = .notEntered).map fun p => t.entryFor a p .entry

/-- A stretch of a walk makes the given records and comes to the node. An action halts the
stretch there. The outcome of a condition and the entry of a composite are the next
record. -/
inductive Comes (w : World) (a : AgentId) (t : Tree) (i : NodeIdx) (before : Trace) (u : Tree)
    (trace : Trace) (halted : Prop) : Prop
  | action {action : Action} (hkind : t.arena.kind i = .action action) (hhalted : halted)
      (hcurrent : u.current = i) (htrace : trace = before)
  | condition {condition : Condition} (hkind : t.arena.kind i = .condition condition) (more : Trace)
      (htrace : trace = before ++ t.entryFor a i (.ofOutcome (condition.holds w a)) :: more)
  | composite {composite : Composite} (hkind : t.arena.kind i = .composite composite)
      (more : Trace) (htrace : trace = before ++ t.entryFor a i .entry :: more)

/-- A turn makes the given records and comes to the node. If the node is an action, it is the
action of the turn, and its outcome is the last record. The outcome of a condition and the
entry of a composite are the next record. -/
inductive Turn.Reaches (turn : Turn) (w : World) (a : AgentId) (t : Tree) (i : NodeIdx)
    (before : Trace) : Prop
  | action {action : Action} (hkind : t.arena.kind i = .action action)
      (hperforms : turn.Performs w a action) (hcurrent : turn.tree.current = i)
      (htrace : turn.trace = before ++ [t.entryFor a i (.ofOutcome (action.perform w a).2)])
  | condition {condition : Condition} (hkind : t.arena.kind i = .condition condition) (more : Trace)
      (htrace : turn.trace = before ++ t.entryFor a i (.ofOutcome (condition.holds w a)) :: more)
  | composite {composite : Composite} (hkind : t.arena.kind i = .composite composite)
      (more : Trace) (htrace : turn.trace = before ++ t.entryFor a i .entry :: more)

variable {w : World} {a : AgentId} {t u v : Tree} {i : NodeIdx} {before trace : Trace}
  {halted : Prop}

/-- The first node of a way is entered before the others. -/
theorem entries_cons (t : Tree) (a : AgentId) (p : NodeIdx) (way : List NodeIdx) :
    t.entries a (p :: way) = (t.enter a p).2 ++ t.entries a way := by
  rw [entries, enter]
  by_cases h : t.arena.status p = .notEntered <;> simp [entries, h]

/-- The records of a way depend on the statuses of its nodes. -/
theorem entries_congr (hshape : u.arena.shape = t.arena.shape) {way : List NodeIdx}
    (hstatus : ∀ p ∈ way, u.arena.status p = t.arena.status p) :
    u.entries a way = t.entries a way := by
  rw [entries, entries, List.filter_congr fun p hp => by rw [hstatus p hp]]
  exact List.map_congr_left fun p _ => entryFor_of_shape hshape p .entry

namespace Comes

/-- What goes before may be added. -/
theorem after (h : Comes w a t i before u trace halted) (earlier : Trace) :
    Comes w a t i (earlier ++ before) u (earlier ++ trace) halted := by
  cases h with
  | action hkind hhalted hcurrent htrace => exact .action hkind hhalted hcurrent (by rw [htrace])
  | condition hkind more htrace =>
      exact .condition hkind more (by rw [htrace, List.append_assoc])
  | composite hkind more htrace =>
      exact .composite hkind more (by rw [htrace, List.append_assoc])

/-- Whether a stretch halted may be said in another way. -/
theorem imp {halted' : Prop} (h : Comes w a t i before u trace halted)
    (himp : halted → halted') : Comes w a t i before u trace halted' := by
  cases h with
  | action hkind hhalted hcurrent htrace => exact .action hkind (himp hhalted) hcurrent htrace
  | condition hkind more htrace => exact .condition hkind more htrace
  | composite hkind more htrace => exact .composite hkind more htrace

/-- A stretch that has not halted may go on in any way. -/
theorem append (h : Comes w a t i before u trace halted) (hnot : ¬ halted) (v : Tree)
    (more : Trace) (halted' : Prop) : Comes w a t i before v (trace ++ more) halted' := by
  cases h with
  | action hkind hhalted hcurrent htrace => exact absurd hhalted hnot
  | condition hkind rest htrace =>
      exact .condition hkind (rest ++ more) (by rw [htrace, List.append_assoc]; rfl)
  | composite hkind rest htrace =>
      exact .composite hkind (rest ++ more) (by rw [htrace, List.append_assoc]; rfl)

/-- Trees of one shape have the same nodes to come to. -/
theorem of_shape (h : Comes w a v i before u trace halted)
    (hshape : v.arena.shape = t.arena.shape) : Comes w a t i before u trace halted := by
  cases h with
  | action hkind hhalted hcurrent htrace =>
      exact .action ((kind_of_shape hshape i).symm.trans hkind) hhalted hcurrent htrace
  | condition hkind more htrace =>
      rw [entryFor_of_shape hshape] at htrace
      exact .condition ((kind_of_shape hshape i).symm.trans hkind) more htrace
  | composite hkind more htrace =>
      rw [entryFor_of_shape hshape] at htrace
      exact .composite ((kind_of_shape hshape i).symm.trans hkind) more htrace

end Comes

/-! ### Walks that go straight to a node -/

section Scan

variable {visit : Tree → NodeIdx → Walk WalkEnd} {stopsOn : Bool → Bool}

/-- Children that have ended are passed over. -/
theorem scan_append_of_ended {skipped : List NodeIdx}
    (h : ∀ s ∈ skipped, ∃ ok, visit t s = ⟨t, [], .finished ok⟩ ∧ stopsOn ok = false)
    (rest : List NodeIdx) : scan visit stopsOn t (skipped ++ rest) = scan visit stopsOn t rest := by
  induction skipped with
  | nil => rfl
  | cons s skipped ih =>
      obtain ⟨⟨ok, hvisit, hstops⟩, hskipped⟩ := List.forall_mem_cons.mp h
      have hend : (visit t s).ending = .finished ok := by rw [hvisit]
      rw [List.cons_append, scan_of_goesOn hend hstops, hvisit, ih hskipped]
      rfl

/-- Going through children comes to where the walk of the first one comes to. -/
theorem scan_comes {c : NodeIdx}
    (h : Comes w a t i before (visit v c).tree (visit v c).trace ((visit v c).ending = .halted))
    (rest : List NodeIdx) :
    Comes w a t i before (scan visit stopsOn v (c :: rest)).tree
      (scan visit stopsOn v (c :: rest)).trace
      ((scan visit stopsOn v (c :: rest)).ending = .halted) := by
  cases hend : (visit v c).ending with
  | halted =>
      rw [scan_of_halted hend]
      exact h.imp fun _ => rfl
  | finished ok =>
      rw [hend] at h
      cases hstops : stopsOn ok with
      | true =>
          rw [scan_of_stops hend hstops]
          exact h.imp nofun
      | false =>
          rw [scan_of_goesOn hend hstops]
          exact h.append nofun ..

end Scan

/-- Concluding a composite does not change where its walk has come to. -/
theorem conclude_comes {p : NodeIdx} {composite : Composite} {scanned : Walk ScanEnd}
    (h : Comes w a t i before scanned.tree scanned.trace (scanned.ending = .halted)) :
    Comes w a t i before (conclude a p composite scanned).tree
      (conclude a p composite scanned).trace
      ((conclude a p composite scanned).ending = .halted) := by
  by_cases hend : scanned.ending = .halted
  · rw [conclude_of_halted hend]
    exact h.imp fun _ => rfl
  · rw [conclude_of_not_halted hend]
    exact h.append hend ..

/-- A node that has not been entered is where its walk comes to. -/
theorem walk_comes_here (hfresh : t.arena.status i = .notEntered) (depth : Nat) :
    Comes w a t i [] (walk w a (depth + 1) t i).tree (walk w a (depth + 1) t i).trace
      ((walk w a (depth + 1) t i).ending = .halted) := by
  have hs : (t.arena.status i).outcome? = none := by rw [hfresh]; rfl
  cases hkind : t.arena.kind i with
  | action action =>
      rw [walk_of_action hs hkind]
      exact .action hkind rfl rfl rfl
  | condition condition =>
      rw [walk_of_condition hs hkind]
      exact .condition hkind [] rfl
  | composite composite =>
      rw [walk_of_composite hs hkind, enter, if_pos hfresh]
      exact .composite hkind _ rfl

/-- The nodes of a way stand in later and later rows. -/
theorem lt_of_isChain_leads {t : Arena} (h : t.Linked) {p : Nat} {way : List Nat}
    (hway : (p :: way).IsChain t.Leads) : ∀ j ∈ way, p < j := by
  have hlt : (p :: way).IsChain fun i j => i < j := hway.imp fun q c hleads => by
    obtain ⟨-, skipped, rest, -, hchildren, -⟩ := hleads.skips
    exact h.lt q c (hchildren ▸ List.mem_append_right skipped List.mem_cons_self)
  exact (List.pairwise_cons.mp (List.isChain_iff_pairwise.mp hlt)).1

/-- A way stays one when a node before it is entered. -/
theorem isChain_leads_enter (h : t.arena.Linked) {p : Nat} {way : List Nat}
    (hway : (p :: way).IsChain t.arena.Leads) :
    way.IsChain (t.enter a p).1.arena.Leads := by
  refine hway.tail.imp_of_mem_imp fun q c hq _ hleads => ?_
  have hlt : p < q := lt_of_isChain_leads h hway q hq
  refine hleads.of_shape h (shape_enter t a p) (status_enter_of_ne t a (Nat.ne_of_gt hlt)) ?_
  exact fun s hs _ => status_enter_of_ne t a (Nat.ne_of_gt (Nat.lt_trans hlt (h.lt q s hs)))

/-- A walk along a way of nodes, each of which leads to the next, goes straight to its end. -/
theorem walk_comes {t : Tree} (h : t.arena.Linked) {way : List NodeIdx} {p : NodeIdx}
    (hway : (way ++ [i]).IsChain t.arena.Leads) (hfirst : (way ++ [i]).head? = some p)
    (hfresh : t.arena.status i = .notEntered) {depth : Nat} (hdepth : way.length < depth) :
    Comes w a t i (t.entries a way) (walk w a depth t p).tree (walk w a depth t p).trace
      ((walk w a depth t p).ending = .halted) := by
  obtain ⟨depth, rfl⟩ : ∃ d, depth = d + 1 := ⟨depth - 1, by omega⟩
  induction way generalizing t p depth with
  | nil =>
      obtain rfl := Option.some.inj hfirst
      exact walk_comes_here hfresh depth
  | cons q way ih =>
      obtain rfl := Option.some.inj hfirst
      obtain ⟨depth, rfl⟩ : ∃ d, depth = d + 1 := ⟨depth - 1, by
        rw [List.length_cons] at hdepth
        omega⟩
      obtain ⟨c, rest, hnext⟩ := List.exists_cons_of_ne_nil (List.concat_ne_nil i way)
      have hlater : ∀ j ∈ way ++ [i], q < j := lt_of_isChain_leads h hway
      have hsame : ∀ j : Nat, q < j → (t.enter a q).1.arena.status j = t.arena.status j :=
        fun j hj => status_enter_of_ne t a (Nat.ne_of_gt hj)
      have hshape := shape_enter t a q
      have hcomes := ih (h.of_shape hshape) (isChain_leads_enter h hway) (by rw [hnext]; rfl)
        (by rw [hsame i (hlater i (by simp)), hfresh]) depth (Nat.lt_of_succ_lt_succ hdepth)
      rw [entries_congr hshape fun j hj => hsame j (hlater j (List.mem_append_left _ hj))] at hcomes
      -- The children before the way have ended, so the walk passes them over.
      have hway' : (q :: c :: rest).IsChain t.arena.Leads := hnext ▸ hway
      have hleads := (List.isChain_cons_cons.mp hway').1
      obtain ⟨composite, skipped, after, hkind, hchildren, hskipped⟩ := hleads.skips
      have hpassed : ∀ s ∈ skipped, ∃ ok,
          walk w a (depth + 1) (t.enter a q).1 s = ⟨(t.enter a q).1, [], .finished ok⟩ ∧
            composite.stopsOn ok = false := by
        intro s hs
        obtain ⟨ok, hok, hstops⟩ := hskipped s hs
        have hlt := h.lt q s (hchildren ▸ List.mem_append_left _ hs)
        exact ⟨ok, walk_of_finished (by rw [hsame s hlt, hok]) depth, hstops⟩
      rw [walk_of_composite hleads.unfinished hkind, hchildren, scan_append_of_ended hpassed,
        entries_cons]
      exact ((conclude_comes (scan_comes hcomes after)).after _).of_shape hshape

/-! ### Turns that go straight to a node -/

/-- The walks of a turn come to where its first walk comes to. -/
theorem walks_comes
    (h : Comes w a t i before (t.firstWalk w a).tree (t.firstWalk w a).trace
      ((t.firstWalk w a).ending = .halted)) :
    Comes w a t i before (t.walks w a).tree (t.walks w a).trace
      ((t.walks w a).ending = .halted) := by
  rw [walks]
  cases hend : (t.firstWalk w a).ending with
  | halted => exact h.imp fun _ => hend
  | finished ok =>
      rw [hend] at h
      exact h.append (fun hhalted => by cases hhalted) ..

/-- A turn begins with the records of its walks. -/
theorem walks_trace_prefix (t : Tree) (w : World) (a : AgentId) :
    (t.walks w a).trace <+: (t.tick w a).trace := by
  cases hp : (t.walks w a).tree.pending? with
  | none =>
      exact ⟨[], by rw [tick_of_not_pending hp, List.append_nil]⟩
  | some action =>
      rw [tick_of_pending hp]
      exact List.prefix_append ..

/-- A turn comes to where its walks come to. -/
theorem Sound.reaches_of_comes (h : t.Sound)
    (hcomes : Comes w a t i before (t.walks w a).tree (t.walks w a).trace
      ((t.walks w a).ending = .halted)) :
    (t.tick w a).Reaches w a t i before := by
  have hwalks := h.walks_passes w a
  cases hcomes with
  | @action action hkind _ hcurrent htrace =>
      have hsame : (t.walks w a).tree.arena.kind i = .action action :=
        (kind_of_shape hwalks.shape i).trans hkind
      have hpending : (t.walks w a).tree.pending? = some action := by
        rw [pending?, hcurrent, hsame]
      have hid : (t.walks w a).tree.currentId = t.arena.id i := by
        rw [currentId, hcurrent, id_of_shape hwalks.shape]
      have hperforms : (t.tick w a).Performs w a action := by
        rw [tick_of_pending hpending]
        refine ⟨?_, rfl, (t.walks w a).trace, hwalks.records, ?_⟩
        · exact (kind_setStatus ..).trans (kind_of_pending? hpending)
        · simp only [currentId, setStatus, id_setStatus]
      refine .action hkind hperforms ?_ ?_ <;> rw [tick_of_pending hpending]
      · exact hcurrent
      · rw [htrace, hid, entryFor, hkind]
  | condition hkind more htrace =>
      obtain ⟨last, hlast⟩ := walks_trace_prefix t w a
      refine .condition hkind (more ++ last) ?_
      rw [← hlast, htrace, List.append_assoc]
      rfl
  | composite hkind more htrace =>
      obtain ⟨last, hlast⟩ := walks_trace_prefix t w a
      refine .composite hkind (more ++ last) ?_
      rw [← hlast, htrace, List.append_assoc]
      rfl

/-- The way to a node begins at the root. -/
theorem Sound.head?_above (h : t.Sound) (hlt : i < t.arena.size) {above : List NodeIdx}
    (habove : t.arena.Above i above) : (above ++ [i]).head? = some t.root := by
  induction habove with
  | @top i hparent =>
      rw [(h.parent?_eq_none_iff i hlt).mp hparent]
      rfl
  | @step i p above hparent _ ih =>
      have hchild := (h.linked.parent?_iff p i).mp hparent
      rw [List.head?_append, ih (lt_size_of_mem_children hchild)]
      rfl

/-- If every node on the way to a node leads to the next, a turn goes straight to it. -/
theorem Sound.tick_reaches (h : t.Sound) (hlt : i < t.arena.size) {above : List NodeIdx}
    (habove : t.arena.Above i above) (hway : (above ++ [i]).IsChain t.arena.Leads)
    (hfresh : t.arena.status i = .notEntered) (w : World) (a : AgentId) :
    (t.tick w a).Reaches w a t i (t.entries a above) := by
  have hlen : above.length < t.arena.size := by
    obtain ⟨above', habove', hle⟩ := h.linked.exists_above i
    rw [habove.unique habove']
    exact Nat.lt_of_le_of_lt hle hlt
  exact h.reaches_of_comes
    (walks_comes (walk_comes h.linked hway (h.head?_above hlt habove) hfresh hlen))

/-- **A jump goes straight to its target.** After a jump to a node other than the root, an
action is announced itself, and for other nodes the root is. The next turn enters the nodes
above the target, as far as they have not been entered, from the root down, and then comes
to the target, which has not been entered. A jump to an unknown node changes nothing. -/
theorem Reachable.jumpTo_reaches {Admitted : NodeSpec → Prop} {t : Tree}
    (h : t.Reachable Admitted) (id : String) (w : World) (a : AgentId) :
    (∀ i, t.arena.lookup? id = some i → i ≠ t.root →
      ∃ u above, t.jumpTo id = .ok u ∧ t.arena.Above i above ∧
        u.head = (if (t.arena.kind i).isAction then id else t.rootId) ∧
        u.arena.status i = .notEntered ∧ (u.tick w a).Reaches w a u i (u.entries a above)) ∧
      (t.arena.lookup? id = none →
        t.jumpTo id = .error (.unknownNode id) ∧ t.after (.jumpTo id) = t) := by
  have hsound := h.sound
  refine ⟨fun i hlookup hne => ?_, fun hunknown => ?_⟩
  · obtain ⟨hlt, hid⟩ := (hsound.linked.lookup?_iff id i).mp hlookup
    obtain ⟨above, habove, -⟩ := hsound.linked.exists_above i
    obtain ⟨hway, hfresh⟩ := hsound.leads_of_jumpTo hlt habove
    have hjump := hsound.jumpTo_eq hlookup hne habove
    obtain ⟨u, hu⟩ : ∃ u : Tree, u = ⟨(leadAlong t.arena (above ++ [i])).resetFrom i, t.root, i,
      true⟩ := ⟨_, rfl⟩
    rw [← hu] at hjump
    have hshape : u.arena.shape = t.arena.shape := by
      rw [hu, shape_resetFrom, shape_leadAlong]
    have hcurrent : u.current = i := by rw [hu]
    refine ⟨u, above, hjump, habove, ?_, by rw [hu]; exact hfresh, ?_⟩
    · have hrootId : u.rootId = t.rootId := by
        rw [rootId, id_of_shape hshape, hu, rootId]
      have hcurrentId : u.currentId = id := by rw [currentId, hcurrent, id_of_shape hshape, hid]
      have hparent : ∃ p, u.arena.parent? i = some p := by
        rw [parent?_of_shape hshape]
        obtain ⟨p, -, hp, -⟩ := hsound.exists_parent hlt hne
        exact ⟨p, hp⟩
      obtain ⟨p, hp⟩ := hparent
      have hjumped : u.jumped = true := by rw [hu]
      rw [head, pending?, hcurrent, kind_of_shape hshape, hrootId, hcurrentId, hp, hjumped]
      cases t.arena.kind i <;> rfl
    · exact (hsound.jumpTo hjump).tick_reaches (by rwa [size_of_shape hshape])
        (above_of_shape hshape habove) (by rw [hu]; exact hway) (by rw [hu]; exact hfresh) w a
  · have hjump : t.jumpTo id = .error (.unknownNode id) := by
      rw [Tree.jumpTo, require, hunknown]
      rfl
    exact ⟨hjump, by rw [Tree.after, Operation.run, hjump]⟩

/-- After a turn, a jump goes back to a condition below a parallel, and there is no node to
jump to where the name is unknown. -/
theorem jumpTo_reaches_back :
    let w : World := ⟨Grid.blank 2 1, Colony.ofSpawns [⟨⟨0, 0⟩, .right⟩]⟩
    ∃ t : Tree,
      Flowchart.readTrees ["flowchart TD", "A[->] --> B[=1>]", "B --> C([treeFront])",
        "B --> D([atEdge])", "A --> E[move]"] 1 = .ok [t] ∧
      (∃ u above, (t.after (.tick w .first)).jumpTo "D" = .ok u ∧
        (t.after (.tick w .first)).arena.Above 3 above ∧ u.head = "A" ∧
        u.arena.status 3 = .notEntered ∧
        (u.tick w .first).Reaches w .first u 3 (u.entries .first above)) ∧
      (t.after (.tick w .first)).jumpTo "F" = .error (.unknownNode "F") := by
  intro w
  have hjumps (t : Tree)
      (ht : Flowchart.readTrees ["flowchart TD", "A[->] --> B[=1>]", "B --> C([treeFront])",
        "B --> D([atEdge])", "A --> E[move]"] 1 = .ok [t])
      (hlookup : (t.after (.tick w .first)).arena.lookup? "D" = some 3)
      (hroot : 3 ≠ (t.after (.tick w .first)).root)
      (hhead : (if ((t.after (.tick w .first)).arena.kind 3).isAction then "D"
        else (t.after (.tick w .first)).rootId) = "A")
      (hunknown : (t.after (.tick w .first)).arena.lookup? "F" = none) :
      (∃ u above, (t.after (.tick w .first)).jumpTo "D" = .ok u ∧
        (t.after (.tick w .first)).arena.Above 3 above ∧ u.head = "A" ∧
        u.arena.status 3 = .notEntered ∧
        (u.tick w .first).Reaches w .first u 3 (u.entries .first above)) ∧
      (t.after (.tick w .first)).jumpTo "F" = .error (.unknownNode "F") := by
    have hread : Reachable (fun _ => True) t := .read ht (List.mem_singleton_self t)
    have htick : Reachable (fun _ => True) (t.after (.tick w .first)) := .after hread trivial
    obtain ⟨u, above, hjump, habove, hannounced, hfresh, hreaches⟩ :=
      (Reachable.jumpTo_reaches htick "D" w .first).1 3 hlookup hroot
    exact ⟨⟨u, above, hjump, habove, hannounced.trans hhead, hfresh, hreaches⟩,
      ((Reachable.jumpTo_reaches htick "F" w .first).2 hunknown).1⟩
  exact ⟨_, rfl, hjumps _ rfl (by decide) (by decide) (by decide) (by decide)⟩

end Tree

end Ladybug
