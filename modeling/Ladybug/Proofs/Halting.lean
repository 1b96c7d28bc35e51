import Ladybug.Proofs.Jumping
import Ladybug.Proofs.LastRecords

/-!
# Where a walk halts

A walk that halts leaves a trail. Every node above the action it halted at is running, and of
its children those before the way down have ended without settling it. So each of these nodes
leads to the next, whatever the statuses were when the walk began: the walk itself has brought
them into this state. It is the state that lets the next walk come back to the same place
without entering anything again.

## Main definitions

* `Arena.RunsTo` — a way of running nodes, each of which leads to the next.

## Main results

* `Tree.scan_halts` — what is true before each child is true where going through them halts.
* `Tree.walk_runsTo` — a walk that halts leaves running nodes down to its action.
* `Tree.Sound.tick_runsTo` — so does a turn that halts.
-/

namespace Ladybug

namespace Arena

variable {t u : Arena}

/-! ### Running nodes -/

/-- The nodes of the way are running, and each leads to the next and the last one to the
given node. -/
structure RunsTo (t : Arena) (way : List NodeIdx) (i : NodeIdx) : Prop where
  running : ∀ p ∈ way, t.status p = .running
  leads : (way ++ [i]).IsChain t.Leads

/-- A node runs to itself. -/
theorem RunsTo.here (t : Arena) (i : NodeIdx) : t.RunsTo [] i where
  running _ hp := nomatch hp
  leads := .singleton i

/-- A running node that leads to the first node of the way may stand before it. -/
theorem RunsTo.cons {p c i : NodeIdx} {way : List NodeIdx} (h : t.RunsTo way i)
    (hfirst : (way ++ [i]).head? = some c) (hp : t.status p = .running) (hleads : t.Leads p c) :
    t.RunsTo (p :: way) i where
  running := List.forall_mem_cons.mpr ⟨hp, h.running⟩
  leads := List.isChain_cons.mpr ⟨fun d hd => by
    obtain rfl := Option.some.inj (hfirst.symm.trans hd)
    exact hleads, h.leads⟩

/-- Running nodes above a node keep running to it after changes below it. -/
theorem RunsTo.of_below {i : NodeIdx} {above : List NodeIdx} (hruns : t.RunsTo above i)
    (h : t.Linked) (habove : t.Above i above) (hshape : u.shape = t.shape)
    (hframe : ∀ j, ¬ t.Climbs j i → u.status j = t.status j) : u.RunsTo above i where
  running p hp := by rw [hframe p (habove.not_climbs h p hp), hruns.running p hp]
  leads := habove.isChain_of_below h hruns.leads hshape hframe

end Arena

namespace Tree

open Arena

variable {w : World} {a : AgentId} {t u : Tree} {i : NodeIdx}

/-! ### Walks with enough depth -/

/-- With a step of depth for each row from the node on, a walk passes what lies below the node,
and leaves an outcome there if it does not halt. -/
theorem exists_walk_passes (w : World) (a : AgentId) (h : t.arena.Linked) {i depth : Nat}
    (hi : i < t.arena.size) (hdepth : t.arena.size ≤ i + depth) :
    ∃ nodes, (∀ j, j ∈ nodes ↔ t.arena.Climbs j i) ∧
      Passes w a t nodes (walk w a depth t i).trace (walk w a depth t i).tree
        ((walk w a depth t i).ending = .halted) ∧
      ∀ ok, (walk w a depth t i).ending = .finished ok →
        ((walk w a depth t i).tree.arena.status i).outcome? = some ok := by
  obtain ⟨below, hroots, hgrows⟩ := h.exists_grows (t.arena.children i)
  have hheight := h.height_add_le hgrows (k := i + 1) hi fun j hj => by
    have hj' : j ∈ t.arena.children i := hroots ▸ hj
    exact ⟨h.lt i j hj', h.child_lt_size hj'⟩
  obtain ⟨depth, rfl⟩ : ∃ d, depth = d + 1 := ⟨depth - 1, by omega⟩
  exact ⟨i :: below.preorder, fun j => h.mem_tree_iff hroots.symm hgrows,
    walk_passes hroots.symm hgrows (by omega),
    fun ok => outcome?_of_finished_walk hroots.symm hgrows hi (by omega)⟩

/-- It leaves what is not below the node as it is. -/
theorem status_walk_of_not_climbs (w : World) (a : AgentId) (h : t.arena.Linked) {i depth : Nat}
    (hi : i < t.arena.size) (hdepth : t.arena.size ≤ i + depth) {j : NodeIdx}
    (hj : ¬ t.arena.Climbs j i) :
    (walk w a depth t i).tree.arena.status j = t.arena.status j := by
  obtain ⟨nodes, hnodes, hpasses, -⟩ := exists_walk_passes w a h hi hdepth
  exact hpasses.frame j (by rwa [hnodes])

/-! ### Where going through children halts -/

/-- What is true before the first child, and is carried on by each child that ends without
settling its parent, is true where going through the children halts. -/
theorem scan_halts {visit : Tree → NodeIdx → Walk WalkEnd} {stopsOn : Bool → Bool}
    {is : List NodeIdx} (P : List NodeIdx → Tree → Prop) (hstart : P [] t)
    (hstep : ∀ skipped c rest v ok, is = skipped ++ c :: rest → P skipped v →
      (visit v c).ending = .finished ok → stopsOn ok = false →
      P (skipped ++ [c]) (visit v c).tree)
    (hend : (scan visit stopsOn t is).ending = .halted) :
    ∃ skipped c rest v, is = skipped ++ c :: rest ∧ P skipped v ∧
      (visit v c).ending = .halted ∧ (scan visit stopsOn t is).tree = (visit v c).tree := by
  induction is generalizing t P with
  | nil => cases hend
  | cons c is ih =>
      cases hvisit : (visit t c).ending with
      | halted => exact ⟨[], c, is, t, rfl, hstart, hvisit, by rw [scan_of_halted hvisit]⟩
      | finished ok =>
          cases hstops : stopsOn ok with
          | true =>
              rw [scan_of_stops hvisit hstops] at hend
              cases hend
          | false =>
              rw [scan_of_goesOn hvisit hstops] at hend ⊢
              -- The children from the second one on are gone through with the first one done.
              obtain ⟨skipped, d, rest, v, his, hv, hhalted, htree⟩ :=
                ih (fun skipped v => P (c :: skipped) v)
                  (hstep [] c is t ok rfl hstart hvisit hstops)
                  (fun skipped d rest v ok his => hstep (c :: skipped) d rest v ok (by rw [his]; rfl))
                  hend
              exact ⟨c :: skipped, d, rest, v, by rw [his]; rfl, hv, hhalted, htree⟩

/-- While the children of a composite are gone through, it is running, and those that are done
have ended without settling it. -/
structure GoesThrough (t : Arena) (p : NodeIdx) (composite : Composite) (skipped : List NodeIdx)
    (v : Tree) : Prop where
  shape : v.arena.shape = t.shape
  running : v.arena.status p = .running
  skips : ∀ s ∈ skipped, ∃ ok, (v.arena.status s).outcome? = some ok ∧ composite.stopsOn ok = false

namespace GoesThrough

variable {t : Arena} {p c : NodeIdx} {composite : Composite} {skipped rest : List NodeIdx} {v : Tree}

/-- It still leads to the child at which a walk halts. -/
theorem leads (hv : GoesThrough t p composite skipped v) (hkind : t.kind p = .composite composite)
    (hchildren : t.children p = skipped ++ c :: rest) : v.arena.Leads p c where
  unfinished := by rw [hv.running]; rfl
  skips := ⟨composite, skipped, rest, by rw [kind_of_shape hv.shape, hkind],
    by rw [children_of_shape hv.shape, hchildren], hv.skips⟩

/-- A step of depth less is enough for a child. -/
theorem rows (hv : GoesThrough t p composite skipped v) (h : t.Linked) (hc : c ∈ t.children p)
    {depth : Nat} (hdepth : t.size ≤ p + (depth + 1)) :
    c < v.arena.size ∧ v.arena.size ≤ c + depth := by
  have hlt := h.lt p c hc
  rw [size_of_shape hv.shape]
  exact ⟨h.child_lt_size hc, by omega⟩

/-- A child that is done is followed by the next. -/
theorem concat {u : Tree} {ok : Bool} (hv : GoesThrough t p composite skipped v) (h : t.Linked)
    (hchildren : t.children p = skipped ++ c :: rest) (hshape : u.arena.shape = v.arena.shape)
    (hframe : ∀ j, ¬ t.Climbs j c → u.arena.status j = v.arena.status j)
    (hok : (u.arena.status c).outcome? = some ok) (hstops : composite.stopsOn ok = false) :
    GoesThrough t p composite (skipped ++ [c]) u := by
  have hc : c ∈ t.children p := hchildren ▸ List.mem_append_right skipped List.mem_cons_self
  refine ⟨hshape.trans hv.shape, ?_, fun s hs => ?_⟩
  · rw [hframe p (h.not_climbs_child hc), hv.running]
  · rcases List.mem_append.mp hs with hs | hs
    · obtain ⟨hmem, hne, -⟩ := (h.around_child hchildren).1 s hs
      rw [hframe s fun hclimb => hne (h.eq_of_climbs_sibling hmem hc hclimb)]
      exact hv.skips s hs
    · obtain rfl := List.mem_singleton.mp hs
      exact ⟨ok, hok, hstops⟩

end GoesThrough

/-- A walk that halts below a composite halts below one of its children, with the composite
running and the children before it done. -/
theorem exists_child_of_halted (h : t.arena.Linked) {i depth : Nat} {composite : Composite}
    (hs : (t.arena.status i).outcome? = none) (hkind : t.arena.kind i = .composite composite)
    (hi : i < t.arena.size) (hdepth : t.arena.size ≤ i + (depth + 1))
    (hend : (walk w a (depth + 1) t i).ending = .halted) :
    ∃ skipped c rest v, t.arena.children i = skipped ++ c :: rest ∧
      GoesThrough t.arena i composite skipped v ∧ (walk w a depth v c).ending = .halted ∧
      (walk w a (depth + 1) t i).tree = (walk w a depth v c).tree := by
  rw [walk_of_composite hs hkind] at hend ⊢
  have hscan : (scan (walk w a depth) composite.stopsOn (t.enter a i).1
      (t.arena.children i)).ending = .halted := by
    by_contra hne
    rw [conclude_of_not_halted hne] at hend
    cases hend
  rw [conclude_of_halted hscan]
  refine scan_halts (GoesThrough t.arena i composite)
    ⟨shape_enter t a i, status_enter_self hi hs, fun s hs => nomatch hs⟩ ?_ hscan
  intro skipped c rest v ok hchildren hv hvisit hstops
  have hc : c ∈ t.arena.children i := hchildren ▸ List.mem_append_right skipped List.mem_cons_self
  obtain ⟨hlt, hle⟩ := hv.rows h hc hdepth
  obtain ⟨nodes, hnodes, hpasses, hok⟩ := exists_walk_passes w a (h.of_shape hv.shape) hlt hle
  refine hv.concat h hchildren hpasses.shape (fun j hj => hpasses.frame j ?_) (hok ok hvisit) hstops
  rwa [hnodes, climbs_of_shape hv.shape]

/-- A composite runs to where the walk of its child halts, if the child does. -/
theorem GoesThrough.runsTo (h : t.arena.Linked) {i depth : Nat} {composite : Composite}
    {skipped rest : List NodeIdx} {c : NodeIdx} {v : Tree}
    (hv : GoesThrough t.arena i composite skipped v) (hkind : t.arena.kind i = .composite composite)
    (hchildren : t.arena.children i = skipped ++ c :: rest)
    (hdepth : t.arena.size ≤ i + (depth + 1)) {way : List NodeIdx} {j : NodeIdx}
    (hfirst : (way ++ [j]).head? = some c)
    (hruns : (walk w a depth v c).tree.arena.RunsTo way j) :
    (walk w a depth v c).tree.arena.RunsTo (i :: way) j := by
  have hc : c ∈ t.arena.children i := hchildren ▸ List.mem_append_right skipped List.mem_cons_self
  have hlinked := h.of_shape hv.shape
  obtain ⟨hlt, hle⟩ := hv.rows h hc hdepth
  have hshape := (walk_records (w := w) (a := a) hlinked hlt depth).shape
  have hup : ¬ v.arena.Climbs i c := by
    rw [climbs_of_shape hv.shape]
    exact h.not_climbs_child hc
  refine hruns.cons hfirst ?_ ((hv.leads hkind hchildren).of_below hlinked hshape
    fun k hk => status_walk_of_not_climbs w a hlinked hlt hle hk)
  rw [status_walk_of_not_climbs w a hlinked hlt hle hup, hv.running]

/-- **A walk that halts leaves running nodes down to its action**, each of which leads to the
next. -/
theorem walk_runsTo (h : t.arena.Linked) {i depth : Nat} (hi : i < t.arena.size)
    (hdepth : t.arena.size ≤ i + depth) {above : List NodeIdx} (habove : t.arena.Above i above)
    (hend : (walk w a depth t i).ending = .halted) :
    ∃ way, t.arena.Above (walk w a depth t i).tree.current (above ++ way) ∧
      (way ++ [(walk w a depth t i).tree.current]).head? = some i ∧
      (walk w a depth t i).tree.arena.RunsTo way (walk w a depth t i).tree.current := by
  induction depth generalizing t i above with
  | zero => omega
  | succ depth ih =>
      cases hs : (t.arena.status i).outcome? with
      | some ok =>
          rw [walk_of_finished hs] at hend
          cases hend
      | none =>
          cases hk : t.arena.kind i with
          | action action =>
              rw [walk_of_action hs hk]
              exact ⟨[], by rwa [List.append_nil], rfl, .here _ i⟩
          | condition condition =>
              rw [walk_of_condition hs hk] at hend
              cases hend
          | composite composite =>
              obtain ⟨skipped, c, rest, v, hchildren, hv, hhalted, htree⟩ :=
                exists_child_of_halted h hs hk hi hdepth hend
              have hc : c ∈ t.arena.children i :=
                hchildren ▸ List.mem_append_right skipped List.mem_cons_self
              have hparent : v.arena.parent? c = some i := by
                rw [parent?_of_shape hv.shape]
                exact (h.parent?_iff i c).mpr hc
              obtain ⟨hlt, hle⟩ := hv.rows h hc hdepth
              obtain ⟨way, habove', hfirst, hruns⟩ := ih (h.of_shape hv.shape) hlt hle
                (.step hparent (above_of_shape hv.shape habove)) hhalted
              rw [List.append_assoc] at habove'
              rw [htree]
              exact ⟨i :: way, above_of_shape hv.shape.symm habove', rfl,
                hv.runsTo h hk hchildren hdepth hfirst hruns⟩

/-! ### Where a turn halts -/

/-- Where the first walk of a turn halts, the nodes above the action run to it. -/
theorem Sound.firstWalk_runsTo (h : t.Sound) (hend : (t.firstWalk w a).ending = .halted) :
    ∃ above, t.arena.Above (t.firstWalk w a).tree.current above ∧
      (t.firstWalk w a).tree.arena.RunsTo above (t.firstWalk w a).tree.current := by
  have htop : t.arena.Above t.root [] := .top ((h.parent?_eq_none_iff t.root h.root_lt).mpr rfl)
  obtain ⟨way, habove, -, hruns⟩ :=
    walk_runsTo h.linked h.root_lt (Nat.le_add_left ..) htop hend
  exact ⟨way, habove, hruns⟩

/-- Where the walks of a turn halt, the nodes above the action run to it, whichever walk it
was. -/
theorem Sound.walks_runsTo (h : t.Sound) (hend : (t.walks w a).ending = .halted) :
    ∃ above, t.arena.Above (t.walks w a).tree.current above ∧
      (t.walks w a).tree.arena.RunsTo above (t.walks w a).tree.current := by
  cases hfirst : (t.firstWalk w a).ending with
  | halted =>
      rw [walks_of_halted hfirst]
      exact h.firstWalk_runsTo hfirst
  | finished ok =>
      have hshape : (t.firstWalk w a).tree.restart.arena.shape = t.arena.shape :=
        (shape_resetFrom ..).trans (h.firstWalk_passes w a).shape
      rw [walks_of_finished hfirst] at hend ⊢
      obtain ⟨above, habove, hruns⟩ := ((h.firstWalk_sound w a).restart).firstWalk_runsTo hend
      exact ⟨above, above_of_shape hshape.symm habove, hruns⟩

/-- A turn leaves the outcome of the action it has performed under the resume pointer. -/
theorem Sound.status_of_performs (h : t.Sound) {action : Action}
    (hperforms : (t.tick w a).Performs w a action) :
    (t.tick w a).tree.arena.status (t.tick w a).tree.current =
      .ofOutcome (action.perform w a).2 := by
  have hkind := hperforms.pointer
  cases hp : (t.walks w a).tree.pending? with
  | none =>
      rw [tick_of_not_pending hp] at hkind
      rw [pending?, hkind] at hp
      cases hp
  | some pending =>
      rw [tick_of_pending hp] at hkind ⊢
      obtain rfl : pending = action := by
        have hsame := ((kind_setStatus ..).symm.trans hkind).symm.trans (kind_of_pending? hp)
        injection hsame.symm
      exact (status_setStatus (h.walks_sound w a).current_lt _ _).trans (if_pos rfl)

/-- **After a turn whose walks halt, the nodes above the action it has performed run to it.** -/
theorem Sound.tick_runsTo (h : t.Sound) (hend : (t.walks w a).ending = .halted) :
    ∃ above, t.arena.Above (t.tick w a).tree.current above ∧
      (t.tick w a).tree.arena.RunsTo above (t.tick w a).tree.current := by
  have hwalks := h.walks_passes w a
  obtain ⟨above, habove, hruns⟩ := h.walks_runsTo hend
  obtain ⟨action, hpending⟩ := Option.isSome_iff_exists.mp (hwalks.halts hend).2.1
  rw [tick_of_pending hpending]
  refine ⟨above, habove, hruns.of_below (h.walks_sound w a).linked
    (above_of_shape hwalks.shape habove) (shape_setStatus ..) fun j hj => ?_⟩
  refine status_setStatus_of_ne _ (fun hji => ?_) _
  rw [hji] at hj
  exact hj .refl

end Tree

end Ladybug
