import Ladybug.Proofs.Sound
import Mathlib.Data.List.Chain

/-!
# The way to the target of a jump

A jump marks the nodes above its target as if a turn had come down to it. Each of them has
not ended, and of its children those before the way have ended without settling it. The
marks are made from the root down, and those for one node of the way touch only what lies
below that node. So later marks leave earlier ones as they are, and at the end every node of
the way leads to the next one, whatever the statuses were before the jump.

## Main definitions

* `Arena.Above` — the nodes above a node, from the topmost one down.
* `Arena.Leads` — a node stands as if a walk had come to one of its children.
* `Tree.mark` — the marks for a node of the way and for its children before the way.

## Main results

* `Arena.Linked.exists_above` — above every node of a linked table there is such a way.
* `Tree.leads_leadTo` and `Tree.leads_leadAlong` — what the marks of a jump are for.
* `Tree.Sound.jumpTo_eq` — the tree after a jump.
* `Tree.Sound.leads_of_jumpTo` — every node of the way leads to the next, and the target has
  not been entered.
-/

namespace Ladybug

namespace Arena

variable {t u : Arena}

/-- The nodes above a node, from the topmost one down to its parent. -/
inductive Above (t : Arena) : NodeIdx → List NodeIdx → Prop
  | top {i : NodeIdx} (hparent : t.parent? i = none) : Above t i []
  | step {i p : NodeIdx} {above : List NodeIdx} (hparent : t.parent? i = some p)
      (habove : Above t p above) : Above t i (above ++ [p])

/-- The node has not ended, and of its children those before the given one have ended without
settling it. -/
structure Leads (t : Arena) (p c : NodeIdx) : Prop where
  unfinished : (t.status p).outcome? = none
  skips : ∃ composite skipped rest, t.kind p = .composite composite ∧
    t.children p = skipped ++ c :: rest ∧
    ∀ s ∈ skipped, ∃ ok, (t.status s).outcome? = some ok ∧ composite.stopsOn ok = false

/-! ### Ways -/

/-- There is a way from the top to every node, and it is no longer than the rows before. -/
theorem Linked.exists_above (h : t.Linked) (i : Nat) :
    ∃ above, t.Above i above ∧ above.length ≤ i := by
  induction i using Nat.strongRecOn with
  | ind i ih =>
      cases hp : t.parent? i with
      | none => exact ⟨[], .top hp, Nat.zero_le i⟩
      | some p =>
          have hlt : p < i := h.lt p i ((h.parent?_iff p i).mp hp)
          obtain ⟨above, habove, hlen⟩ := ih p hlt
          refine ⟨above ++ [p], .step hp habove, ?_⟩
          rw [List.length_append, List.length_singleton]
          exact Nat.lt_of_le_of_lt hlen hlt

/-- Only one way leads to a node. -/
theorem Above.unique {i : NodeIdx} {above above' : List NodeIdx} (h : t.Above i above)
    (h' : t.Above i above') : above = above' := by
  induction h generalizing above' with
  | top hparent =>
      cases h' with
      | top => rfl
      | step hparent' => rw [hparent] at hparent'; cases hparent'
  | step hparent _ ih =>
      cases h' with
      | top hparent' => rw [hparent] at hparent'; cases hparent'
      | step hparent' habove' =>
          obtain rfl := Option.some.inj (hparent.symm.trans hparent')
          rw [ih habove']

/-- On a way, every node is followed by one of its children. -/
theorem Above.isChain (h : t.Linked) {i : NodeIdx} {above : List NodeIdx} (habove : t.Above i above) :
    (above ++ [i]).IsChain fun p c => c ∈ t.children p := by
  induction habove with
  | top => exact .singleton _
  | @step i p above hparent habove ih =>
      have hchild : i ∈ t.children p := (h.parent?_iff p i).mp hparent
      rw [List.append_assoc]
      exact List.isChain_append_cons_cons.mpr ⟨ih, hchild, .singleton i⟩

/-- A node climbs to every node on the way to it. -/
theorem Above.climbs {i : NodeIdx} {above : List NodeIdx} (h : t.Above i above) :
    ∀ j ∈ above ++ [i], t.Climbs i j := by
  induction h with
  | top =>
      intro j hj
      obtain rfl := List.mem_singleton.mp hj
      exact .refl
  | step hparent _ ih =>
      intro j hj
      rcases List.mem_append.mp hj with hj | hj
      · exact (ih j hj).head hparent
      · obtain rfl := List.mem_singleton.mp hj
        exact .refl

/-- A node does not climb to itself from above. -/
theorem Above.not_climbs (h : t.Linked) {i : Nat} {above : List Nat} (habove : t.Above i above) :
    ∀ p ∈ above, ¬ t.Climbs p i := by
  intro p hp hclimb
  have hlt : (above ++ [i]).IsChain fun p c => p < c :=
    (habove.isChain h).imp fun p c hc => h.lt p c hc
  have hpi : p < i := (List.pairwise_append.mp (List.isChain_iff_pairwise.mp hlt)).2.2 p hp i
    (List.mem_singleton_self i)
  exact absurd (h.le_of_climbs hclimb) (Nat.not_le_of_lt hpi)

/-! ### Progress that is forgotten -/

/-- Tables of one shape have the same ways up. -/
theorem climbs_of_shape (hshape : u.shape = t.shape) {i j : NodeIdx} :
    u.Climbs i j ↔ t.Climbs i j := by
  rw [Climbs, Climbs]
  simp only [parent?_of_shape hshape]

/-- Tables of one shape have the same ways down. -/
theorem above_of_shape (hshape : u.shape = t.shape) {i : NodeIdx}
    {above : List NodeIdx} (h : t.Above i above) : u.Above i above := by
  induction h with
  | top hparent => exact .top (by rw [parent?_of_shape hshape, hparent])
  | step hparent _ ih => exact .step (by rw [parent?_of_shape hshape, hparent]) ih

/-- What is visited lies below the stack. -/
theorem Linked.climbs_of_mem_visit (h : t.Linked) {fuel : Nat} {stack : List NodeIdx} {j : NodeIdx}
    (hj : j ∈ t.visit fuel stack) : ∃ i ∈ stack, t.Climbs j i := by
  induction fuel generalizing stack with
  | zero => cases hj
  | succ fuel ih =>
      cases stack with
      | nil => cases hj
      | cons i stack =>
          rcases List.mem_cons.mp hj with rfl | hj
          · exact ⟨j, List.mem_cons_self, .refl⟩
          · obtain ⟨k, hk, hjk⟩ := ih hj
            rcases List.mem_append.mp hk with hk | hk
            · exact ⟨i, List.mem_cons_self, hjk.tail ((h.parent?_iff i k).mpr hk)⟩
            · exact ⟨k, List.mem_cons_of_mem i hk, hjk⟩

/-- What a reset forgets lies below its node. -/
theorem Linked.climbs_of_mem_preorderFrom (h : t.Linked) {i j : NodeIdx}
    (hj : j ∈ t.preorderFrom i) : t.Climbs j i := by
  obtain ⟨k, hk, hjk⟩ := h.climbs_of_mem_visit hj
  obtain rfl := List.mem_singleton.mp hk
  exact hjk

/-- A reset leaves what is not below its node. -/
theorem Linked.status_resetFrom_of_not_climbs (h : t.Linked) {i j : NodeIdx}
    (hj : ¬ t.Climbs j i) : (t.resetFrom i).status j = t.status j :=
  status_setStatuses_of_not_mem t (fun hmem => hj (h.climbs_of_mem_preorderFrom hmem)) .notEntered

/-- Several resets leave what is not below any of their nodes. -/
theorem Linked.status_foldl_resetFrom (h : t.Linked) {is : List NodeIdx} {j : NodeIdx}
    (hj : ∀ i ∈ is, ¬ t.Climbs j i) : (is.foldl resetFrom t).status j = t.status j := by
  induction is generalizing t with
  | nil => rfl
  | cons i is ih =>
      obtain ⟨hi, his⟩ := List.forall_mem_cons.mp hj
      have hshape : (t.resetFrom i).shape = t.shape := shape_resetFrom t i
      have hrest := ih (h.of_shape hshape) fun k hk =>
        fun hclimb => his k hk ((climbs_of_shape hshape).mp hclimb)
      exact hrest.trans (h.status_resetFrom_of_not_climbs hi)

/-- A reset forgets the progress of its node. -/
theorem Linked.status_resetFrom_self (h : t.Linked) {i : NodeIdx} (hi : i < t.size) :
    (t.resetFrom i).status i = .notEntered := by
  have hrows : ∀ j ∈ t.preorderFrom i, j < t.size := by
    intro j hj
    rcases Relation.ReflTransGen.cases_head (h.climbs_of_mem_preorderFrom hj) with rfl | ⟨p, hp, -⟩
    · exact hi
    · exact lt_size_of_parent? hp
  have hself : i ∈ t.preorderFrom i := by
    obtain ⟨fuel, hfuel⟩ : ∃ fuel, t.size = fuel + 1 :=
      ⟨t.size - 1, (Nat.succ_pred_eq_of_pos (Nat.zero_lt_of_lt hi)).symm⟩
    rw [preorderFrom, hfuel]
    exact List.mem_cons_self
  rw [resetFrom, status_setStatuses hrows, if_pos hself]

/-! ### Nodes with children -/

/-- A node with children is a composite. -/
theorem Linked.exists_composite (h : t.Linked) {p c : NodeIdx} (hc : c ∈ t.children p) :
    ∃ composite, t.kind p = .composite composite := by
  have hcomposite := h.composite p (List.ne_nil_of_mem hc)
  cases hkind : t.kind p with
  | composite composite => exact ⟨composite, rfl⟩
  | action action => rw [hkind] at hcomposite; cases hcomposite
  | condition condition => rw [hkind] at hcomposite; cases hcomposite

/-- The children before one and those after it. -/
theorem Linked.around_child (h : t.Linked) {p c : NodeIdx} {skipped rest : List NodeIdx}
    (hchildren : t.children p = skipped ++ c :: rest) :
    (∀ s ∈ skipped, s ∈ t.children p ∧ s ≠ c ∧ ∀ r ∈ rest, s ≠ r) ∧
      ∀ s ∈ rest, s ∈ t.children p := by
  have hnodup := h.nodup p
  rw [hchildren] at hnodup ⊢
  obtain ⟨-, -, hdisjoint⟩ := List.nodup_append.mp hnodup
  refine ⟨fun s hs => ⟨List.mem_append_left _ hs, hdisjoint s hs c List.mem_cons_self,
    fun r hr => hdisjoint s hs r (List.mem_cons_of_mem c hr)⟩, fun s hs => ?_⟩
  exact List.mem_append_right skipped (List.mem_cons_of_mem c hs)

/-! ### Nodes that lead to a child -/

/-- Whether a node leads to a child depends on its own status and on those of the children
before. -/
theorem Leads.of_shape {p c : NodeIdx} (h : t.Leads p c) (hlinked : t.Linked)
    (hshape : u.shape = t.shape) (hp : u.status p = t.status p)
    (hsiblings : ∀ s ∈ t.children p, s ≠ c → u.status s = t.status s) : u.Leads p c where
  unfinished := by rw [hp, h.unfinished]
  skips := by
    obtain ⟨composite, skipped, rest, hkind, hchildren, hskipped⟩ := h.skips
    refine ⟨composite, skipped, rest, by rw [kind_of_shape hshape, hkind],
      by rw [children_of_shape hshape, hchildren], fun s hs => ?_⟩
    obtain ⟨hmem, hne, -⟩ := (hlinked.around_child hchildren).1 s hs
    rw [hsiblings s hmem hne]
    exact hskipped s hs

/-- A node that leads to a child still does after changes below that child. -/
theorem Leads.of_below {p c : NodeIdx} (h : t.Leads p c) (hlinked : t.Linked)
    (hshape : u.shape = t.shape)
    (hframe : ∀ j, ¬ t.Climbs j c → u.status j = t.status j) : u.Leads p c := by
  have hc : c ∈ t.children p := by
    obtain ⟨-, skipped, rest, -, hchildren, -⟩ := h.skips
    rw [hchildren]
    exact List.mem_append_right skipped List.mem_cons_self
  refine h.of_shape hlinked hshape (hframe p (hlinked.not_climbs_child hc)) fun s hs hne => ?_
  exact hframe s fun hclimb => hne (hlinked.eq_of_climbs_sibling hs hc hclimb)

/-- If each node on the way to a node leads to the next, that stays so after changes below the
node. -/
theorem Above.isChain_of_below (h : t.Linked) {i : NodeIdx} {above : List NodeIdx}
    (habove : t.Above i above) (hway : (above ++ [i]).IsChain t.Leads) (hshape : u.shape = t.shape)
    (hframe : ∀ j, ¬ t.Climbs j i → u.status j = t.status j) :
    (above ++ [i]).IsChain u.Leads := by
  refine hway.imp_of_mem_tail_imp fun p c _ hc hleads => ?_
  have hclimb : t.Climbs i c := habove.climbs c (List.mem_of_mem_tail hc)
  exact hleads.of_below h hshape fun j hj => hframe j fun hji => hj (hji.trans hclimb)

end Arena

namespace Tree

open Arena

variable {t : Arena}

/-! ### The marks of a jump -/

/-- The marks for a node of the way and for its children before the way. -/
def mark (t : Arena) (p : NodeIdx) (skipped : List NodeIdx) : Arena :=
  (if (t.status p).isFinished then t.setStatus p .notEntered else t).setStatuses skipped
    (.ofOutcome (t.kind p == .composite .sequence))

section Mark

variable {p c j : NodeIdx} {skipped rest : List NodeIdx}

/-- Besides those marks, the children after the way are reset. -/
theorem leadTo_eq (hchildren : t.children p = skipped ++ c :: rest) (hc : c ∉ skipped) :
    leadTo t p c = rest.foldl resetFrom (mark t p skipped) := by
  have hbefore : ∀ s ∈ skipped, (s != c) = true := fun s hs =>
    bne_iff_ne.mpr (ne_of_mem_of_not_mem hs hc)
  have hhere : ¬ (c != c) = true := by simp
  have htake : (c :: rest).takeWhile (· != c) = [] := List.takeWhile_cons_of_neg hhere
  have hdrop : (c :: rest).dropWhile (· != c) = c :: rest := List.dropWhile_cons_of_neg hhere
  rw [leadTo, hchildren, List.takeWhile_append_of_pos hbefore, List.dropWhile_append_of_pos hbefore,
    htake, hdrop, List.append_nil]
  rfl

theorem shape_mark (t : Arena) (p : NodeIdx) (skipped : List NodeIdx) :
    (mark t p skipped).shape = t.shape := by
  rw [mark, shape_setStatuses]
  split <;> simp

/-- Nothing else is marked. -/
theorem status_mark_of_not_mem (hp : j ≠ p) (hj : j ∉ skipped) :
    (mark t p skipped).status j = t.status j := by
  rw [mark, status_setStatuses_of_not_mem _ hj]
  split
  · exact status_setStatus_of_ne t hp .notEntered
  · rfl

/-- The node of the way has not ended. -/
theorem outcome?_status_mark_self (hlt : p < t.size) (hp : p ∉ skipped) :
    ((mark t p skipped).status p).outcome? = none := by
  rw [mark, status_setStatuses_of_not_mem _ hp]
  split
  · rw [status_setStatus hlt, if_pos rfl]
    rfl
  · next hfinished =>
      rwa [Status.isFinished, Bool.not_eq_true, Option.isSome_eq_false_iff,
        Option.isNone_iff_eq_none] at hfinished

/-- The children before the way have ended. -/
theorem outcome?_status_mark (hlt : ∀ s ∈ skipped, s < t.size) (hj : j ∈ skipped) :
    ((mark t p skipped).status j).outcome? = some (t.kind p == .composite .sequence) := by
  have hsize : ∀ s ∈ skipped,
      s < (if (t.status p).isFinished then t.setStatus p .notEntered else t).size := by
    intro s hs
    split
    · rw [size_setStatus]
      exact hlt s hs
    · exact hlt s hs
  rw [mark, status_setStatuses hsize, if_pos hj, Status.outcome?_ofOutcome]

/-- The resets leave the marks, and everything that is not below the children after the way. -/
theorem status_leadTo (h : t.Linked) (hchildren : t.children p = skipped ++ c :: rest)
    (hc : c ∉ skipped) (hj : ∀ s ∈ rest, ¬ t.Climbs j s) :
    (leadTo t p c).status j = (mark t p skipped).status j := by
  have hshape := shape_mark t p skipped
  rw [leadTo_eq hchildren hc]
  refine (h.of_shape hshape).status_foldl_resetFrom fun s hs => ?_
  rw [climbs_of_shape hshape]
  exact hj s hs

/-- The marks for one node of the way touch only what lies below it. -/
theorem status_leadTo_of_not_climbs (h : t.Linked) (hc : c ∈ t.children p)
    (hj : ¬ t.Climbs j p) : (leadTo t p c).status j = t.status j := by
  obtain ⟨skipped, rest, hchildren, hnot⟩ := List.eq_append_cons_of_mem hc
  obtain ⟨hskipped, hrest⟩ := h.around_child hchildren
  have hclimb : ∀ s ∈ t.children p, ¬ t.Climbs j s := fun s hs hjs =>
    hj (hjs.tail ((h.parent?_iff p s).mpr hs))
  rw [status_leadTo h hchildren hnot fun s hs => hclimb s (hrest s hs)]
  refine status_mark_of_not_mem ?_ fun hmem => hclimb j (hskipped j hmem).1 .refl
  rintro rfl
  exact hj .refl

/-- The outcome of the children that are skipped does not settle their parent. -/
theorem stopsOn_skipped (composite : Composite) :
    composite.stopsOn (NodeKind.composite composite == .composite .sequence) = false := by
  cases composite <;> rfl

/-- After the marks for one node of the way, it leads to the next. -/
theorem leads_leadTo (h : t.Linked) (hc : c ∈ t.children p) : (leadTo t p c).Leads p c := by
  obtain ⟨skipped, rest, hchildren, hnot⟩ := List.eq_append_cons_of_mem hc
  obtain ⟨hskipped, hrest⟩ := h.around_child hchildren
  obtain ⟨composite, hkind⟩ := h.exists_composite hc
  have hshape := shape_leadTo t p c
  refine ⟨?_, composite, skipped, rest, ?_, ?_, fun s hs => ?_⟩
  · rw [status_leadTo h hchildren hnot fun s hs => h.not_climbs_child (hrest s hs)]
    exact outcome?_status_mark_self (lt_size_of_mem_children hc) fun hmem =>
      h.not_climbs_child (hskipped p hmem).1 .refl
  · rw [kind_of_shape hshape, hkind]
  · rw [children_of_shape hshape, hchildren]
  · obtain ⟨hs', -, hafter⟩ := hskipped s hs
    have hlater : ∀ r ∈ rest, ¬ t.Climbs s r := fun r hr hclimb =>
      hafter r hr (h.eq_of_climbs_sibling hs' (hrest r hr) hclimb)
    refine ⟨t.kind p == .composite .sequence, ?_, ?_⟩
    · rw [status_leadTo h hchildren hnot hlater]
      exact outcome?_status_mark (fun r hr => h.child_lt_size (hskipped r hr).1) hs
    · rw [hkind]
      exact stopsOn_skipped composite

end Mark

/-- The marks of a jump touch only what lies below the first node of the way. -/
theorem status_leadAlong_of_not_climbs (h : t.Linked) {p j : NodeIdx} {way : List NodeIdx}
    (hway : (p :: way).IsChain fun p c => c ∈ t.children p) (hj : ¬ t.Climbs j p) :
    (leadAlong t (p :: way)).status j = t.status j := by
  induction way generalizing t p with
  | nil => rfl
  | cons c way ih =>
      obtain ⟨hc, hway⟩ := List.isChain_cons_cons.mp hway
      have hshape := shape_leadTo t p c
      have hbelow : ¬ t.Climbs j c := fun hjc => hj (hjc.tail ((h.parent?_iff p c).mpr hc))
      have hrest := ih (h.of_shape hshape) (t := leadTo t p c)
        (hway.imp fun q d hd => by rwa [children_of_shape hshape])
        (by rwa [climbs_of_shape hshape])
      exact hrest.trans (status_leadTo_of_not_climbs h hc hj)

/-- After the marks of a jump, every node of the way leads to the next. -/
theorem leads_leadAlong (h : t.Linked) {way : List NodeIdx}
    (hway : way.IsChain fun p c => c ∈ t.children p) :
    way.IsChain (leadAlong t way).Leads := by
  induction way generalizing t with
  | nil => exact .nil
  | cons p way ih =>
      cases way with
      | nil => exact .singleton p
      | cons c rest =>
          obtain ⟨hc, hway⟩ := List.isChain_cons_cons.mp hway
          have hshape := shape_leadTo t p c
          have hlinked := h.of_shape hshape
          have hway' : (c :: rest).IsChain fun q d => d ∈ (leadTo t p c).children q :=
            hway.imp fun q d hd => by rwa [children_of_shape hshape]
          -- The marks further down leave those for this node as they are.
          refine List.isChain_cons_cons.mpr ⟨?_, ih hlinked hway'⟩
          refine (leads_leadTo h hc).of_below hlinked ?_ fun j hj => ?_
          · rw [leadAlong, shape_leadAlong]
          · exact status_leadAlong_of_not_climbs hlinked hway' hj

/-! ### Trees after a jump -/

/-- The way down to a node is what stands above it, and the node. -/
theorem climb_of_above {t : Tree} {i : NodeIdx} {above : List NodeIdx} (h : t.arena.Above i above)
    {fuel : Nat} (hfuel : above.length ≤ fuel) (below : List NodeIdx) :
    t.climb fuel i below = above ++ i :: below := by
  induction h generalizing fuel below with
  | top hparent => cases fuel <;> simp [climb, hparent]
  | @step i p above hparent _ ih =>
      rw [List.length_append, List.length_singleton] at hfuel
      obtain ⟨fuel, rfl⟩ : ∃ n, fuel = n + 1 := ⟨fuel - 1, by omega⟩
      rw [climb, hparent]
      simp only [ih (Nat.le_of_succ_le_succ hfuel), List.append_assoc, List.singleton_append]

variable {t : Tree} {i : NodeIdx} {id : String}

/-- The tree after a jump to a node other than the root. -/
theorem Sound.jumpTo_eq (h : t.Sound) (hlookup : t.arena.lookup? id = some i) (hne : i ≠ t.root)
    {above : List NodeIdx} (habove : t.arena.Above i above) :
    t.jumpTo id = .ok
      { arena := (leadAlong t.arena (above ++ [i])).resetFrom i
        root := t.root
        current := i
        jumped := true } := by
  have hlt := ((h.linked.lookup?_iff id i).mp hlookup).1
  have hpath : t.pathTo i = above ++ [i] := by
    obtain ⟨above', habove', hlen⟩ := h.linked.exists_above i
    obtain rfl := habove.unique habove'
    exact climb_of_above habove (Nat.le_trans hlen (Nat.le_of_lt hlt)) []
  rw [Tree.jumpTo, require, hlookup]
  change (if i = t.root then Except.ok t.reset else _) = _
  rw [if_neg hne, hpath]
  rfl

/-- After a jump every node on the way to the target leads to the next, and the target has
not been entered. -/
theorem Sound.leads_of_jumpTo (h : t.Sound) (hlt : i < t.arena.size) {above : List NodeIdx}
    (habove : t.arena.Above i above) :
    (above ++ [i]).IsChain ((leadAlong t.arena (above ++ [i])).resetFrom i).Leads ∧
      ((leadAlong t.arena (above ++ [i])).resetFrom i).status i = .notEntered := by
  have hway := habove.isChain h.linked
  have hshape := shape_leadAlong t.arena (above ++ [i])
  have hlinked := h.linked.of_shape hshape
  have hchain := leads_leadAlong h.linked hway
  exact ⟨(above_of_shape hshape habove).isChain_of_below hlinked hchain (shape_resetFrom ..)
      fun j hj => hlinked.status_resetFrom_of_not_climbs hj,
    hlinked.status_resetFrom_self (by rwa [size_of_shape hshape])⟩

end Tree

end Ladybug
